import Mathlib.Data.BitVec

/-!
# Matches with a mask

A match is a value and a mask: it accepts the words that agree with the value wherever the mask
has a 1-bit.  The value has no 1-bit outside the mask, so that equal matches are equal data.

`Match.loose_iff` gives inclusion of matches, which is computed on values and masks, its meaning.
-/

namespace OVS

open BitVec hiding and_comm

/-- Two words agree under a mask. -/
lemma xor_and_eq_zero {w : ℕ} {a b m : BitVec w} : (a ^^^ b) &&& m = 0#w ↔ a &&& m = b &&& m := by
  have hdistrib : (a ^^^ b) &&& m = (a &&& m) ^^^ (b &&& m) := by
    refine eq_of_getLsbD_eq fun i _ => ?_
    simp only [getLsbD_and, getLsbD_xor]
    cases a.getLsbD i <;> cases b.getLsbD i <;> cases m.getLsbD i <;> rfl
  rw [hdistrib]
  exact BitVec.xor_eq_zero_iff

/-- A value under a mask. -/
@[ext] structure Match (w : ℕ) where
  flow : BitVec w
  mask : BitVec w
  canonical : flow &&& mask = flow
deriving DecidableEq

namespace Match

variable {w : ℕ}

/-- The match of a value under a mask. -/
def ofMasked (flow mask : BitVec w) : Match w :=
  ⟨flow &&& mask, mask, by rw [BitVec.and_assoc, BitVec.and_self]⟩

/-- The match that accepts every word. -/
def catchall : Match w := ⟨0#w, 0#w, BitVec.and_self⟩

/-- The word agrees with the value under the mask. -/
def Matches (m : Match w) (f : BitVec w) : Prop := f &&& m.mask = m.flow

instance (m : Match w) (f : BitVec w) : Decidable (m.Matches f) :=
  inferInstanceAs (Decidable (f &&& m.mask = m.flow))

/-- The mask of `m` contains that of `c`, and the values agree under the latter. -/
def Loose (m c : Match w) : Prop :=
  c.mask &&& ~~~m.mask = 0#w ∧ (m.flow ^^^ c.flow) &&& c.mask = 0#w

instance (m c : Match w) : Decidable (m.Loose c) :=
  inferInstanceAs (Decidable (_ ∧ _))

/-- The values agree wherever both masks have a 1-bit. -/
def Overlaps (m c : Match w) : Prop := (m.flow ^^^ c.flow) &&& (m.mask &&& c.mask) = 0#w

instance (m c : Match w) : Decidable (m.Overlaps c) :=
  inferInstanceAs (Decidable (_ = _))

lemma Loose.refl (m : Match w) : m.Loose m := by
  simp [Loose]

@[simp] lemma loose_catchall (m : Match w) : m.Loose catchall := by
  simp [Loose, catchall]

/-- **Loosely matched means included**: whatever `m` accepts, `c` accepts. -/
theorem loose_iff {m c : Match w} : m.Loose c ↔ ∀ f, m.Matches f → c.Matches f := by
  constructor
  · rintro ⟨hmask, hflow⟩ f hf
    refine eq_of_getLsbD_eq fun i hi => ?_
    have h1 := congrArg (getLsbD · i) hmask
    have h2 := congrArg (getLsbD · i) hflow
    have h3 := congrArg (getLsbD · i) hf
    have h4 := congrArg (getLsbD · i) c.canonical
    simp only [getLsbD_and, getLsbD_not, getLsbD_xor, getLsbD_zero,
      hi] at h1 h2 h3 h4 ⊢
    revert h1 h2 h3 h4
    cases f.getLsbD i <;> cases m.mask.getLsbD i <;> cases m.flow.getLsbD i <;>
      cases c.mask.getLsbD i <;> cases c.flow.getLsbD i <;> decide
  · intro h
    -- the two words that `m` accepts: 0 and 1 wherever it has no mask
    have hzero := h m.flow m.canonical
    have hone := h (m.flow ||| ~~~m.mask) (by
      unfold Matches
      rw [BitVec.and_comm, BitVec.and_or_distrib_left, BitVec.and_not_self, BitVec.and_comm,
        m.canonical]
      exact or_zero)
    have hbits : ∀ i, i < w → (c.mask.getLsbD i && !m.mask.getLsbD i) = false ∧
        ((m.flow.getLsbD i ^^ c.flow.getLsbD i) && c.mask.getLsbD i) = false := by
      intro i hi
      have h1 := congrArg (getLsbD · i) hzero
      have h2 := congrArg (getLsbD · i) hone
      have h3 := congrArg (getLsbD · i) m.canonical
      simp only [getLsbD_and, getLsbD_or, getLsbD_not, hi] at h1 h2 h3
      revert h1 h2 h3
      cases m.mask.getLsbD i <;> cases m.flow.getLsbD i <;> cases c.mask.getLsbD i <;>
        cases c.flow.getLsbD i <;> decide
    constructor
    · refine eq_of_getLsbD_eq fun i hi => ?_
      simpa [hi] using (hbits i hi).1
    · refine eq_of_getLsbD_eq fun i hi => ?_
      simpa using (hbits i hi).2

end Match

end OVS
