import Mathlib.Data.BitVec
import Mathlib.Data.Fintype.Card

/-!
# Bit masks as sets

A bit vector of width `w` is a set of numbers below `w`: `Has x i` says that bit `i` of `x` is set.
Adding an element is `x ||| bit i`, taking a set away is `x &&& ~~~y`, and a loop over the set takes
its lowest element (`lowest`) until nothing is left, which it is when `card` has come down to zero.
-/

namespace OVS

namespace BitSet

variable {w : ℕ} {x y : BitVec w} {i j : Fin w}

/-- The bit `i` of `x` is set. -/
def Has (x : BitVec w) (i : Fin w) : Prop := x.getLsbD i = true

instance (x : BitVec w) (i : Fin w) : Decidable (Has x i) :=
  inferInstanceAs (Decidable (_ = true))

/-- The mask with bit `i` only. -/
def bit (i : Fin w) : BitVec w := BitVec.twoPow w i

@[simp] lemma has_or : Has (x ||| y) i ↔ Has x i ∨ Has y i := by
  simp [Has]

@[simp] lemma has_diff : Has (x &&& ~~~y) i ↔ Has x i ∧ ¬Has y i := by
  simp [Has]

@[simp] lemma has_bit : Has (bit i) j ↔ i = j := by
  simp [Has, bit, Fin.ext_iff, eq_comm]

@[simp] lemma not_has_zero : ¬Has (0#w) i := by
  simp [Has]

lemma eq_zero_iff : x = 0 ↔ ∀ i, ¬Has x i := by
  constructor
  · rintro rfl i
    exact not_has_zero
  · refine fun h => BitVec.eq_of_getLsbD_eq fun i hi => ?_
    simpa [Has] using h ⟨i, hi⟩

/-- The lowest bit that is set. -/
def lowest (x : BitVec w) : Option (Fin w) := (List.finRange w).find? fun i => Has x i

lemma has_of_lowest (h : lowest x = some i) : Has x i := by
  simpa using List.find?_some h

lemma not_has_of_lowest (h : lowest x = none) (i : Fin w) : ¬Has x i := by
  simpa using List.find?_eq_none.mp h i (List.mem_finRange i)

/-- The number of bits that are set. -/
def card (x : BitVec w) : ℕ := (Finset.univ.filter fun i => Has x i).card

lemma card_le : card x ≤ w := by
  calc card x ≤ (Finset.univ : Finset (Fin w)).card := Finset.card_filter_le _ _
    _ = w := Finset.card_fin w

/-- Taking a set away that has an element in common makes a set smaller. -/
lemma card_diff_lt (hx : Has x i) (hy : Has y i) : card (x &&& ~~~y) < card x := by
  refine Finset.card_lt_card (Finset.ssubset_iff_of_subset ?_ |>.mpr ⟨i, ?_, ?_⟩)
  · intro j hj
    simp only [Finset.mem_filter, has_diff] at hj ⊢
    exact ⟨hj.1, hj.2.1⟩
  · simpa using hx
  · simp [hy]

end BitSet

end OVS
