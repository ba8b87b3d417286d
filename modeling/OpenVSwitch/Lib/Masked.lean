import Mathlib.Data.BitVec
import Mathlib.Logic.Function.Basic

/-!
# Records of bit fields, and masks

A record has a bit vector for every field.  A mask is such a record, too: its 1-bits are the bits
that matter.  Two records *agree* on a mask if they have the same bits where the mask has ones, and
a cache that is indexed by masked records cannot tell them apart.

A program that computes something from a record collects the bits that it looks at in a mask.  So
the questions are which fields two records have in common if they agree on the mask in the end
(`Agree.eq`, `Agree.and_eq`), and that masks only grow on the way there (`Le` and its lemmas).
-/

namespace OVS

namespace Masked

open Function

variable {ι : Type} {w : ι → ℕ}

/-- A value of `w i` bits for every field `i`. -/
abbrev Record (w : ι → ℕ) := (i : ι) → BitVec (w i)

/-- The records have the same bits where the mask has ones. -/
def Agree (m f g : Record w) : Prop := ∀ i, f i &&& m i = g i &&& m i

/-- The mask `m'` has ones where `m` has. -/
def Le (m m' : Record w) : Prop := ∀ i, m i &&& m' i = m i

variable {m m' m'' f g : Record w} {i : ι} {b : BitVec (w i)}

lemma Le.refl (m : Record w) : Le m m := fun _ => BitVec.and_self

lemma Le.trans (h : Le m m') (h' : Le m' m'') : Le m m'' := by
  intro i
  rw [← h i, BitVec.and_assoc, h' i]

/-- Records that agree on a mask agree on a smaller one. -/
lemma Agree.mono (h : Agree m' f g) (hle : Le m m') : Agree m f g := by
  intro i
  have hm : ∀ x : BitVec (w i), x &&& m i = x &&& m' i &&& m i := by
    intro x
    rw [BitVec.and_assoc, BitVec.and_comm (m' i), hle i]
  rw [hm, hm (g i), h i]

/-- The bits of a field that the mask covers are the same. -/
lemma Agree.and_eq (h : Agree m f g) {b : BitVec (w i)} (hb : b &&& m i = b) :
    f i &&& b = g i &&& b := by
  have hf : ∀ x : BitVec (w i), x &&& b = x &&& m i &&& b := by
    intro x
    rw [BitVec.and_assoc, BitVec.and_comm (m i), hb]
  rw [hf, hf (g i), h i]

/-- A field of which the mask covers all bits is the same. -/
lemma Agree.eq (h : Agree m f g) (hm : m i = BitVec.allOnes (w i)) : f i = g i := by
  have hi := h i
  rwa [hm, BitVec.and_allOnes, BitVec.and_allOnes] at hi

lemma Le.allOnes (h : Le m m') (hm : m i = BitVec.allOnes (w i)) :
    m' i = BitVec.allOnes (w i) := by
  have hi := h i
  rwa [hm, BitVec.allOnes_and] at hi

variable [DecidableEq ι]

/-- The mask with ones in all bits of a field. -/
def exact (m : Record w) (i : ι) : Record w := update m i (BitVec.allOnes (w i))

/-- The mask with ones in some more bits of a field. -/
def orBits (m : Record w) (i : ι) (b : BitVec (w i)) : Record w :=
  update m i (m i ||| b)

@[simp] lemma exact_self (m : Record w) (i : ι) : exact m i i = BitVec.allOnes (w i) :=
  update_self ..

lemma le_update (h : m i &&& b = m i) : Le m (update m i b) := by
  intro j
  by_cases hj : j = i
  · subst hj
    rwa [update_self]
  · rw [update_of_ne hj, BitVec.and_self]

lemma le_exact (m : Record w) (i : ι) : Le m (exact m i) := le_update BitVec.and_allOnes

/-- The bits that have been added are covered. -/
lemma and_orBits (i : ι) (b : BitVec (w i)) : b &&& orBits m i b i = b := by
  rw [orBits, update_self]
  refine BitVec.eq_of_getElem_eq fun k hk => ?_
  simp only [BitVec.getElem_and, BitVec.getElem_or]
  cases b[k] <;> simp

/-- The mask with ones in all bits of some fields. -/
def exactAll (m : Record w) (is : List ι) : Record w := is.foldl exact m

end Masked

end OVS
