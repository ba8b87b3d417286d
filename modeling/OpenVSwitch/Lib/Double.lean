import Mathlib.Data.BitVec

/-!
# IEEE 754 binary64 values

A double is its 64-bit pattern.  Comparison goes through `Double.key`, the sign-magnitude
reading of the pattern, so that both zeros compare equal although their patterns differ.
`Double.canon` takes both zeros to `0.0`; numbers compare equal if and only if it takes them to the
same pattern (`Double.key_eq_iff`).
-/

namespace OVS

/-- A `double`, as the bits that represent it. -/
structure Double where
  bits : BitVec 64
deriving DecidableEq

namespace Double

/-- The bits below the sign bit. -/
def magnitude (d : Double) : ℕ := d.bits.toNat % 2 ^ 63

/-- The exponent is all ones and the fraction is not zero. -/
def isNaN (d : Double) : Bool := 0x7ff0000000000000 < d.magnitude

/-- Neither infinite nor NaN. -/
def isFinite (d : Double) : Bool := d.magnitude < 0x7ff0000000000000

/-- The position of a double that is not a NaN on the real line: IEEE patterns are ordered as
sign-magnitude integers. -/
def key (d : Double) : ℤ := if d.bits.msb then -d.magnitude else d.magnitude

/-- `a == b`. -/
def eq (a b : Double) : Bool := !a.isNaN && !b.isNaN && a.key == b.key

/-- `0.0`. -/
def zero : Double := ⟨0⟩

lemma isFinite_zero : zero.isFinite = true := by decide

/-- `-0.0`. -/
def negZero : Double := ⟨BitVec.ofNat 64 (2 ^ 63)⟩

/-- The same number with one pattern for zero. -/
def canon (d : Double) : Double := if d.magnitude = 0 then zero else d

lemma bits_toNat (d : Double) :
    d.bits.toNat = (if d.bits.msb then 2 ^ 63 else 0) + d.magnitude := by
  rw [magnitude, BitVec.msb_eq_decide]
  by_cases h : 2 ^ (64 - 1) ≤ d.bits.toNat
  · simp only [h, decide_true, if_true]
    omega
  · simp only [h]
    rw [if_neg (by simp)]
    omega

lemma key_eq_iff {a b : Double} : a.key = b.key ↔ a.canon = b.canon := by
  have ha := a.bits_toNat
  have hb := b.bits_toNat
  have hext : a = b ↔ a.bits.toNat = b.bits.toNat := by
    rw [BitVec.toNat_inj]
    exact ⟨congrArg bits, fun h => by cases a; cases b; simp_all⟩
  have hzero : zero.magnitude = 0 := by decide
  have hne : ∀ d : Double, d.magnitude ≠ 0 → zero ≠ d := fun d hd h => hd (h ▸ hzero)
  unfold key canon
  by_cases hma : a.magnitude = 0 <;> by_cases hmb : b.magnitude = 0
  · simp [hma, hmb]
  · simp only [hma, hmb, if_true, if_false, hne b hmb, iff_false]
    split <;> split <;> omega
  · simp only [hma, hmb, if_true, if_false, (hne a hma).symm, iff_false]
    split <;> split <;> omega
  · simp only [hma, hmb, if_false, hext, ha, hb]
    have hlt : ∀ d : Double, d.magnitude < 2 ^ 63 := fun d => Nat.mod_lt _ (by decide)
    have hlta := hlt a
    have hltb := hlt b
    cases a.bits.msb <;> cases b.bits.msb <;> simp only [if_true, Bool.false_eq_true, if_false] <;>
      omega

end Double

end OVS
