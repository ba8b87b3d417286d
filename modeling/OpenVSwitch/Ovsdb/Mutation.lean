import Mathlib.Algebra.Group.Int.Defs
import Mathlib.Data.Int.Init
import Mathlib.Tactic.Common

/-!
# Mutations of integers

`ovsdb/mutation.c`: arithmetic on a column of type integer, which fails if the result is not an
`int64_t`.  Signed overflow and division by zero have no result here: the former is undefined, and
the latter kills the server.

* `addInt_subInt_exact` — the tests of `add_int()` and `sub_int()` are exact, and do not overflow
  themselves.
* `mulInt_exact_iff` — `mul_int()` is right for some operands only.  Of two positive ones, it
  refuses a largest possible one; of two negative ones, it squares the second instead of
  multiplying; and it divides by zero.
-/

namespace OVS

namespace Ovsdb

open BitVec hiding xor_self

/-- `enum ovsdb_mutation_scalar_error`, as far as these functions return it. -/
inductive ScalarError where
  | ok
  | range
deriving DecidableEq

/-- The values of an `int64_t`. -/
def InInt64 (v : ℤ) : Prop := -2 ^ 63 ≤ v ∧ v < 2 ^ 63

instance (v : ℤ) : Decidable (InInt64 v) := inferInstanceAs (Decidable (_ ∧ _))

/-- The result of signed arithmetic, unless it overflows. -/
def signed (v : ℤ) : Option (BitVec 64) := if InInt64 v then some (BitVec.ofInt 64 v) else none

/-- Signed division. -/
def divide (a b : BitVec 64) : Option (BitVec 64) :=
  if b = 0 then none else signed (a.toInt.tdiv b.toInt)

/-- The end of the functions below: what they return and leave in `*x`. -/
def store (x : BitVec 64) (overflow : Bool) (v : ℤ) : Option (ScalarError × BitVec 64) :=
  if overflow then some (.range, x) else (signed v).map (Prod.mk .ok)

def addInt (x y : BitVec 64) : Option (ScalarError × BitVec 64) := do
  let z := ~~~(x ^^^ y) &&& BitVec.intMin 64
  let s ← signed ((x ^^^ z).toInt + y.toInt)
  store x ((~~~(x ^^^ y) &&& ~~~(s ^^^ y)).sshiftRight 63 ≠ 0) (x.toInt + y.toInt)

def subInt (x y : BitVec 64) : Option (ScalarError × BitVec 64) := do
  let z := (x ^^^ y) &&& BitVec.intMin 64
  let s ← signed ((x ^^^ z).toInt - y.toInt)
  store x (((x ^^^ y) &&& (s ^^^ y)).sshiftRight 63 ≠ 0) (x.toInt - y.toInt)

/-- The condition of `mul_int()`. -/
def mulOverflows (x y : BitVec 64) : Option Bool :=
  if 0 < x.toInt then
    if 0 < y.toInt then (divide (BitVec.intMax 64) y).map fun q => x.toInt ≥ q.toInt
    else (divide (BitVec.intMin 64) x).map fun q => y.toInt < q.toInt
  else if 0 < y.toInt then (divide (BitVec.intMin 64) y).map fun q => x.toInt < q.toInt
  else if x ≠ 0 then (divide (BitVec.intMax 64) y).map fun q => y.toInt < q.toInt
  else some false

def mulInt (x y : BitVec 64) : Option (ScalarError × BitVec 64) := do
  store x (← mulOverflows x y) (x.toInt * y.toInt)

/-- What a mutation to the value `v` should do. -/
def exactly (x : BitVec 64) (v : ℤ) : ScalarError × BitVec 64 :=
  if InInt64 v then (.ok, BitVec.ofInt 64 v) else (.range, x)

/-! ## Signed arithmetic -/

lemma toInt_ofInt_of_mem {v : ℤ} (h : InInt64 v) : (BitVec.ofInt 64 v).toInt = v := by
  unfold InInt64 at h
  rw [toInt_ofInt, Int.bmod_def]
  omega

lemma msb_ofInt_of_mem {v : ℤ} (h : InInt64 v) : (BitVec.ofInt 64 v).msb = decide (v < 0) := by
  rw [msb_eq_toInt, toInt_ofInt_of_mem h]

lemma inInt64_toInt (x : BitVec 64) : InInt64 x.toInt := ⟨le_toInt x, toInt_lt⟩

/-- The end is right if overflow has been detected exactly. -/
lemma store_eq_iff {x : BitVec 64} {overflow : Bool} {v : ℤ} :
    store x overflow v = some (exactly x v) ↔ (overflow = true ↔ ¬ InInt64 v) := by
  cases overflow <;> by_cases hv : InInt64 v <;> simp [store, signed, exactly]

lemma sshiftRight_ne_zero (v : BitVec 64) : v.sshiftRight 63 ≠ 0 ↔ v.msb = true := by
  have hv := inInt64_toInt v
  unfold InInt64 at hv
  rw [Ne, ← toInt_inj, toInt_sshiftRight, Int.shiftRight_eq_div_pow,
    msb_eq_toInt, decide_eq_true_eq]
  simp only [ofNat_eq_ofNat, toInt_zero]
  omega

lemma and_intMin (v : BitVec 64) :
    v &&& BitVec.intMin 64 = if v.msb then BitVec.intMin 64 else 0 := by
  refine eq_of_getLsbD_eq fun i hi => ?_
  rw [getLsbD_and, msb_eq_getLsbD_last]
  by_cases h : i = 63
  · subst h
    cases v.getLsbD 63 <;> rfl
  · have hne : ¬ i + 1 = 64 := by omega
    split <;> simp [getLsbD_intMin, hne]

/-- A nonnegative number with its sign flipped. -/
lemma toInt_xor_intMin_of_msb {x : BitVec 64} (h : x.msb = false) :
    (x ^^^ BitVec.intMin 64).toInt = x.toInt - 2 ^ 63 := by
  have hzero : x &&& BitVec.intMin 64 = 0 := by simp [and_intMin, h]
  have hxor : x ^^^ BitVec.intMin 64 = x + BitVec.intMin 64 := by
    rw [add_eq_or_of_and_eq_zero x _ hzero]
    refine eq_of_getLsbD_eq fun i hi => ?_
    have hbit := congrArg (getLsbD · i) hzero
    simp only [getLsbD_and] at hbit
    simp only [getLsbD_xor, getLsbD_or]
    revert hbit
    cases x.getLsbD i <;> cases (BitVec.intMin 64).getLsbD i <;> simp
  rw [msb_eq_toInt, decide_eq_false_iff_not] at h
  have hlt := (inInt64_toInt x).2
  rw [hxor, toInt_add, show (BitVec.intMin 64).toInt = -2 ^ 63 by rfl, Int.bmod_def]
  omega

/-- **The sign is flipped if `v` is negative.** -/
lemma toInt_xor_and_intMin (x v : BitVec 64) : (x ^^^ (v &&& BitVec.intMin 64)).toInt =
    if v.msb then if x.msb then x.toInt + 2 ^ 63 else x.toInt - 2 ^ 63 else x.toInt := by
  rw [and_intMin]
  cases v.msb with
  | false => simp
  | true =>
    cases hx : x.msb with
    | false => exact toInt_xor_intMin_of_msb hx
    | true =>
      have hflip : (x ^^^ BitVec.intMin 64).msb = false := by
        rw [msb_xor, hx]
        rfl
      have := toInt_xor_intMin_of_msb hflip
      rw [BitVec.xor_assoc, BitVec.xor_self, BitVec.xor_zero] at this
      simp only [if_true]
      omega

/-- **Sums and differences.**  Both functions store the exact result if it is an `int64_t`, and
otherwise fail and leave the operand as it was. -/
theorem addInt_subInt_exact (x y : BitVec 64) :
    addInt x y = some (exactly x (x.toInt + y.toInt)) ∧
      subInt x y = some (exactly x (x.toInt - y.toInt)) := by
  have hxm := @BitVec.msb_eq_toInt 64 x
  have hym := @BitVec.msb_eq_toInt 64 y
  constructor
  · have hs := toInt_xor_and_intMin x (~~~(x ^^^ y))
    have hmem : InInt64 ((x ^^^ (~~~(x ^^^ y) &&& BitVec.intMin 64)).toInt + y.toInt) := by
      rw [InInt64]
      grind
    simp only [addInt, signed, if_pos hmem, Option.bind_eq_bind, Option.bind_some]
    rw [store_eq_iff, decide_eq_true_eq, sshiftRight_ne_zero]
    simp only [BitVec.msb_and, BitVec.msb_not, BitVec.msb_xor, msb_ofInt_of_mem hmem]
    simp only [hs, hym, InInt64]
    grind
  · have hs := toInt_xor_and_intMin x (x ^^^ y)
    have hmem : InInt64 ((x ^^^ ((x ^^^ y) &&& BitVec.intMin 64)).toInt - y.toInt) := by
      rw [InInt64]
      grind
    simp only [subInt, signed, if_pos hmem, Option.bind_eq_bind, Option.bind_some]
    rw [store_eq_iff, decide_eq_true_eq, sshiftRight_ne_zero]
    simp only [BitVec.msb_and, BitVec.msb_xor, msb_ofInt_of_mem hmem]
    simp only [hs, InInt64]
    clear hs hmem
    grind

/-! ## Products -/

lemma divide_map {a b : BitVec 64} {q : ℤ} (f : ℤ → Bool) (hb : b.toInt ≠ 0)
    (hq : a.toInt.tdiv b.toInt = q) (hmem : InInt64 q) :
    ((divide a b).map fun q => f q.toInt) = some (f q) := by
  have hb' : b ≠ 0 := by
    rintro rfl
    exact hb rfl
  rw [divide, if_neg hb', hq, signed, if_pos hmem, Option.map_some, toInt_ofInt_of_mem hmem]

/-- A number is compared with a quotient that is not positive. -/
lemma divide_map_lt {a b : BitVec 64} {m n : ℤ} (u : ℤ) (hb : b.toInt ≠ 0) (hm : 0 ≤ m)
    (hm' : m ≤ 2 ^ 63) (hn : 0 < n) (hq : a.toInt.tdiv b.toInt = -(m.tdiv n)) :
    ((divide a b).map fun q => decide (u < q.toInt)) = some (decide (m < -(u * n))) := by
  have hnonneg := Int.ediv_nonneg hm (Int.le_of_lt hn)
  have hle := Int.ediv_le_self n hm
  rw [Int.tdiv_eq_ediv_of_nonneg hm] at hq
  have hlt := @Int.ediv_lt_iff_lt_mul m (-u) n hn
  rw [divide_map (fun q => decide (u < q)) hb hq ⟨by omega, by omega⟩, Option.some.injEq,
    decide_eq_decide, ← Int.neg_mul]
  omega

/-- **Products.**  The function is right unless both factors are positive and the first is the
largest for which the product is an `int64_t`, or the first is negative and the second is zero,
or both are negative and the square of the second is an `int64_t` but the product is not, or the
other way round. -/
theorem mulInt_exact_iff (x y : BitVec 64) :
    mulInt x y = some (exactly x (x.toInt * y.toInt)) ↔
      (0 < x.toInt → 0 < y.toInt → x.toInt ≠ (2 ^ 63 - 1) / y.toInt) ∧
      (x.toInt < 0 → y.toInt ≤ 0 → y.toInt ≠ 0 ∧
        (y.toInt * y.toInt < 2 ^ 63 ↔ x.toInt * y.toInt < 2 ^ 63)) := by
  have hmax : (BitVec.intMax 64).toInt = 2 ^ 63 - 1 := rfl
  have hmin : (BitVec.intMin 64).toInt = -2 ^ 63 := rfl
  have hmul : ∀ {o : Bool}, mulOverflows x y = some o →
      (mulInt x y = some (exactly x (x.toInt * y.toInt)) ↔
        (o = true ↔ ¬ InInt64 (x.toInt * y.toInt))) := by
    intro o ho
    rw [mulInt, ho, ← store_eq_iff]
    rfl
  by_cases hx : 0 < x.toInt
  · by_cases hy : 0 < y.toInt
    · have hnonneg := Int.ediv_nonneg (show (0 : ℤ) ≤ 2 ^ 63 - 1 by decide) (Int.le_of_lt hy)
      have hle := Int.ediv_le_self y.toInt (show (0 : ℤ) ≤ 2 ^ 63 - 1 by decide)
      have hlt := @Int.ediv_lt_iff_lt_mul (2 ^ 63 - 1) x.toInt y.toInt hy
      have hpos := Int.mul_pos hx hy
      rw [hmul (by rw [mulOverflows, if_pos hx, if_pos hy, divide_map
        (fun q => x.toInt ≥ q) (by omega) (by rw [hmax, Int.tdiv_eq_ediv_of_nonneg (by decide)])
        ⟨by omega, by omega⟩]), decide_eq_true_eq, InInt64]
      omega
    · have hneg := Int.mul_nonpos_of_nonneg_of_nonpos (Int.le_of_lt hx) (Int.not_lt.1 hy)
      rw [hmul (by rw [mulOverflows, if_pos hx, if_neg hy, divide_map_lt y.toInt (by omega)
        (by decide) (Int.le_refl _) hx (by rw [hmin, Int.neg_tdiv])]), decide_eq_true_eq, InInt64,
        Int.mul_comm y.toInt]
      omega
  · by_cases hy : 0 < y.toInt
    · have hneg := Int.mul_nonpos_of_nonpos_of_nonneg (Int.not_lt.1 hx) (Int.le_of_lt hy)
      rw [hmul (by rw [mulOverflows, if_neg hx, if_pos hy, divide_map_lt x.toInt (by omega)
        (by decide) (Int.le_refl _) hy (by rw [hmin, Int.neg_tdiv])]), decide_eq_true_eq, InInt64]
      omega
    · by_cases hzero : x = 0
      · subst hzero
        rw [hmul (by rw [mulOverflows, if_neg hx, if_neg hy, if_neg (by simp)])]
        simp [InInt64]
      have hx' : x.toInt < 0 := by
        have : x.toInt ≠ 0 := fun h => hzero (BitVec.toInt_inj.1 h)
        omega
      by_cases hy' : y.toInt = 0
      · have hnone : mulOverflows x y = none := by
          rw [mulOverflows, if_neg hx, if_neg hy, if_pos hzero, divide,
            if_pos (BitVec.toInt_inj.1 hy')]
          rfl
        rw [mulInt, hnone]
        simp [hx', hy']
      · have hpos := Int.mul_pos_of_neg_of_neg hx' (show y.toInt < 0 by omega)
        rw [hmul (by rw [mulOverflows, if_neg hx, if_neg hy, if_pos hzero, divide_map_lt y.toInt hy'
          (show 0 ≤ 2 ^ 63 - 1 by decide) (by decide) (show 0 < -y.toInt by omega)
          (by rw [hmax, Int.tdiv_neg, Int.neg_neg])]), decide_eq_true_eq, InInt64, Int.mul_neg]
        omega

/-- **A negative number times zero kills the server**; a product that is an `int64_t` is refused;
and one that is not is computed. -/
theorem mulInt_divides_by_zero :
    mulInt (-1) 0 = none ∧ mulInt (BitVec.intMax 64) 1 = some (.range, BitVec.intMax 64) ∧
      mulInt (BitVec.intMin 64) (-1) = none := by
  decide

end Ovsdb

end OVS
