import Mathlib.Data.Nat.Digits.Lemmas
import Mathlib.Data.List.Sort
import Mathlib.Data.List.TakeWhile

/-!
# Byte strings

A small library of NUL-terminated byte strings and of the number formats a C program prints
into them.  Nothing here knows which program uses it.

**Strings.**  `CString` is a list of bytes that carries the proof that no byte is NUL, so a
value of the type is exactly what a `char *` denotes.  `CString.ofBytes` is how C reads a
buffer through such a pointer: up to the first NUL (`CString.ofBytes_bytes_of_nul_free` says
that nothing is lost when there is none).  `strcmp` is the bytewise comparison and
`strcmp_eq_iff` its relation to equality.

**Numbers.**  `decimal` is the digit string of `%d`; `decimal_step` is the recursion a reader
of digits follows (all but the last digit, then the last one).  `hex4` is `%04x`.
-/

namespace OVS

/-- The byte of an ASCII character. -/
def ch (c : Char) : UInt8 := c.toNat.toUInt8

/-- The bytes of an ASCII literal. -/
def ascii (s : String) : List UInt8 := s.toList.map ch

/-! ## NUL-terminated strings -/

/-- What a `char *` denotes: bytes of which none is NUL. -/
structure CString where
  bytes : List UInt8
  nul_free : 0 ∉ bytes
deriving DecidableEq

namespace CString

/-- A buffer read through a `char *`: its bytes up to the first NUL. -/
def ofBytes (bs : List UInt8) : CString where
  bytes := bs.takeWhile (· != 0)
  nul_free h := by simpa using List.mem_takeWhile_imp h

/-- Reading a buffer that holds no NUL loses nothing. -/
@[simp] lemma ofBytes_bytes_of_nul_free {bs : List UInt8} (h : 0 ∉ bs) :
    (ofBytes bs).bytes = bs := by
  rw [ofBytes, List.takeWhile_eq_self_iff]
  intro b hb
  simpa using fun h0 : b = 0 => h (h0 ▸ hb)

@[ext] lemma ext {s t : CString} (h : s.bytes = t.bytes) : s = t := by
  cases s; cases t; simpa using h

@[simp] lemma bytes_inj {s t : CString} : s.bytes = t.bytes ↔ s = t :=
  CString.ext_iff.symm

@[simp] lemma ofBytes_bytes (s : CString) : ofBytes s.bytes = s :=
  ext (ofBytes_bytes_of_nul_free s.nul_free)

/-- A string literal of the source. -/
def lit (s : String) : CString := ofBytes (ascii s)

end CString

/-- `strcmp()`: bytewise lexicographic comparison, bytes taken as unsigned. -/
def strcmp : List UInt8 → List UInt8 → Ordering
  | [], [] => .eq
  | [], _ :: _ => .lt
  | _ :: _, [] => .gt
  | a :: as, b :: bs => (compare a b).then (strcmp as bs)

@[simp] lemma strcmp_eq_iff : ∀ {a b : List UInt8}, strcmp a b = .eq ↔ a = b
  | [], [] => by simp [strcmp]
  | [], _ :: _ => by simp [strcmp]
  | _ :: _, [] => by simp [strcmp]
  | a :: as, b :: bs => by
    simp only [strcmp, Ordering.then_eq_eq, List.cons.injEq, strcmp_eq_iff (a := as)]
    exact and_congr_left fun _ => Std.LawfulEqOrd.compare_eq_iff_eq

/-! ## Decimal numbers -/

/-- `isdigit()` in the C locale. -/
def isdigit (c : UInt8) : Bool := ch '0' ≤ c && c ≤ ch '9'

/-- The character of a decimal digit. -/
def digitByte (d : ℕ) : UInt8 := ch '0' + d.toUInt8

/-- `%d` for a nonnegative number. -/
def decimal (n : ℕ) : List UInt8 :=
  if n = 0 then [ch '0'] else ((Nat.digits 10 n).map digitByte).reverse

lemma decimal_of_lt_ten {n : ℕ} (h : n < 10) : decimal n = [digitByte n] := by
  interval_cases n <;> simp [decimal, digitByte]

/-- **All but the last digit, then the last one.**  The recursion along which a reader of
digits is verified. -/
lemma decimal_step {n : ℕ} (h : 10 ≤ n) :
    decimal n = decimal (n / 10) ++ [digitByte (n % 10)] := by
  have hn : n ≠ 0 := by omega
  have hq : n / 10 ≠ 0 := by omega
  simp [decimal, hn, hq, Nat.digits_def' (by decide : 1 < 10) (Nat.pos_of_ne_zero hn)]

/-- The digits of a number, one induction step per digit. -/
lemma decimal_induction {P : ℕ → Prop} (base : ∀ n < 10, P n)
    (step : ∀ n, 10 ≤ n → P (n / 10) → P n) (n : ℕ) : P n := by
  induction n using Nat.strong_induction_on with
  | _ n ih =>
    by_cases h : n < 10
    · exact base n h
    · exact step n (by omega) (ih (n / 10) (by omega))

lemma digitByte_toNat {d : ℕ} (h : d < 10) : (digitByte d).toNat = 48 + d := by
  interval_cases d <;> rfl

lemma isdigit_digitByte {d : ℕ} (h : d < 10) : isdigit (digitByte d) = true := by
  interval_cases d <;> rfl

/-- The ten digits. -/
lemma exists_digitByte_of_isdigit {c : UInt8} (h : isdigit c = true) :
    ∃ d < 10, c = digitByte d := by
  simp only [isdigit, Bool.and_eq_true, decide_eq_true_eq, UInt8.le_iff_toNat_le] at h
  have h0 : (ch '0').toNat = 48 := rfl
  have h9 : (ch '9').toNat = 57 := rfl
  refine ⟨c.toNat - 48, by omega, UInt8.toNat_inj.1 ?_⟩
  rw [digitByte_toNat (by omega)]
  omega

lemma decimal_isdigit (n : ℕ) : ∀ c ∈ decimal n, isdigit c = true := by
  induction n using decimal_induction with
  | base n h => simpa [decimal_of_lt_ten h] using isdigit_digitByte h
  | step n h ih =>
    intro c hc
    simp only [decimal_step h, List.mem_append, List.mem_singleton] at hc
    rcases hc with hc | rfl
    · exact ih c hc
    · exact isdigit_digitByte (Nat.mod_lt n (by decide))

lemma decimal_ne_nil (n : ℕ) : decimal n ≠ [] := by
  by_cases h : n < 10
  · simp [decimal_of_lt_ten h]
  · simp [decimal_step (by omega : 10 ≤ n)]

/-- A nonzero number does not start with the digit zero. -/
lemma decimal_head {n : ℕ} (hn : n ≠ 0) :
    ∃ c cs, decimal n = c :: cs ∧ c ≠ ch '0' := by
  induction n using decimal_induction with
  | base n h =>
    refine ⟨digitByte n, [], decimal_of_lt_ten h, ?_⟩
    interval_cases n <;> first | exact absurd rfl hn | decide
  | step n h ih =>
    obtain ⟨c, cs, hcs, hc⟩ := ih (by omega)
    exact ⟨c, cs ++ [digitByte (n % 10)], by simp [decimal_step h, hcs], hc⟩

/-- `%lld`. -/
def decimalInt (n : ℤ) : List UInt8 :=
  if n < 0 then ch '-' :: decimal n.natAbs else decimal n.natAbs

/-- A printed number is a sign or a digit, and digits. -/
lemma decimalInt_cons (n : ℤ) : ∃ c w, decimalInt n = c :: w ∧ (c = ch '-' ∨ isdigit c = true) ∧
    ∀ b ∈ w, isdigit b = true := by
  have hdigit := decimal_isdigit n.natAbs
  unfold decimalInt
  split
  · exact ⟨_, _, rfl, .inl rfl, hdigit⟩
  · cases hn : decimal n.natAbs with
    | nil => exact absurd hn (decimal_ne_nil _)
    | cons c w =>
      rw [hn] at hdigit
      exact ⟨c, w, rfl, .inr (hdigit c (by simp)), fun b hb => hdigit b (by simp [hb])⟩

/-- The character of a hexadecimal digit, lower case as `%x` prints it or upper case as `%X`. -/
def hexByte (upper : Bool) (d : ℕ) : UInt8 :=
  if d < 10 then digitByte d else (if upper then ch 'A' else ch 'a') + (d - 10).toUInt8

/-- `%04x` (or `%04X`) for a value below `0x10000`. -/
def hex4 (upper : Bool) (v : ℕ) : List UInt8 :=
  [v / 4096 % 16, v / 256 % 16, v / 16 % 16, v % 16].map (hexByte upper)

lemma hex4_nul_free (upper : Bool) (v : ℕ) : 0 ∉ hex4 upper v := by
  have key : ∀ upper, ∀ d < 16, 0 ≠ hexByte upper d := by decide
  have hd : ∀ n : ℕ, 0 ≠ hexByte upper (n % 16) := fun n => key upper _ (Nat.mod_lt n (by decide))
  simp [hex4, hd]

end OVS
