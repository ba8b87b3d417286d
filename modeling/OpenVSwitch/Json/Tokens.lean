import OpenVSwitch.Json.Serializer

/-!
# The tokens of serialized values

What the serializer prints for an integer or a string, the token functions read back:

* `numberToken_decimalInt`: `json_lex_number()` inverts `%lld` for every `long long int`,
  `LLONG_MIN` included;
* `stringToken_escape`: `json_lex_string()` inverts `json_serialize_string()` for every C
  string, whether or not anything in it had to be escaped.
-/

namespace OVS

open List

/-! ## Integers -/

lemma lexDigits_of_isdigit {σ : Type} (digit : σ → UInt8 → σ) {ds : List UInt8}
    (h : ∀ c ∈ ds, isdigit c = true) (s : σ) :
    lexDigits digit s ds = (ds.foldl digit s, []) := by
  induction ds generalizing s with
  | nil => rfl
  | cons c cs ih =>
    simp only [lexDigits, h c (by simp)]
    exact ih (fun d hd => h d (by simp [hd])) _

lemma digitValue_digitByte {d : ℕ} (h : d < 10) : digitValue (digitByte d) = BitVec.ofNat 64 d := by
  rw [digitValue, digitByte_toNat h]
  exact congrArg _ (Nat.add_sub_cancel_left 48 d)

/-- One more digit, while the value stays in the range of `long long int`: the accumulator does
not overflow. -/
lemma integerDigit_of_le {m d : ℕ} (hm : m * 10 ≤ 2 ^ 63) (hd : d < 10) :
    integerDigit { significand := BitVec.ofNat 64 m } (digitByte d) =
      { significand := BitVec.ofNat 64 (m * 10 + d) } := by
  have hle : BitVec.ofNat 64 m ≤ ullongMaxDiv10 := by
    rw [BitVec.le_def, BitVec.toNat_ofNat, Nat.mod_eq_of_lt (by omega)]
    exact le_trans (by omega : m ≤ 1844674407370955161) (by decide)
  simp only [integerDigit, hle, digitValue_digitByte hd]
  rw [BitVec.ofNat_add, BitVec.ofNat_mul]
  rfl

variable {m : ℕ}

/-- Reading the digits of a number in range gives its value. -/
lemma foldl_integerDigit_decimal (h : m ≤ 2 ^ 63) :
    (decimal m).foldl integerDigit {} = { significand := BitVec.ofNat 64 m } := by
  induction m using decimal_induction with
  | base m hm =>
    rw [decimal_of_lt_ten hm]
    simpa using integerDigit_of_le (m := 0) (by decide) hm
  | step m hm ih =>
    rw [decimal_step hm, foldl_append, ih (by omega), foldl_cons, foldl_nil,
      integerDigit_of_le (by omega) (Nat.mod_lt m (by decide)), Nat.div_add_mod']

lemma lexInteger_decimal (h : m ≤ 2 ^ 63) :
    lexInteger {} (decimal m) = .ok ({ significand := BitVec.ofNat 64 m }, []) := by
  by_cases hm : m = 0
  · subst hm
    rfl
  · obtain ⟨c, cs, hcs, hc⟩ := decimal_head hm
    have hdigit : isdigit c = true := decimal_isdigit m c (by simp [hcs])
    have hfold := lexDigits_of_isdigit integerDigit (decimal_isdigit m) {}
    rw [foldl_integerDigit_decimal h, hcs] at hfold
    simp only [hcs, lexInteger, hc, if_false, hdigit, if_true, hfold]

lemma lexSign_decimal (negative : Bool) :
    lexSign (if negative then ch '-' :: decimal m else decimal m) = (negative, decimal m) := by
  cases negative with
  | true => simp [lexSign]
  | false =>
    have hdigit := decimal_isdigit m
    cases hm : decimal m with
    | nil => rfl
    | cons c cs =>
      have hc : c ≠ ch '-' := fun he => absurd (hdigit c (by simp [hm])) (by rw [he]; decide)
      simp [lexSign, hc]

/-- The token of a decimal number, behind its sign. -/
lemma numberToken_of_sign (D : DoubleFormat) (negative : Bool) {s : CString}
    (h : m ≤ if negative then 2 ^ 63 else 2 ^ 63 - 1)
    (hs : s.bytes = if negative then ch '-' :: decimal m else decimal m) :
    numberToken D s = .ok (.integer
      (if negative then -BitVec.ofNat 64 m else BitVec.ofNat 64 m)) := by
  have hm : m ≤ 2 ^ 63 := h.trans (by split <;> decide)
  simp only [numberToken, hs, lexSign_decimal, lexInteger_decimal hm, lexFraction, lexExponent,
    bind, Except.bind, ne_eq, not_true_eq_false, if_false, integerToken, Bool.false_eq_true,
    lt_irrefl, neg_zero, Int.toNat_zero, scaleDown, true_and, BitVec.toNat_ofNat,
    Nat.mod_eq_of_lt (hm.trans_lt (by decide) : m < 2 ^ 64), if_pos h]
  split
  · next h0 => cases negative <;> simp [h0]
  · rfl

/-- **`json_lex_number()` reads back what `%lld` prints.** -/
theorem numberToken_decimalInt (D : DoubleFormat) (n : BitVec 64) {s : CString}
    (hs : s.bytes = decimalInt n.toInt) : numberToken D s = .ok (.integer n) := by
  have hlow := BitVec.le_toInt n
  have hhigh := BitVec.toInt_lt (x := n)
  have hn : BitVec.ofInt 64 n.toInt = n := BitVec.ofInt_toInt
  by_cases hneg : n.toInt < 0
  · rw [numberToken_of_sign D true (m := n.toInt.natAbs) (by simp; omega)
      (by simp [hs, decimalInt, hneg])]
    have habs : n.toInt = -(n.toInt.natAbs : ℤ) := by omega
    rw [habs, BitVec.ofInt_neg, BitVec.ofInt_natCast] at hn
    simp only [if_true, hn]
  · rw [numberToken_of_sign D false (m := n.toInt.natAbs) (by simp; omega)
      (by simp [hs, decimalInt, hneg])]
    have habs : n.toInt = (n.toInt.natAbs : ℤ) := by omega
    rw [habs, BitVec.ofInt_natCast] at hn
    simp only [Bool.false_eq_true, if_false, hn]

/-! ## Strings -/

/-- A byte that stands for itself in a quoted string. -/
def isPlain (c : UInt8) : Bool := 0x20 ≤ c && c != ch '"' && c != ch '\\'

/-- A byte is printed as itself, or as a backslash, a letter and plain bytes. -/
lemma escapeByte_cases (c : UInt8) :
    (escapeByte c = [c] ∧ isPlain c = true) ∨
      ∃ e rest, escapeByte c = ch '\\' :: e :: rest ∧ ∀ b ∈ rest, isPlain b = true := by
  unfold escapeByte
  split_ifs with h1 h2 h3 h4 h5 h6 h7 h8
  iterate 7 exact .inr ⟨_, [], rfl, by simp⟩
  · exact .inl ⟨rfl, by simp_all [isPlain]⟩
  · refine .inr ⟨ch 'u', hex4 false c.toNat, rfl, ?_⟩
    have key : ∀ d < 16, isPlain (hexByte false d) = true := by decide
    have hd : ∀ n : ℕ, isPlain (hexByte false (n % 16)) = true := fun n =>
      key _ (Nat.mod_lt n (by decide))
    simp [hex4, hd]

/-- One round of `json_string_unescape()` undoes one byte of `json_serialize_string()`. -/
lemma unescapeLoop_escapeByte {c : UInt8} (hc : c ≠ 0) (fuel : ℕ) (out rest : List UInt8) :
    unescapeLoop (fuel + 1) out (escapeByte c ++ rest) = unescapeLoop fuel (out ++ [c]) rest := by
  unfold escapeByte
  split_ifs with h1 h2 h3 h4 h5 h6 h7 h8
  iterate 7 (subst_vars; rfl)
  · simp [unescapeLoop, h1, h2]
  · have key : ∀ n < 32, n ≠ 0 →
        jsonLex4hex (hex4 false n ++ rest) = .ok (n, rest) ∧ utf8Bytes n = [n.toUInt8] := by
      intro n hn h0
      interval_cases n <;> first | exact absurd rfl h0 | exact ⟨rfl, rfl⟩
    have hlt : c.toNat < 32 := by simpa [UInt8.lt_iff_toNat_lt] using h8
    obtain ⟨hhex, hutf⟩ := key c.toNat hlt (fun h0 => hc (UInt8.toNat_inj.1 h0))
    have hlead : ucIsLeadingSurrogate c.toNat = false := by simp [ucIsLeadingSurrogate]; omega
    have hunicode : jsonLexUnicode (hex4 false c.toNat ++ rest) = .ok ([c], rest) := by
      simp [jsonLexUnicode, hhex, bind, Except.bind, hlead, hutf]
    have hu : ascii "\\u" = [ch '\\', ch 'u'] := rfl
    have hq : ch '\\' ≠ ch '"' := by decide
    simp [hu, unescapeLoop, hq, hunicode]

/-- **`json_string_unescape()` inverts the escaping**, with any fuel that covers the string. -/
lemma unescapeLoop_flatMap {cs : List UInt8} (h : 0 ∉ cs) {fuel : ℕ} (hf : cs.length ≤ fuel)
    (out : List UInt8) : unescapeLoop fuel out (cs.flatMap escapeByte) = .ok (out ++ cs) := by
  induction cs generalizing fuel out with
  | nil => cases fuel <;> simp [unescapeLoop]
  | cons c cs ih =>
    simp only [mem_cons, not_or] at h
    cases fuel with
    | zero => simp at hf
    | succ fuel =>
      rw [flatMap_cons, unescapeLoop_escapeByte (Ne.symm h.1),
        ih h.2 (by simpa using hf), append_assoc, singleton_append]

lemma length_le_length_flatMap_escapeByte (cs : List UInt8) :
    cs.length ≤ (cs.flatMap escapeByte).length := by
  induction cs with
  | nil => simp
  | cons c cs ih =>
    have hc : 1 ≤ (escapeByte c).length := by
      rcases escapeByte_cases c with ⟨h, -⟩ | ⟨e, rest, h, -⟩ <;> simp [h]
    simp only [flatMap_cons, length_append, length_cons]
    omega

/-- A string in which nothing was escaped is printed as it is. -/
lemma flatMap_escapeByte_of_no_backslash {cs : List UInt8}
    (h : ch '\\' ∉ cs.flatMap escapeByte) : cs.flatMap escapeByte = cs := by
  induction cs with
  | nil => rfl
  | cons c cs ih =>
    simp only [flatMap_cons, mem_append, not_or] at h ⊢
    rcases escapeByte_cases c with ⟨hc, -⟩ | ⟨e, rest, hc, -⟩
    · rw [hc, ih h.2, singleton_append]
    · exact absurd (by simp [hc]) h.1

/-- **`json_lex_string()` reads back what `json_serialize_string()` prints between the
quotes.** -/
theorem stringToken_escape (s : CString) {raw : CString}
    (hraw : raw.bytes = s.bytes.flatMap escapeByte) : stringToken raw = .ok (.string s) := by
  unfold stringToken
  split
  · have hlen := length_le_length_flatMap_escapeByte s.bytes
    rw [jsonStringUnescape, hraw, unescapeLoop_flatMap s.nul_free hlen]
    simp
  · next hno =>
    rw [hraw] at hno
    rw [CString.ext (hraw.trans (flatMap_escapeByte_of_no_backslash hno))]

end OVS
