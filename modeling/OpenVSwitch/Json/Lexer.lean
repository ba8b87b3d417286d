import OpenVSwitch.Json.Value

/-!
# Reading JSON tokens

The functions of `lib/json.c` that turn the text of one token into its value, with their
error messages:

* `numberToken` is `json_lex_number()`: a significand accumulated in 64 bits, a decimal
  exponent, and the choice between `T_INTEGER` and `T_REAL`;
* `jsonStringUnescape` is `json_string_unescape()`, with `\u` escapes and surrogate pairs;
* `keywordToken` is `json_lex_keyword()`.

The C library's conversions between text and `double` are a parameter, `DoubleFormat`.
-/

namespace OVS

/-- The conversions the C library provides for `double`: `str_to_double()`, which fails on
overflow, and `"%.*g"` with `DBL_DIG` digits. -/
structure DoubleFormat where
  strToDouble : CString → Option Double
  print : Double → CString

/-- `struct json_token`. -/
inductive Token where
  | eof
  | false
  | null
  | true
  | integer (n : BitVec 64)
  | real (r : Double)
  | string (s : CString)
  | lbracket
  | lbrace
  | rbracket
  | rbrace
  | colon
  | comma

/-- `json_lex_keyword()`. -/
def keywordToken (s : CString) : Except (List UInt8) Token :=
  if s.bytes = ascii "false" then .ok .false
  else if s.bytes = ascii "true" then .ok .true
  else if s.bytes = ascii "null" then .ok .null
  else .error (ascii "invalid keyword '" ++ s.bytes ++ ascii "'")

/-! ## Numbers -/

/-- The variables of `json_lex_number()`. -/
structure NumberState where
  significand : BitVec 64 := 0
  pow10 : ℤ := 0
  imprecise : Bool := Bool.false

/-- `ULLONG_MAX / 10`. -/
def ullongMaxDiv10 : BitVec 64 := BitVec.allOnes 64 / 10

/-- The value of a digit character, in the arithmetic of the significand. -/
def digitValue (c : UInt8) : BitVec 64 := BitVec.ofNat 64 (c.toNat - (ch '0').toNat)

/-- One digit before the decimal point. -/
def integerDigit (s : NumberState) (c : UInt8) : NumberState :=
  if s.significand ≤ ullongMaxDiv10 then
    { s with significand := s.significand * 10 + digitValue c }
  else
    { s with pow10 := s.pow10 + 1, imprecise := s.imprecise || c != ch '0' }

/-- One digit after the decimal point. -/
def fractionDigit (s : NumberState) (c : UInt8) : NumberState :=
  if s.significand ≤ ullongMaxDiv10 then
    { s with significand := s.significand * 10 + digitValue c, pow10 := s.pow10 - 1 }
  else
    { s with imprecise := s.imprecise || c != ch '0' }

/-- A loop that consumes digits and stops at the first other character. -/
def lexDigits {σ : Type} (digit : σ → UInt8 → σ) : σ → List UInt8 → σ × List UInt8
  | s, [] => (s, [])
  | s, c :: cs => if isdigit c then lexDigits digit (digit s c) cs else (s, c :: cs)

/-- The integer digits: at least one, and no leading zero in a longer number. -/
def lexInteger (s : NumberState) (cs : List UInt8) :
    Except (List UInt8) (NumberState × List UInt8) :=
  match cs with
  | [] => .error (ascii "'-' must be followed by digit")
  | c :: rest =>
    if c = ch '0' then
      match rest with
      | d :: _ => if isdigit d then .error (ascii "leading zeros not allowed") else .ok (s, rest)
      | [] => .ok (s, rest)
    else if isdigit c then .ok (lexDigits integerDigit s cs)
    else .error (ascii "'-' must be followed by digit")

/-- The optional fraction. -/
def lexFraction (s : NumberState) (cs : List UInt8) :
    Except (List UInt8) (NumberState × List UInt8) :=
  match cs with
  | [] => .ok (s, cs)
  | c :: rest =>
    if c = ch '.' then
      match rest with
      | d :: _ =>
        if isdigit d then .ok (lexDigits fractionDigit s rest)
        else .error (ascii "decimal point must be followed by digit")
      | [] => .error (ascii "decimal point must be followed by digit")
    else .ok (s, cs)

/-- The digits of an exponent; `INT_MAX / 10` bounds what may be multiplied. -/
def lexExponentDigits : ℕ → List UInt8 → Except (List UInt8) (ℕ × List UInt8)
  | e, [] => .ok (e, [])
  | e, c :: cs =>
    if isdigit c then
      if e ≥ (2 ^ 31 - 1) / 10 then .error (ascii "exponent outside valid range")
      else lexExponentDigits (e * 10 + (c.toNat - (ch '0').toNat)) cs
    else .ok (e, c :: cs)

/-- The sign of an exponent: whether it is negative, and what follows it. -/
def lexExponentSign (cs : List UInt8) : Bool × List UInt8 :=
  match cs with
  | [] => (Bool.false, [])
  | c :: rest =>
    if c = ch '+' then (Bool.false, rest)
    else if c = ch '-' then (Bool.true, rest)
    else (Bool.false, cs)

/-- The optional exponent. -/
def lexExponent (s : NumberState) (cs : List UInt8) :
    Except (List UInt8) (NumberState × List UInt8) :=
  match cs with
  | [] => .ok (s, cs)
  | c :: rest =>
    if c = ch 'e' ∨ c = ch 'E' then
      let (negative, digits) := lexExponentSign rest
      match digits with
      | [] => .error (ascii "exponent must contain at least one digit")
      | d :: _ =>
        if isdigit d then do
          let (e, cs) ← lexExponentDigits 0 digits
          .ok ({ s with pow10 := if negative then s.pow10 - e else s.pow10 + e }, cs)
        else .error (ascii "exponent must contain at least one digit")
    else .ok (s, cs)

/-- `while (pow10 > 0 && significand < ULLONG_MAX / 10)`: the exponent left and the
significand. -/
def scaleUp : ℕ → BitVec 64 → ℕ × BitVec 64
  | 0, significand => (0, significand)
  | pow10 + 1, significand =>
    if significand < ullongMaxDiv10 then scaleUp pow10 (significand * 10)
    else (pow10 + 1, significand)

/-- `while (pow10 < 0 && significand % 10 == 0)`, on the negated exponent. -/
def scaleDown : ℕ → BitVec 64 → ℕ × BitVec 64
  | 0, significand => (0, significand)
  | pow10 + 1, significand =>
    if significand % 10 = 0 then scaleDown pow10 (significand / 10)
    else (pow10 + 1, significand)

/-- The integer that a precise number denotes, if it fits into a `long long int`. -/
def integerToken (negative : Bool) (s : NumberState) : Option Token :=
  if s.imprecise then none
  else
    let (pow10, significand) :=
      if s.pow10 > 0 then scaleUp s.pow10.toNat s.significand
      else scaleDown (-s.pow10).toNat s.significand
    if pow10 = 0 ∧ significand.toNat ≤ (if negative then 2 ^ 63 else 2 ^ 63 - 1) then
      some (.integer (if negative then -significand else significand))
    else none

/-- The leading minus sign: whether there is one, and what follows it. -/
def lexSign (cs : List UInt8) : Bool × List UInt8 :=
  match cs with
  | [] => (Bool.false, [])
  | c :: rest => if c = ch '-' then (Bool.true, rest) else (Bool.false, cs)

/-- `json_lex_number()`. -/
def numberToken (D : DoubleFormat) (buffer : CString) : Except (List UInt8) Token := do
  let (negative, cp) := lexSign buffer.bytes
  let (s, cp) ← lexInteger {} cp
  let (s, cp) ← lexFraction s cp
  let (s, cp) ← lexExponent s cp
  if cp ≠ [] then .error (ascii "syntax error in number")
  -- Negative zeros are suppressed as a matter of policy.
  else if s.significand = 0 then .ok (.integer 0)
  else
    match integerToken negative s with
    | some token => .ok token
    | none =>
      match D.strToDouble buffer with
      | none => .error (ascii "number outside valid range")
      | some r => .ok (.real (if r.eq Double.zero then Double.zero else r))

/-! ## Quoted strings -/

def hexitValue (c : UInt8) : Option ℕ :=
  if isdigit c then some (c.toNat - (ch '0').toNat)
  else if ch 'a' ≤ c ∧ c ≤ ch 'f' then some (c.toNat - (ch 'a').toNat + 10)
  else if ch 'A' ≤ c ∧ c ≤ ch 'F' then some (c.toNat - (ch 'A').toNat + 10)
  else none

/-- `hexits_value()` on the first four characters. -/
def hexitsValue (a b c d : UInt8) : Option ℕ := do
  let a ← hexitValue a
  let b ← hexitValue b
  let c ← hexitValue c
  let d ← hexitValue d
  some (((a * 16 + b) * 16 + c) * 16 + d)

/-- `json_lex_4hex()`: the value of four hexadecimal digits and what follows them. -/
def jsonLex4hex (cp : List UInt8) : Except (List UInt8) (ℕ × List UInt8) :=
  match cp with
  | a :: b :: c :: d :: rest =>
    match hexitsValue a b c d with
    | none => .error (ascii "malformed \\u escape")
    | some 0 => .error (ascii "null bytes not supported in quoted strings")
    | some value => .ok (value, rest)
  | _ => .error (ascii "quoted string ends within \\u escape")

def ucIsLeadingSurrogate (c : ℕ) : Bool := 0xd800 ≤ c && c ≤ 0xdbff

def ucIsTrailingSurrogate (c : ℕ) : Bool := 0xdc00 ≤ c && c ≤ 0xdfff

def utf16DecodeSurrogatePair (leading trailing : ℕ) : ℕ :=
  let w := (leading >>> 6) &&& 0xf
  let u := w + 1
  let x0 := leading &&& 0x3f
  let x1 := trailing &&& 0x3ff
  (u <<< 16) ||| (x0 <<< 10) ||| x1

/-- `ds_put_utf8()`: the bytes it appends. -/
def utf8Bytes (uc : ℕ) : List UInt8 :=
  if uc ≤ 0x7f then [uc.toUInt8]
  else if uc ≤ 0x7ff then
    [(0xc0 ||| (uc >>> 6)).toUInt8, (0x80 ||| (uc &&& 0x3f)).toUInt8]
  else if uc ≤ 0xffff then
    [(0xe0 ||| (uc >>> 12)).toUInt8, (0x80 ||| ((uc >>> 6) &&& 0x3f)).toUInt8,
      (0x80 ||| (uc &&& 0x3f)).toUInt8]
  else if uc ≤ 0x10ffff then
    [(0xf0 ||| (uc >>> 18)).toUInt8, (0x80 ||| ((uc >>> 12) &&& 0x3f)).toUInt8,
      (0x80 ||| ((uc >>> 6) &&& 0x3f)).toUInt8, (0x80 ||| (uc &&& 0x3f)).toUInt8]
  else
    -- the encoding of U+FFFD, the replacement character
    [0xef, 0xbf, 0xbd]

/-- `json_lex_unicode()`: the bytes of the character and what follows its escape. -/
def jsonLexUnicode (cp : List UInt8) : Except (List UInt8) (List UInt8 × List UInt8) := do
  let (c0, cp) ← jsonLex4hex cp
  if ucIsLeadingSurrogate c0 then
    match cp with
    | a :: b :: cp =>
      if a = ch '\\' ∧ b = ch 'u' then
        let (c1, cp) ← jsonLex4hex cp
        if ucIsTrailingSurrogate c1 then .ok (utf8Bytes (utf16DecodeSurrogatePair c0 c1), cp)
        else .error (ascii
          "second half of escaped surrogate pair is not trailing surrogate")
      else .error (ascii "malformed escaped surrogate pair")
    | _ => .error (ascii "malformed escaped surrogate pair")
  else .ok (utf8Bytes c0, cp)

/-- The one-character escapes other than `\u`. -/
def simpleEscape (c : UInt8) : Option UInt8 :=
  if c = ch '"' ∨ c = ch '\\' ∨ c = ch '/' then some c
  else if c = ch 'b' then some 8
  else if c = ch 'f' then some 12
  else if c = ch 'n' then some 10
  else if c = ch 'r' then some 13
  else if c = ch 't' then some 9
  else none

/-- The loop of `json_string_unescape()`.  Every round consumes a character, so the length of
the input is enough fuel. -/
def unescapeLoop : ℕ → List UInt8 → List UInt8 → Except (List UInt8) (List UInt8)
  | _, out, [] => .ok out
  | 0, out, _ :: _ => .error out
  | fuel + 1, out, c :: rest =>
    if c = ch '"' then .error (ascii "quoted string may not include unescaped \"")
    else if c ≠ ch '\\' then unescapeLoop fuel (out ++ [c]) rest
    else
      match rest with
      | [] => .error (out ++ ascii "quoted string may not end with backslash")
      | e :: rest =>
        if e = ch 'u' then
          match jsonLexUnicode rest with
          | .error msg => .error msg
          | .ok (bytes, rest) => unescapeLoop fuel (out ++ bytes) rest
        else
          match simpleEscape e with
          | some b => unescapeLoop fuel (out ++ [b]) rest
          | none => .error (ascii "bad escape \\" ++ [e])

def jsonStringUnescape (s : List UInt8) : Except (List UInt8) (List UInt8) :=
  unescapeLoop s.length [] s

/-- `json_lex_string()`: the token of the text between two quotes. -/
def stringToken (raw : CString) : Except (List UInt8) Token :=
  if ch '\\' ∈ raw.bytes then
    match jsonStringUnescape raw.bytes with
    | .ok cooked => .ok (.string (CString.ofBytes cooked))
    | .error msg => .error msg
  else .ok (.string raw)

end OVS
