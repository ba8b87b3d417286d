import OpenVSwitch.Json.Parser
import OpenVSwitch.Json.Tokens

/-!
# Serialized JSON parses back

**The round trip.**  `jsonFromString_jsonToString`: for every array or object without
`JSON_REAL` that nests at most `JSON_MAX_HEIGHT` deep, and for every combination of the
serializer's flags, parsing the text gives a value that is `json_equal()` to the original.

The proof relates the serializer's recursion to the parser's stack.  A parser *between tokens*
is written `idle`: only its position, its parse state, its stack and its member name are left to
say.  A `Slot` is a place where the state machine expects a value, and `readsValue` says that
the text of a value, read in a slot, leaves the parser with the value put there.  Numbers and
keywords end only at the next character, so the statement keeps that character, the `d` of
`isDelimiter d`, unread.
-/

namespace OVS

open List CString

variable {ps : ParseState} {elems : List Json} {members : List (CString × Json)} {flags : JsonFlags}

namespace JsonParser

variable (D : DoubleFormat)

variable {p : JsonParser} {c : UInt8} {t u : List UInt8}

lemma feed_append (cs ds : List UInt8) : p.feed D (cs ++ ds) = (p.feed D cs).feed D ds := by
  induction cs generalizing p with
  | nil => rfl
  | cons c cs ih =>
    cases h : p.done with
    | true => cases ds <;> simp [feed, h]
    | false => simp only [cons_append, feed, h, Bool.false_eq_true, if_false, ih]

/-- Between tokens the lexer consumes whatever it is offered. -/
lemma lexInput_start_consumes (h : p.lexState = .start) (c : UInt8) :
    p.lexInput D c = (p.lexStart c, true) := by
  simp [lexInput, h]

lemma feed_cons_start (hd : p.done = false) (hs : p.lexState = .start) (c : UInt8) (cs : List UInt8)
    : p.feed D (c :: cs) = ((p.lexStart c).advance c).feed D cs := by
  simp [feed, hd, feedByte, lexInput_start_consumes D hs]

/-- A consumed character. -/
lemma feed_cons_consumed {q : JsonParser} (hd : p.done = false) (h : p.lexInput D c = (q, true))
    (cs : List UInt8) : p.feed D (c :: cs) = (q.advance c).feed D cs := by
  simp [feed, hd, feedByte, h]

/-! ## Parsers between tokens -/

/-- The parser inside a token: the lexer's state, what has accumulated, and the position. -/
def inToken (p : JsonParser) (l : LexState) (b : List UInt8) (pos : Position) : JsonParser :=
  { p with lexState := l, buffer := b, pos := pos }

/-- The parser between two tokens. -/
def between (p : JsonParser) (pos : Position) : JsonParser := p.inToken .start [] pos

/-- Reading `text` takes the parser, between tokens, from `p` to `q`. -/
def Reads (p : JsonParser) (text : List UInt8) (q : JsonParser) : Prop :=
  ∀ pos, ∃ pos', (p.between pos).feed D text = q.between pos'

/-- The characters that can follow a value. -/
def isDelimiter (d : UInt8) : Prop := d = ch ',' ∨ d = ch ']' ∨ d = ch '\x7d'

/-- Reading `text` with a delimiter behind it takes the parser from `p` to `q`, from where the
delimiter is still to be read. -/
def ReadsBefore (p : JsonParser) (text : List UInt8) (q : JsonParser) : Prop :=
  ∀ d, isDelimiter d → ∀ pos, ∃ pos',
    (p.between pos).feed D (text ++ [d]) = (q.between pos').feed D [d]

/-- Inside any token, `token` takes the state machine from `p` to `q`. -/
def Accepts (p : JsonParser) (token : Token) (q : JsonParser) : Prop :=
  ∀ l b pos, (p.inToken l b pos).input token = q.between pos

variable {D} {p q r : JsonParser} {v : Json}

lemma Reads.nil : Reads D p [] p := fun pos => ⟨pos, rfl⟩

lemma Reads.append (h : Reads D p t q) (h' : Reads D q u r) : Reads D p (t ++ u) r := by
  intro pos
  obtain ⟨pos', h⟩ := h pos
  obtain ⟨pos'', h'⟩ := h' pos'
  exact ⟨pos'', by rw [feed_append, h, h']⟩

lemma Reads.cons (h : Reads D p [c] q) (h' : Reads D q u r) : Reads D p (c :: u) r :=
  h.append h'

lemma Reads.before (h : Reads D p t q) : ReadsBefore D p t q := by
  intro d _ pos
  obtain ⟨pos', h⟩ := h pos
  exact ⟨pos', by rw [feed_append, h]⟩

lemma ReadsBefore.append {d : UInt8} (h : ReadsBefore D p t q) (hd : isDelimiter d)
    (h' : Reads D q (d :: u) r) : Reads D p (t ++ d :: u) r := by
  intro pos
  obtain ⟨pos', h⟩ := h d hd pos
  obtain ⟨pos'', h'⟩ := h' pos'
  refine ⟨pos'', ?_⟩
  rw [append_cons, feed_append, h, ← feed_append]
  exact h'

lemma Reads.appendBefore (h : Reads D p t q) (h' : ReadsBefore D q u r) :
    ReadsBefore D p (t ++ u) r := by
  intro d hd pos
  obtain ⟨pos', h⟩ := h pos
  obtain ⟨pos'', h'⟩ := h' d hd pos'
  exact ⟨pos'', by rw [append_assoc, feed_append, h, h']⟩

section

variable (hd : p.done = false)
include hd

/-- A character that the lexer, between tokens, answers with the parser `q`. -/
lemma Reads.single (h : ∀ pos, (p.between pos).lexStart c = q.between pos) : Reads D p [c] q := by
  intro pos
  refine ⟨((q.between pos).advance c).pos, ?_⟩
  rw [feed_cons_start D (p := p.between pos) hd rfl, h]
  rfl

/-- A token of one character. -/
lemma Reads.punctuation {token : Token}
    (hspace : ¬ (c = ch ' ' ∨ c = ch '\t' ∨ c = ch '\n' ∨ c = ch '\r'))
    (hletter : ¬ (ch 'a' ≤ c ∧ c ≤ ch 'z')) (hc : JsonParser.punctuation c = some token)
    (h : Accepts p token q) : Reads D p [c] q := by
  refine Reads.single hd fun pos => ?_
  simp only [lexStart, hspace, hletter, hc]
  exact h .start [] pos

/-- Whitespace between tokens. -/
lemma Reads.space (hc : c = ch ' ' ∨ c = ch '\n') : Reads D p [c] p := by
  refine Reads.single hd fun pos => ?_
  rcases hc with rfl | rfl <;> simp [lexStart]

lemma Reads.indentLine (flags : JsonFlags) (depth : ℕ) : Reads D p (indentLine flags depth) p := by
  have hspaces : ∀ n, Reads D p (replicate n (ch ' ')) p := by
    intro n
    induction n with
    | zero => exact Reads.nil
    | succ n ih => exact (Reads.space hd (.inl rfl)).cons ih
  unfold OVS.indentLine
  split
  · exact (Reads.space hd (.inr rfl)).cons (hspaces _)
  · exact Reads.nil

/-! ## Tokens of several characters -/

/-- In the state `l` the lexer adds `c` to the buffer and stays in the state. -/
def Accumulates (D : DoubleFormat) (l : LexState) (c : UInt8) : Prop :=
  ∀ (p : JsonParser) b pos, (p.inToken l b pos).lexInput D c = (p.inToken l (b ++ [c]) pos, true)

omit hd in
lemma feed_accumulate {l : LexState} {w : List UInt8} (h : ∀ c ∈ w, Accumulates D l c)
    (hd : p.done = false) (b : List UInt8) (pos : Position) :
    ∃ pos', (p.inToken l b pos).feed D w = p.inToken l (b ++ w) pos' := by
  induction w generalizing b pos with
  | nil => exact ⟨pos, by simp [feed]⟩
  | cons c w ih =>
    obtain ⟨pos', ih⟩ := ih (fun c hc => h c (by simp [hc])) (b ++ [c])
      ((p.inToken l (b ++ [c]) pos).advance c).pos
    refine ⟨pos', ?_⟩
    rw [feed_cons_consumed D (p := p.inToken l b pos) hd (h c (by simp) p b pos)]
    exact ih.trans (by simp)

/-- A number or a keyword, read up to the delimiter that ends it: its first character puts the
lexer into the state `l`, the others accumulate, and the delimiter turns the buffer into a
token. -/
lemma ReadsBefore.accumulated {l : LexState} {w : List UInt8}
    {token : CString → Except (List UInt8) Token} {t : Token} (hq : q.done = false)
    (hstart : ∀ pos, (p.between pos).lexStart c = p.inToken l [c] pos)
    (hw : ∀ c ∈ w, Accumulates D l c)
    (hend : ∀ d, isDelimiter d → ∀ b pos, (p.inToken l b pos).lexInput D d =
      ((p.inToken l b pos).inputOrError (token (ofBytes b)), false))
    (htoken : token (ofBytes (c :: w)) = .ok t) (hinput : Accepts p t q) :
    ReadsBefore D p (c :: w) q := by
  intro d hdelim pos
  obtain ⟨pos', hacc⟩ := feed_accumulate hw hd [c] ((p.inToken l [c] pos).advance c).pos
  refine ⟨pos', ?_⟩
  rw [cons_append, feed_cons_start D (p := p.between pos) hd rfl, hstart, feed_append]
  refine (congrArg (feed D · [d]) hacc).trans ?_
  -- the character ends the token, and is then read between tokens
  have hlex : (p.inToken l ([c] ++ w) pos').lexInput D d = (q.between pos', false) := by
    rw [hend d hdelim, singleton_append, htoken]
    exact congrArg (·, false) (hinput l _ pos')
  have hdone : (p.inToken l ([c] ++ w) pos').done = false := hd
  have hdone' : (q.between pos').done = false := hq
  generalize p.inToken l ([c] ++ w) pos' = p' at hlex hdone ⊢
  simp [feed, hdone, feedByte, hlex, hdone', lexInput_start_consumes D (p := q.between pos') rfl]

end

lemma accumulates_of_isPlain (hc : isPlain c = true) : Accumulates D .string c := by
  intro p b pos
  simp only [isPlain, Bool.and_eq_true, decide_eq_true_eq, bne_iff_ne] at hc
  simp [lexInput, inToken, hc.1.2, hc.2, UInt8.not_lt.2 hc.1.1, putChar]

/-- Inside a quoted string, the text of one byte accumulates in the buffer. -/
lemma feed_escapeByte (c : UInt8) (hd : p.done = false) (b : List UInt8) (pos : Position) :
    ∃ pos', (p.inToken .string b pos).feed D (escapeByte c) =
      p.inToken .string (b ++ escapeByte c) pos' := by
  rcases escapeByte_cases c with ⟨hc, hplain⟩ | ⟨e, rest, hc, hplain⟩
  · rw [hc]
    exact feed_accumulate (by simpa using accumulates_of_isPlain hplain) hd b pos
  · -- a backslash, the character behind it, and the digits of a `\u` escape
    have hesc : (p.inToken .string b pos).lexInput D (ch '\\') =
        (p.inToken .escape (b ++ [ch '\\']) pos, true) := by
      simp [lexInput, inToken, putChar]
    let pos1 := ((p.inToken .escape (b ++ [ch '\\']) pos).advance (ch '\\')).pos
    have hletter : (p.inToken .escape (b ++ [ch '\\']) pos1).lexInput D e =
        (p.inToken .string (b ++ [ch '\\'] ++ [e]) pos1, true) := by
      simp [lexInput, inToken, putChar]
    let pos2 := ((p.inToken .string (b ++ [ch '\\'] ++ [e]) pos1).advance e).pos
    obtain ⟨pos', hrest⟩ := feed_accumulate
      (fun b hb => accumulates_of_isPlain (hplain b hb)) hd (b ++ [ch '\\'] ++ [e]) pos2
    refine ⟨pos', ?_⟩
    rw [hc, feed_cons_consumed D (p := p.inToken .string b pos) hd hesc]
    refine (feed_cons_consumed D (p := p.inToken .escape (b ++ [ch '\\']) pos1) hd hletter
      rest).trans (hrest.trans ?_)
    simp

lemma feed_string_body (cs : List UInt8) (hd : p.done = false) (b : List UInt8)
    (pos : Position) : ∃ pos', (p.inToken .string b pos).feed D (cs.flatMap escapeByte) =
      p.inToken .string (b ++ cs.flatMap escapeByte) pos' := by
  induction cs generalizing b pos with
  | nil => exact ⟨pos, by simp [feed]⟩
  | cons c cs ih =>
    obtain ⟨pos1, hbyte⟩ := feed_escapeByte (D := D) c hd b pos
    obtain ⟨pos2, ih⟩ := ih (b ++ escapeByte c) pos1
    exact ⟨pos2, by simp [feed_append, hbyte, ih]⟩

/-- **A quoted string is one token.** -/
lemma Reads.string (s : CString) (hd : p.done = false) (h : Accepts p (.string s) q) :
    Reads D p (serializeString s) q := by
  intro pos
  let raw := s.bytes.flatMap escapeByte
  have hraw : 0 ∉ raw := by
    simp only [raw, mem_flatMap, not_exists, not_and]
    exact fun c hc => escapeByte_nul_free fun h0 => s.nul_free (h0 ▸ hc)
  have htoken : stringToken (ofBytes raw) = .ok (.string s) :=
    stringToken_escape s (ofBytes_bytes_of_nul_free hraw)
  let pos1 := ((p.inToken .string [] pos).advance (ch '"')).pos
  obtain ⟨pos2, hbody⟩ := feed_string_body s.bytes hd [] pos1
  have hclose : (p.inToken .string raw pos2).lexInput D (ch '"') = (q.between pos2, true) := by
    rw [← h .string raw pos2]
    have hne : ch '"' ≠ ch '\\' := by decide
    simp [lexInput, inToken, hne, htoken, inputOrError]
  refine ⟨((q.between pos2).advance (ch '"')).pos, ?_⟩
  rw [serializeString, feed_cons_start D (p := p.between pos) hd rfl, feed_append]
  refine (congrArg (feed D · [ch '"']) hbody).trans ?_
  rw [nil_append, feed_cons_consumed D (p := p.inToken .string raw pos2) hd hclose]
  rfl

/-! ## Places for a value -/

/-- The parser of `json_from_string()`, with the parts that the state machine uses. -/
def idle (ps : ParseState) (stack : List ParserNode) (name : Option CString) : JsonParser :=
  { trailer := true, parseState := ps, stack := stack, memberName := name }

/-- A place where the state machine expects a value: behind the elements of an array, of which
there may be none yet, or under a name in an object. -/
inductive Slot where
  | array (first : Bool) (elems : List Json)
  | object (members : List (CString × Json)) (name : CString)

namespace Slot

/-- The parse state of the place. -/
def state : Slot → ParseState
  | .array first _ => if first then .arrayInit else .arrayValue
  | .object _ _ => .objectValue

/-- The array or object that the value will belong to. -/
def json : Slot → Json
  | .array _ elems => .array elems
  | .object members _ => .object members

/-- The member name of the place. -/
def name : Slot → Option CString
  | .array _ _ => none
  | .object _ name => some name

/-- The parse state behind the value. -/
def next : Slot → ParseState
  | .array _ _ => .arrayNext
  | .object _ _ => .objectNext

/-- The array or object with the value. -/
def put (s : Slot) (v : Json) : Json :=
  match s with
  | .array _ elems => .array (elems ++ [v])
  | .object members name => .object (shashReplace members name v)

/-- The parser in front of the value; `up` is the name under which the array or object hangs. -/
def before (s : Slot) (up : Option CString) (rest : List ParserNode) : JsonParser :=
  idle s.state (⟨s.json, up⟩ :: rest) s.name

/-- The parser behind the value. -/
def after (s : Slot) (v : Json) (up : Option CString) (rest : List ParserNode) : JsonParser :=
  idle s.next (⟨s.put v, up⟩ :: rest) none

end Slot

/-- The value of a token that is a value by itself. -/
def scalarOf : Token → Option Json
  | .false => some .false
  | .null => some .null
  | .true => some .true
  | .integer n => some (.integer n)
  | .real r => some (.real r)
  | .string s => some (.string s)
  | _ => none

lemma accepts_scalar (s : Slot) (up : Option CString) (rest : List ParserNode) {token : Token}
    (h : scalarOf token = some v) : Accepts (s.before up rest) token (s.after v up rest) := by
  intro l b pos
  cases s with
  | array first elems =>
    cases first <;> cases token <;> simp only [scalarOf, Option.some.injEq, reduceCtorEq] at h <;>
      subst h <;> rfl
  | object members name =>
    cases token <;> simp only [scalarOf, Option.some.injEq, reduceCtorEq] at h <;> subst h <;> rfl

/-- An opening bracket or brace in a place for a value. -/
lemma accepts_open (s : Slot) (up : Option CString) (rest : List ParserNode)
    (h : rest.length + 1 < jsonMaxHeight) :
    Accepts (s.before up rest) .lbracket
        (idle .arrayInit (⟨.array [], s.name⟩ :: ⟨s.json, up⟩ :: rest) none) ∧
      Accepts (s.before up rest) .lbrace
        (idle .objectInit (⟨.object [], s.name⟩ :: ⟨s.json, up⟩ :: rest) none) := by
  have hpush : ∀ v ps l b pos, ((s.before up rest).inToken l b pos).push v ps =
      (idle ps (⟨v, s.name⟩ :: ⟨s.json, up⟩ :: rest) none).inToken l b pos :=
    fun v ps l b pos => if_pos (by simpa [Slot.before, inToken, idle] using h)
  have hpush' := fun v ps l b pos => congrArg endToken (hpush v ps l b pos)
  cases s with
  | array first elems =>
    cases first <;>
      exact ⟨hpush' (.array []) .arrayInit, hpush' (.object []) .objectInit⟩
  | object members name =>
    exact ⟨hpush' (.array []) .arrayInit, hpush' (.object []) .objectInit⟩

end JsonParser

/-! ## What is read back -/

mutual

/-- The value that the text denotes: the members of every object in the order in which they are
printed. -/
def reorder (flags : JsonFlags) : Json → Json
  | .object members => .object (visitOrder flags (reorderObject flags members))
  | .array elems => .array (reorderArray flags elems)
  | j => j

/-- `reorder` for the data of an object. -/
def reorderObject (flags : JsonFlags) : List (CString × Json) → List (CString × Json)
  | [] => []
  | (name, data) :: rest => (name, reorder flags data) :: reorderObject flags rest

/-- `reorder` for the elements of an array. -/
def reorderArray (flags : JsonFlags) : List Json → List Json
  | [] => []
  | elem :: rest => reorder flags elem :: reorderArray flags rest

end

@[simp] lemma reorderObject_eq_map :
    reorderObject flags members = members.map fun m => (m.1, reorder flags m.2) := by
  induction members with
  | nil => rfl
  | cons m rest ih => simp [reorderObject, ih]

@[simp] lemma reorderArray_eq_map : reorderArray flags elems = elems.map (reorder flags) := by
  induction elems with
  | nil => rfl
  | cons e rest ih => simp [reorderArray, ih]

namespace Json

lemma equalArray_map {f : Json → Json} (h : ∀ e ∈ elems, equal (f e) e = Bool.true) :
    equalArray (elems.map f) elems = Bool.true := by
  induction elems with
  | nil => rfl
  | cons e rest ih =>
    simp only [map_cons, equalArray, Bool.and_eq_true]
    exact ⟨h e (by simp), ih fun e he => h e (by simp [he])⟩

lemma equalObject_of_forall {a b : List (CString × Json)}
    (h : ∀ m ∈ a, ∃ data, shashFind b m.1 = some data ∧ equal m.2 data = Bool.true) :
    equalObject a b = Bool.true := by
  induction a with
  | nil => rfl
  | cons m rest ih =>
    obtain ⟨data, hfind, heq⟩ := h m (by simp)
    simp only [equalObject, hfind, heq]
    exact ih fun m hm => h m (by simp [hm])

/-- **Reordering the members of objects keeps a value `json_equal()` to itself**, provided their
names are distinct. -/
theorem equal_reorder (flags : JsonFlags) (j : Json) (hd : j.distinct = Bool.true)
    (hr : j.realFree = Bool.true) : equal (reorder flags j) j = Bool.true := by
  induction j using Json.induction with
  | scalar j hj => cases j <;> simp_all [isContainer, reorder, equal, realFree]
  | array elems ih =>
    simp only [distinct, distinctArray_iff, realFree, realFreeArray_iff] at hd hr
    rw [reorder, reorderArray_eq_map]
    exact equalArray_map fun e he => ih e he (hd e he) (hr e he)
  | object members ih =>
    simp only [distinct, Bool.and_eq_true, decide_eq_true_eq, distinctObject_iff, realFree,
      realFreeObject_iff] at hd hr
    simp only [reorder, reorderObject_eq_map, equal, Bool.and_eq_true, beq_iff_eq]
    refine ⟨by rw [(visitOrder_perm _ _).length_eq, length_map],
      equalObject_of_forall fun m hm => ?_⟩
    obtain ⟨m', hm', rfl⟩ := mem_map.1 ((visitOrder_perm _ _).mem_iff.1 hm)
    exact ⟨m'.2, shashFind_of_mem hd.1 hm', ih m' hm' (hd.2 m' hm') (hr m' hm')⟩

end Json

namespace JsonParser

variable {D : DoubleFormat} {flags : JsonFlags}

/-! ## Values -/

/-- A keyword in a place for a value. -/
lemma reads_keyword (s : Slot) (up : Option CString) (rest : List ParserNode) {j : Json}
    (h : j = .null ∨ j = .false ∨ j = .true) (depth : ℕ) :
    ReadsBefore D (s.before up rest) (serialize D flags depth j) (s.after j up rest) := by
  have key : ∀ (c : UInt8) (w : List UInt8) (t : Token),
      (c :: w).all (fun b => decide (ch 'a' ≤ b ∧ b ≤ ch 'z')) = true →
      (c ≠ ch ' ' ∧ c ≠ ch '\t' ∧ c ≠ ch '\n' ∧ c ≠ ch '\r') →
      keywordToken (ofBytes (c :: w)) = .ok t → scalarOf t = some j →
      ReadsBefore D (s.before up rest) (c :: w) (s.after j up rest) := by
    intro c w t hall hspace htoken hv
    have hletters : ∀ b ∈ c :: w, ch 'a' ≤ b ∧ b ≤ ch 'z' := fun b hb =>
      of_decide_eq_true (all_eq_true.1 hall b hb)
    refine ReadsBefore.accumulated (l := .keyword) rfl rfl (fun pos => ?_)
      (fun b hb p buf pos => ?_) (fun d hd buf pos => ?_) htoken (accepts_scalar s up rest hv)
    · simp [lexStart, hspace, hletters c (by simp), putChar, between, inToken]
    · have hb := hletters b (by simp [hb])
      simp [lexInput, inToken, isalpha, hb.1, hb.2, putChar]
    · rcases hd with rfl | rfl | rfl <;> rfl
  rcases h with rfl | rfl | rfl
  · exact key (ch 'n') (ascii "ull") .null (by decide) (by decide) rfl rfl
  · exact key (ch 'f') (ascii "alse") .false (by decide) (by decide) rfl rfl
  · exact key (ch 't') (ascii "rue") .true (by decide) (by decide) rfl rfl

/-- An integer in a place for a value. -/
lemma reads_integer (s : Slot) (up : Option CString) (rest : List ParserNode) (n : BitVec 64)
    (depth : ℕ) : ReadsBefore D (s.before up rest) (serialize D flags depth (.integer n))
      (s.after (.integer n) up rest) := by
  obtain ⟨c, w, hcw, hc, hw⟩ := decimalInt_cons n.toInt
  have hnul : 0 ∉ c :: w := by
    have h0 : isdigit 0 = false := rfl
    rw [mem_cons, not_or]
    refine ⟨?_, fun h => absurd (hw 0 h) (by simp [h0])⟩
    rintro rfl
    exact hc.elim (by decide) (by simp [h0])
  have htoken : numberToken D (ofBytes (c :: w)) = .ok (.integer n) :=
    numberToken_decimalInt D n (by rw [ofBytes_bytes_of_nul_free hnul, hcw])
  rw [serialize, hcw]
  refine ReadsBefore.accumulated (l := .number) rfl rfl (fun pos => ?_) (fun b hb p buf pos => ?_)
    (fun d hd buf pos => ?_) htoken (accepts_scalar s up rest rfl)
  · rcases hc with rfl | hc
    · rfl
    · obtain ⟨d, hd, rfl⟩ := exists_digitByte_of_isdigit hc
      interval_cases d <;> rfl
  · obtain ⟨d, hd, rfl⟩ := exists_digitByte_of_isdigit (hw b hb)
    interval_cases d <;> rfl
  · rcases hd with rfl | rfl | rfl <;> rfl

/-- The text of `v` is read back in every place that leaves room for its height. -/
def ReadsValue (D : DoubleFormat) (flags : JsonFlags) (v : Json) : Prop :=
  ∀ (s : Slot) up rest depth, rest.length + 1 + v.height ≤ jsonMaxHeight →
    ReadsBefore D (s.before up rest) (serialize D flags depth v) (s.after (reorder flags v) up rest)

variable {p q : JsonParser} {up : Option CString} {rest : List ParserNode}

/-- Items one after another, up to the character that closes them.  The parser is in `f pre`
behind the items `pre` and a comma, and in `g pre` without the comma. -/
lemma Reads.separate {α : Type} {text : α → List UInt8} {f g : List α → JsonParser}
    {items : List α} (depth : ℕ) {d : UInt8} (hd : isDelimiter d)
    (hdone : ∀ pre, (f pre).done = false) (hitem : ∀ pre x post, items = pre ++ x :: post →
      ReadsBefore D (f pre) (text x) (g (pre ++ [x])))
    (hcomma : ∀ pre, pre ≠ [] → Reads D (g pre) [ch ','] (f pre))
    (hempty : items = [] → Reads D (f []) [d] q) (hclose : Reads D (g items) [d] q) :
    Reads D (f []) (OVS.separate flags depth (items.map text) ++ [d]) q := by
  suffices h : ∀ pre x post, items = pre ++ x :: post → Reads D (f pre)
      (OVS.separate flags depth ((x :: post).map text) ++ [d]) q by
    cases items with
    | nil => exact hempty rfl
    | cons x post => exact h [] x post rfl
  intro pre x post h
  induction post generalizing pre x with
  | nil => simpa [OVS.separate] using (hitem pre x [] h).append hd (h ▸ hclose)
  | cons y post ih =>
    have htail := ih (pre ++ [x]) y (by simp [h])
    have hrest := (hcomma (pre ++ [x]) (by simp)).cons
      ((Reads.indentLine (hdone _) flags depth).append htail)
    simpa [OVS.separate] using (hitem pre x _ h).append (.inl rfl) hrest

/-- One member of an object: its name, a colon and its value. -/
lemma reads_member (up : Option CString) {m : CString × Json}
    (hps : ps = .objectInit ∨ ps = .objectName) {acc : List (CString × Json)}
    (hname : m.1 ∉ acc.map Prod.fst) (h : ReadsValue D flags m.2)
    (hheight : rest.length + 1 + m.2.height ≤ jsonMaxHeight) (depth : ℕ) :
    ReadsBefore D (idle ps (⟨.object acc, up⟩ :: rest) none)
      (memberText flags (m.1, serialize D flags depth m.2))
      (idle .objectNext (⟨.object (acc ++ [(m.1, reorder flags m.2)]), up⟩ :: rest) none) := by
  have hstring : Reads D (idle ps (⟨.object acc, up⟩ :: rest) none) (serializeString m.1)
      (idle .objectColon (⟨.object acc, up⟩ :: rest) (some m.1)) :=
    Reads.string m.1 rfl fun _ _ _ => by rcases hps with rfl | rfl <;> rfl
  have hcolon : Reads D (idle .objectColon (⟨.object acc, up⟩ :: rest) (some m.1)) [ch ':']
      ((Slot.object acc m.1).before up rest) :=
    Reads.punctuation rfl (by decide) (by decide) rfl fun _ _ _ => rfl
  have hspace : Reads D ((Slot.object acc m.1).before up rest)
      (if flags.pretty then [ch ' '] else []) ((Slot.object acc m.1).before up rest) := by
    split
    · exact Reads.space rfl (.inl rfl)
    · exact Reads.nil
  have hvalue := h (.object acc m.1) up rest depth hheight
  rw [Slot.after, Slot.put, shashReplace_of_not_mem hname] at hvalue
  exact hstring.appendBefore (hcolon.appendBefore (hspace.appendBefore hvalue))

section Container

variable (depth : ℕ) {v : Json} (hpop : ∀ ps l b pos,
  ((idle ps (⟨v, up⟩ :: rest) none).inToken l b pos).pop = q.inToken l b pos)
include hpop

/-- The text of an array behind its opening bracket. -/
lemma reads_array (hv : v = reorder flags (.array elems))
    (h : ∀ x ∈ elems, ReadsValue D flags x ∧ rest.length + 1 + x.height ≤ jsonMaxHeight) :
    Reads D (idle .arrayInit (⟨.array [], up⟩ :: rest) none)
      ((if elems.isEmpty then [] else indentLine flags (depth + 1)) ++
        (separate flags (depth + 1) (serializeElems D flags (depth + 1) elems) ++ [ch ']'])) q := by
  have hclose : ∀ ps, ps = .arrayInit ∨ ps = .arrayNext →
      Reads D (idle ps (⟨v, up⟩ :: rest) none) [ch ']'] q := by
    refine fun ps hps => Reads.punctuation rfl (by decide) (by decide) rfl fun l b pos => ?_
    rcases hps with rfl | rfl <;> exact congrArg endToken (hpop _ l b pos)
  rw [hv, reorder, reorderArray_eq_map] at hclose
  have hindent : Reads D ((Slot.array true []).before up rest)
      (if elems.isEmpty then [] else indentLine flags (depth + 1))
      ((Slot.array true []).before up rest) := by
    split
    · exact Reads.nil
    · exact Reads.indentLine rfl flags (depth + 1)
  rw [serializeElems_eq_map]
  refine hindent.append (Reads.separate (depth + 1)
    (f := fun pre => (Slot.array pre.isEmpty (pre.map (reorder flags))).before up rest)
    (g := fun pre => idle .arrayNext (⟨.array (pre.map (reorder flags)), up⟩ :: rest) none)
    (.inr (.inl rfl)) (fun _ => rfl) (fun pre x post hx => ?_) (fun pre hpre => ?_) ?_
    (hclose .arrayNext (.inr rfl)))
  · obtain ⟨hread, hheight⟩ := h x (by simp [hx])
    rw [map_append]
    exact hread (.array _ _) up rest _ hheight
  · rw [isEmpty_eq_false_iff.2 hpre]
    exact Reads.punctuation rfl (by decide) (by decide) rfl fun _ _ _ => rfl
  · rintro rfl
    exact hclose .arrayInit (.inl rfl)

/-- The text of an object behind its opening brace. -/
lemma reads_object (hv : v = reorder flags (.object members))
    (hnames : (members.map Prod.fst).Nodup)
    (h : ∀ x ∈ members, ReadsValue D flags x.2 ∧ rest.length + 1 + x.2.height ≤ jsonMaxHeight) :
    Reads D (idle .objectInit (⟨.object [], up⟩ :: rest) none)
      (indentLine flags (depth + 1) ++ (separate flags (depth + 1)
        ((visitOrder flags (serializeNodes D flags (depth + 1) members)).map (memberText flags)) ++
          [ch '\x7d'])) q := by
  have hclose : ∀ ps, ps = .objectInit ∨ ps = .objectNext →
      Reads D (idle ps (⟨v, up⟩ :: rest) none) [ch '\x7d'] q := by
    refine fun ps hps => Reads.punctuation rfl (by decide) (by decide) rfl fun l b pos => ?_
    rcases hps with rfl | rfl <;> exact congrArg endToken (hpop _ l b pos)
  have hperm := visitOrder_perm flags members
  rw [hv, reorder, reorderObject_eq_map, visitOrder_map flags fun m => reorder flags m.2] at hclose
  rw [serializeNodes_eq_map, visitOrder_map flags fun m => serialize D flags (depth + 1) m.2,
    map_map]
  refine (Reads.indentLine rfl flags (depth + 1)).append (Reads.separate (depth + 1)
    (f := fun pre => idle (if pre.isEmpty then .objectInit else .objectName)
      (⟨.object (pre.map fun x => (x.1, reorder flags x.2)), up⟩ :: rest) none)
    (g := fun pre => idle .objectNext
      (⟨.object (pre.map fun x => (x.1, reorder flags x.2)), up⟩ :: rest) none)
    (.inr (.inr rfl)) (fun _ => rfl) (fun pre x post hx => ?_) (fun pre hpre => ?_) (fun hnil => ?_)
    (hclose .objectNext (.inr rfl)))
  · obtain ⟨hread, hheight⟩ := h x (hperm.mem_iff.1 (by simp [hx]))
    have hname := (hperm.map Prod.fst).nodup_iff.2 hnames
    rw [hx, map_append, nodup_append] at hname
    rw [map_append]
    refine reads_member up (by cases pre <;> simp) (fun hmem => ?_) hread hheight (depth + 1)
    exact hname.2.2 _ (by simpa using hmem) x.1 mem_cons_self rfl
  · rw [isEmpty_eq_false_iff.2 hpre]
    exact Reads.punctuation rfl (by decide) (by decide) rfl fun _ _ _ => rfl
  · rw [hnil] at hclose
    exact hclose .objectInit (.inl rfl)

/-- An array or object is read where its opening character is accepted, and then its end. -/
lemma reads_container {j : Json} (hv : v = reorder flags j) (hc : j.isContainer = true)
    (hd : j.distinct = true) (hr : j.realFree = true)
    (ih : ∀ x : Json, x.height < j.height → x.distinct = true → x.realFree = true →
      ReadsValue D flags x) (hheight : rest.length + j.height ≤ jsonMaxHeight)
    (hdone : p.done = false) (hopen : rest.length < jsonMaxHeight →
      Accepts p .lbracket (idle .arrayInit (⟨.array [], up⟩ :: rest) none) ∧
        Accepts p .lbrace (idle .objectInit (⟨.object [], up⟩ :: rest) none)) :
    Reads D p (serialize D flags depth j) q := by
  cases j with
  | array elems =>
    simp only [Json.distinct, Json.distinctArray_iff, Json.realFree, Json.realFreeArray_iff,
      Json.height] at hd hr hheight ih
    refine (Reads.punctuation hdone (by decide) (by decide) rfl (hopen (by omega)).1).cons
      (reads_array depth hpop hv fun x hx => ?_)
    have hle := Json.height_le_heightArray hx
    exact ⟨ih x (by omega) (hd x hx) (hr x hx), by omega⟩
  | object members =>
    simp only [Json.distinct, Bool.and_eq_true, decide_eq_true_eq, Json.distinctObject_iff,
      Json.realFree, Json.realFreeObject_iff, Json.height] at hd hr hheight ih
    refine (Reads.punctuation hdone (by decide) (by decide) rfl (hopen (by omega)).2).cons
      (reads_object depth hpop hv hd.1 fun x hx => ?_)
    have hle := Json.height_le_heightObject hx
    exact ⟨ih x.2 (by omega) (hd.2 x hx) (hr x hx), by omega⟩
  | _ => simp [Json.isContainer] at hc

end Container

/-- **The text of a value is read back in any place for a value**, by induction over its height. -/
theorem readsValue (j : Json) (hd : j.distinct = true) (hr : j.realFree = true) :
    ReadsValue D flags j := by
  induction hn : j.height using Nat.strong_induction_on generalizing j with
  | _ n ih =>
    intro s up rest depth hheight
    cases hc : j.isContainer with
    | true =>
      have hpop : ∀ ps l b pos, ((idle ps (⟨reorder flags j, s.name⟩ :: ⟨s.json, up⟩ :: rest)
          none).inToken l b pos).pop = (s.after (reorder flags j) up rest).inToken l b pos :=
        fun _ _ _ _ => by cases s <;> rfl
      refine (reads_container depth hpop rfl hc hd hr (fun x hx hd hr => ?_) ?_
        rfl (accepts_open s up rest)).before
      · exact ih _ (hn ▸ hx) x hd hr rfl
      · rwa [length_cons]
    | false =>
      cases j with
      | null => exact reads_keyword s up rest (.inl rfl) depth
      | false => exact reads_keyword s up rest (.inr (.inl rfl)) depth
      | true => exact reads_keyword s up rest (.inr (.inr rfl)) depth
      | integer n => exact reads_integer s up rest n depth
      | string str => exact (Reads.string str rfl (accepts_scalar s up rest rfl)).before
      | real r => simp [Json.realFree] at hr
      | _ => cases hc

end JsonParser

/-- **JSON text round trip.**  Serializing an array or object that holds no `JSON_REAL`, nests at
most `JSON_MAX_HEIGHT` deep and has distinct member names, with any combination of the
serializer's flags, and parsing the text, gives a value that is `json_equal()` to it. -/
theorem jsonFromString_jsonToString (D : DoubleFormat) (flags : JsonFlags) (j : Json)
    (hc : j.isContainer = true) (hr : j.realFree = true) (hh : j.height ≤ jsonMaxHeight)
    (hd : j.distinct = true) :
    ∃ j', jsonFromString D (jsonToString D flags j) = some j' ∧ j'.equal j = true := by
  refine ⟨reorder flags j, ?_, Json.equal_reorder flags j hd hr⟩
  -- the text takes a new parser to the end of its input
  have hpop : ∀ ps l b pos,
      ((JsonParser.idle ps [⟨reorder flags j, none⟩] none).inToken l b pos).pop =
        (JsonParser.idle .finish [⟨reorder flags j, none⟩] none).inToken l b pos :=
    fun _ _ _ _ => rfl
  have hreads : JsonParser.Reads D (JsonParser.idle .start [] none) (serialize D flags 0 j) _ :=
    JsonParser.reads_container 0 hpop rfl hc hd hr (fun x _ => JsonParser.readsValue x)
      ((Nat.zero_add _).trans_le hh) rfl fun _ => ⟨fun _ _ _ => rfl, fun _ _ _ => rfl⟩
  obtain ⟨pos, hfeed⟩ := hreads {}
  rw [jsonFromString, jsonToString,
    CString.ofBytes_bytes_of_nul_free (serialize_nul_free D flags j 0)]
  exact (congrArg (JsonParser.finish D) hfeed).trans rfl

/-- The round trip of an object with a string that needs an escape, the smallest integer and an
empty array, pretty-printed in sorted order. -/
theorem jsonFromString_jsonToString_nested :
    ∃ j', jsonFromString ⟨fun _ => none, fun _ => CString.lit "0"⟩
        (jsonToString ⟨fun _ => none, fun _ => CString.lit "0"⟩ ⟨true, true⟩
          (.object [(CString.lit "b", .array [.null, .integer (BitVec.intMin 64)]),
            (CString.lit "a", .string (CString.lit "\n"))])) = some j' ∧
      j'.equal (.object [(CString.lit "b", .array [.null, .integer (BitVec.intMin 64)]),
        (CString.lit "a", .string (CString.lit "\n"))]) = true :=
  jsonFromString_jsonToString _ _ _ (by decide) (by decide) (by decide) (by decide)

end OVS
