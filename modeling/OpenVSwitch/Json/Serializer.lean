import OpenVSwitch.Json.Lexer

/-!
# The JSON serializer

`json_serialize()` of `lib/json.c` and its helpers, for every combination of `JSSF_PRETTY` and
`JSSF_SORT`.

The source sorts an object's nodes and then serializes them one by one.  The text of a node's
data does not depend on the node's place, so `serializeNodes` first pairs every name with that
text and `shashSort` orders the pairs; this keeps the recursion on the value itself.

`serialize_nul_free` says that the text is a C string.
-/

namespace OVS

open List

/-- The flags of `json_to_string()`. -/
structure JsonFlags where
  /-- `JSSF_PRETTY`: multiple lines with indentation. -/
  pretty : Bool
  /-- `JSSF_SORT`: object members in sorted order. -/
  sort : Bool

/-- The text of one byte of a string. -/
def escapeByte (c : UInt8) : List UInt8 :=
  if c = ch '"' then ascii "\\\""
  else if c = ch '\\' then ascii "\\\\"
  else if c = 8 then ascii "\\b"
  else if c = 12 then ascii "\\f"
  else if c = 10 then ascii "\\n"
  else if c = 13 then ascii "\\r"
  else if c = 9 then ascii "\\t"
  else if c ≥ 32 then [c]
  else ascii "\\u" ++ hex4 false c.toNat

/-- `json_serialize_string()`. -/
def serializeString (s : CString) : List UInt8 :=
  ch '"' :: (s.bytes.flatMap escapeByte ++ [ch '"'])

def spacesPerLevel : ℕ := 2

def indentLine (flags : JsonFlags) (depth : ℕ) : List UInt8 :=
  if flags.pretty then ch '\n' :: replicate (spacesPerLevel * depth) (ch ' ') else []

/-- Items one after another, every one but the first behind a comma on a new line. -/
def separate (flags : JsonFlags) (depth : ℕ) (items : List (List UInt8)) : List UInt8 :=
  match items with
  | [] => []
  | item :: rest => item ++ rest.flatMap fun item => ch ',' :: (indentLine flags depth ++ item)

/-- `json_serialize_object_member()`, behind the separator. -/
def memberText (flags : JsonFlags) (node : CString × List UInt8) : List UInt8 :=
  serializeString node.1 ++ ch ':' :: ((if flags.pretty then [ch ' '] else []) ++ node.2)

/-- The order in which `json_serialize_object()` visits the nodes. -/
def visitOrder {α : Type} (flags : JsonFlags) (nodes : List (CString × α)) : List (CString × α) :=
  if flags.sort then shashSort nodes else nodes

section Serialize

variable (D : DoubleFormat) (flags : JsonFlags)

mutual

/-- `json_serialize()` at a given depth. -/
def serialize (depth : ℕ) : Json → List UInt8
  | .null => ascii "null"
  | .false => ascii "false"
  | .true => ascii "true"
  | .object members =>
    ch '\x7b' :: (indentLine flags (depth + 1) ++
      (separate flags (depth + 1)
        ((visitOrder flags (serializeNodes (depth + 1) members)).map (memberText flags)) ++
          [ch '\x7d']))
  | .array elems =>
    ch '[' :: ((if elems.isEmpty then [] else indentLine flags (depth + 1)) ++
      (separate flags (depth + 1) (serializeElems (depth + 1) elems) ++ [ch ']']))
  | .integer n => decimalInt n.toInt
  | .real r => (D.print r).bytes
  | .string s => serializeString s

/-- The names of an object with the texts of their data. -/
def serializeNodes (depth : ℕ) : List (CString × Json) → List (CString × List UInt8)
  | [] => []
  | (name, data) :: rest => (name, serialize depth data) :: serializeNodes depth rest

/-- The texts of an array's elements. -/
def serializeElems (depth : ℕ) : List Json → List (List UInt8)
  | [] => []
  | elem :: rest => serialize depth elem :: serializeElems depth rest

end

def jsonToString (j : Json) : CString := CString.ofBytes (serialize D flags 0 j)

@[simp] lemma serializeNodes_eq_map (depth : ℕ) (members : List (CString × Json)) :
    serializeNodes D flags depth members =
      members.map fun m => (m.1, serialize D flags depth m.2) := by
  induction members with
  | nil => rfl
  | cons m rest ih => simp [serializeNodes, ih]

@[simp] lemma serializeElems_eq_map (depth : ℕ) (elems : List Json) :
    serializeElems D flags depth elems = elems.map (serialize D flags depth) := by
  induction elems with
  | nil => rfl
  | cons e rest ih => simp [serializeElems, ih]

end Serialize

lemma visitOrder_perm {α : Type} (flags : JsonFlags) (nodes : List (CString × α)) :
    (visitOrder flags nodes).Perm nodes := by
  unfold visitOrder
  split
  · exact perm_insertionSort _ nodes
  · exact Perm.refl nodes

lemma visitOrder_map {α β : Type} (flags : JsonFlags) (f : CString × α → β)
    (nodes : List (CString × α)) :
    visitOrder flags (nodes.map fun x => (x.1, f x)) =
      (visitOrder flags nodes).map fun x => (x.1, f x) := by
  unfold visitOrder
  split
  · exact (map_insertionSort (fun a b : CString × α => strcmp a.1.bytes b.1.bytes ≠ .gt) _
      (fun x => (x.1, f x)) nodes fun _ _ _ _ => Iff.rfl).symm
  · rfl

/-! ## The text is a C string -/

lemma escapeByte_nul_free {c : UInt8} (h : c ≠ 0) : 0 ∉ escapeByte c := by
  unfold escapeByte
  split_ifs
  iterate 7 decide
  · simpa using Ne.symm h
  · rw [mem_append, not_or]
    exact ⟨by decide, hex4_nul_free false c.toNat⟩

lemma serializeString_nul_free (s : CString) : 0 ∉ serializeString s := by
  simp only [serializeString, mem_cons, mem_append, mem_flatMap, not_or, not_exists, not_and]
  refine ⟨by decide, fun c hc => escapeByte_nul_free fun h0 => s.nul_free (h0 ▸ hc), by decide, ?_⟩
  simp

lemma decimal_nul_free (n : ℕ) : 0 ∉ decimal n := fun h =>
  absurd (decimal_isdigit n 0 h) (by decide)

lemma indentLine_nul_free (flags : JsonFlags) (depth : ℕ) : 0 ∉ indentLine flags depth := by
  unfold indentLine
  split
  · simp only [mem_cons, mem_replicate, not_or, not_and]
    exact ⟨by decide, fun _ => by decide⟩
  · simp

lemma separate_nul_free {flags : JsonFlags} {depth : ℕ} {items : List (List UInt8)}
    (h : ∀ item ∈ items, 0 ∉ item) : 0 ∉ separate flags depth items := by
  cases items with
  | nil => simp [separate]
  | cons item rest =>
    simp only [separate, mem_append, mem_flatMap, mem_cons, not_or, not_exists, not_and]
    refine ⟨h item (by simp), fun i hi => ⟨by decide, indentLine_nul_free flags depth, ?_⟩⟩
    exact h i (by simp [hi])

/-- **The serializer prints no NUL**, so its text is read back whole. -/
lemma serialize_nul_free (D : DoubleFormat) (flags : JsonFlags) (j : Json) (depth : ℕ) :
    0 ∉ serialize D flags depth j := by
  induction j using Json.induction generalizing depth with
  | scalar j hj =>
    cases j with
    | integer n =>
      rw [serialize, decimalInt]
      split
      · exact not_mem_cons_of_ne_of_not_mem (by decide) (decimal_nul_free _)
      · exact decimal_nul_free _
    | string s => exact serializeString_nul_free s
    | real r => exact (D.print r).nul_free
    | null => exact (by decide : 0 ∉ ascii "null")
    | false => exact (by decide : 0 ∉ ascii "false")
    | true => exact (by decide : 0 ∉ ascii "true")
    | object | array => simp [Json.isContainer] at hj
  | array elems ih =>
    have hsep : 0 ∉ separate flags (depth + 1) (serializeElems D flags (depth + 1) elems) := by
      refine separate_nul_free fun item hitem => ?_
      rw [serializeElems_eq_map] at hitem
      obtain ⟨e, he, rfl⟩ := mem_map.1 hitem
      exact ih e he _
    have hindent := indentLine_nul_free flags (depth + 1)
    simp only [serialize, mem_cons, mem_append, not_or]
    refine ⟨by decide, ?_, hsep, by decide, by simp⟩
    split <;> simp [hindent]
  | object members ih =>
    have hsep : 0 ∉ separate flags (depth + 1)
        ((visitOrder flags (serializeNodes D flags (depth + 1) members)).map
          (memberText flags)) := by
      refine separate_nul_free fun item hitem => ?_
      obtain ⟨node, hnode, rfl⟩ := mem_map.1 hitem
      replace hnode := (visitOrder_perm _ _).mem_iff.1 hnode
      rw [serializeNodes_eq_map] at hnode
      obtain ⟨m, hm, rfl⟩ := mem_map.1 hnode
      simp only [memberText, mem_append, mem_cons, not_or]
      refine ⟨serializeString_nul_free m.1, by decide, ?_, ih m hm _⟩
      split <;> decide
    simp only [serialize, mem_cons, mem_append, not_or]
    exact ⟨by decide, indentLine_nul_free flags (depth + 1), hsep, by decide, by simp⟩

end OVS
