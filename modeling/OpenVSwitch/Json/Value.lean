import OpenVSwitch.Lib.Text
import OpenVSwitch.Lib.Double

/-!
# JSON values

`struct json` of `lib/json.c`, with the operations the parser and the serializer use on its
objects.  An object's `shash` is the list of its nodes in the order in which
`SHASH_FOR_EACH` visits them; since every order of a list is a value of the type, statements
about all values cover every hash order.

* `Json.equal` is `json_equal()`: it compares objects by name, whatever their order.
* `Json.distinct` says that no object, at any depth, uses a name twice.
* `Json.height` is the nesting depth that `JSON_MAX_HEIGHT` bounds.
* `Json.induction` is the induction principle of the nested type, with membership hypotheses.
-/

namespace OVS

open List

/-- `struct json`.  A `long long int` is its 64-bit pattern, read through `BitVec.toInt`. -/
inductive Json where
  | null
  | false
  | true
  | object (members : List (CString × Json))
  | array (elems : List Json)
  | integer (n : BitVec 64)
  | real (r : Double)
  | string (s : CString)

/-! ## Objects -/

section Shash

variable {α : Type} {nodes : List (CString × α)}

/-- `shash_find()`: the data of the node with the given name. -/
def shashFind (nodes : List (CString × α)) (name : CString) : Option α :=
  match nodes with
  | [] => none
  | (n, data) :: rest => if strcmp n.bytes name.bytes = .eq then some data else shashFind rest name

/-- `shash_replace()`: new data for the node with the given name, or a new node. -/
def shashReplace (nodes : List (CString × α)) (name : CString) (data : α) :
    List (CString × α) :=
  match nodes with
  | [] => [(name, data)]
  | (n, d) :: rest =>
    if strcmp n.bytes name.bytes = .eq then (n, data) :: rest
    else (n, d) :: shashReplace rest name data

/-- `shash_sort()`: the nodes by name, as `compare_nodes_by_name()` orders them. -/
def shashSort (nodes : List (CString × α)) : List (CString × α) :=
  nodes.insertionSort fun a b => strcmp a.1.bytes b.1.bytes ≠ .gt

lemma shashReplace_of_not_mem {name : CString} {data : α} (h : name ∉ nodes.map Prod.fst) :
    shashReplace nodes name data = nodes ++ [(name, data)] := by
  induction nodes with
  | nil => rfl
  | cons node rest ih =>
    simp only [map_cons, mem_cons, not_or] at h
    simp [shashReplace, Ne.symm h.1, ih h.2]

lemma shashFind_of_mem (h : (nodes.map Prod.fst).Nodup) {name : CString} {data : α}
    (hm : (name, data) ∈ nodes) : shashFind nodes name = some data := by
  induction nodes with
  | nil => simp at hm
  | cons node rest ih =>
    obtain ⟨n, d⟩ := node
    simp only [map_cons, nodup_cons] at h
    rcases mem_cons.1 hm with heq | hm
    · cases heq
      simp [shashFind]
    · have hne : n ≠ name := fun he => h.1 (he ▸ mem_map_of_mem hm)
      simp [shashFind, hne, ih h.2 hm]

end Shash

namespace Json

/-- An array or an object. -/
def isContainer : Json → Bool
  | .object _ => Bool.true
  | .array _ => Bool.true
  | _ => Bool.false

/-- **Induction over a value**, with the hypothesis for every member of an object and every
element of an array. -/
theorem induction {P : Json → Prop} (scalar : ∀ j : Json, j.isContainer = Bool.false → P j)
    (object : ∀ members, (∀ m ∈ members, P m.2) → P (.object members))
    (array : ∀ elems, (∀ e ∈ elems, P e) → P (.array elems)) : ∀ j, P j :=
  @Json.rec P (fun members => ∀ m ∈ members, P m.2) (fun elems => ∀ e ∈ elems, P e)
    (fun m => P m.2) (scalar _ rfl) (scalar _ rfl) (scalar _ rfl) object array
    (fun _ => scalar _ rfl) (fun _ => scalar _ rfl) (fun _ => scalar _ rfl)
    (by simp) (fun _ _ hm hrest => forall_mem_cons.2 ⟨hm, hrest⟩)
    (by simp) (fun _ _ he hrest => forall_mem_cons.2 ⟨he, hrest⟩)
    (fun _ _ hdata => hdata)

mutual

def equal : Json → Json → Bool
  | .null, .null => Bool.true
  | .false, .false => Bool.true
  | .true, .true => Bool.true
  | .object a, .object b => a.length == b.length && equalObject a b
  | .array a, .array b => equalArray a b
  | .integer a, .integer b => a == b
  | .real a, .real b => a.eq b
  | .string a, .string b => strcmp a.bytes b.bytes == .eq
  | _, _ => Bool.false

/-- The loop of `json_equal_object()`: every node of `a` has a node of the same name in `b`
with equal data. -/
def equalObject : List (CString × Json) → List (CString × Json) → Bool
  | [], _ => Bool.true
  | (name, data) :: rest, b =>
    (match shashFind b name with
      | none => Bool.false
      | some data' => equal data data') && equalObject rest b

def equalArray : List Json → List Json → Bool
  | [], [] => Bool.true
  | a :: as, b :: bs => equal a b && equalArray as bs
  | _, _ => Bool.false

end

/-! ## Shape -/

mutual

/-- How deep arrays and objects nest. -/
def height : Json → ℕ
  | .object members => heightObject members + 1
  | .array elems => heightArray elems + 1
  | _ => 0

/-- The largest height of an object's data. -/
def heightObject : List (CString × Json) → ℕ
  | [] => 0
  | (_, data) :: rest => max (height data) (heightObject rest)

/-- The largest height of an array's elements. -/
def heightArray : List Json → ℕ
  | [] => 0
  | elem :: rest => max (height elem) (heightArray rest)

end

mutual

/-- No `JSON_REAL` at any depth. -/
def realFree : Json → Bool
  | .object members => realFreeObject members
  | .array elems => realFreeArray elems
  | .real _ => Bool.false
  | _ => Bool.true

/-- `realFree` for the data of an object. -/
def realFreeObject : List (CString × Json) → Bool
  | [] => Bool.true
  | (_, data) :: rest => realFree data && realFreeObject rest

/-- `realFree` for the elements of an array. -/
def realFreeArray : List Json → Bool
  | [] => Bool.true
  | elem :: rest => realFree elem && realFreeArray rest

end

mutual

/-- No object uses a name twice, at any depth. -/
def distinct : Json → Bool
  | .object members => decide (members.map Prod.fst).Nodup && distinctObject members
  | .array elems => distinctArray elems
  | _ => Bool.true

/-- `distinct` for the data of an object. -/
def distinctObject : List (CString × Json) → Bool
  | [] => Bool.true
  | (_, data) :: rest => distinct data && distinctObject rest

/-- `distinct` for the elements of an array. -/
def distinctArray : List Json → Bool
  | [] => Bool.true
  | elem :: rest => distinct elem && distinctArray rest

end

variable {members : List (CString × Json)} {elems : List Json}

lemma height_le_heightObject {m : CString × Json} (h : m ∈ members) :
    m.2.height ≤ heightObject members := by
  induction members with
  | nil => simp at h
  | cons m' rest ih =>
    rcases mem_cons.1 h with rfl | h
    · exact le_max_left _ _
    · exact (ih h).trans (le_max_right _ _)

lemma height_le_heightArray {e : Json} (h : e ∈ elems) : e.height ≤ heightArray elems := by
  induction elems with
  | nil => simp at h
  | cons e' rest ih =>
    rcases mem_cons.1 h with rfl | h
    · exact le_max_left _ _
    · exact (ih h).trans (le_max_right _ _)

@[simp] lemma realFreeObject_iff :
    realFreeObject members = Bool.true ↔ ∀ m ∈ members, m.2.realFree = Bool.true := by
  induction members with
  | nil => simp [realFreeObject]
  | cons m rest ih => simp [realFreeObject, ih]

@[simp] lemma realFreeArray_iff :
    realFreeArray elems = Bool.true ↔ ∀ e ∈ elems, e.realFree = Bool.true := by
  induction elems with
  | nil => simp [realFreeArray]
  | cons e rest ih => simp [realFreeArray, ih]

@[simp] lemma distinctObject_iff :
    distinctObject members = Bool.true ↔ ∀ m ∈ members, m.2.distinct = Bool.true := by
  induction members with
  | nil => simp [distinctObject]
  | cons m rest ih => simp [distinctObject, ih]

@[simp] lemma distinctArray_iff :
    distinctArray elems = Bool.true ↔ ∀ e ∈ elems, e.distinct = Bool.true := by
  induction elems with
  | nil => simp [distinctArray]
  | cons e rest ih => simp [distinctArray, ih]

end Json

end OVS
