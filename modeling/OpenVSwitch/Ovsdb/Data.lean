import OpenVSwitch.Hash

/-!
# OVSDB atoms and data

The values that a database stores: atoms, and data made of them (`lib/ovsdb-data.c`).

* `Uuid`, `Atom`: the five kinds of atoms.  A real atom is a finite double: neither JSON nor a
  mutation can produce another one.
* `Datum`: the keys of a set, or the pairs of a map.

**Equality is not identity.**  `ovsdb_atom_equals()` compares reals as numbers, so `0.0` and
`-0.0` are equal, but `ovsdb_atom_hash()` hashes their bits.  `Atom.canon` is the same atom with
one pattern for zero: two atoms are equal if and only if it takes them to the same atom
(`Atom.equals_iff`), and likewise for data (`Datum.equals_iff`).
-/

namespace OVS

namespace Ovsdb

open List

/-! ## UUIDs -/

structure Uuid where
  part0 : BitVec 32
  part1 : BitVec 32
  part2 : BitVec 32
  part3 : BitVec 32
deriving DecidableEq

namespace Uuid

def zero : Uuid := ⟨0, 0, 0, 0⟩

def isZero (u : Uuid) : Bool := u = zero

def hash (u : Uuid) : BitVec 32 := u.part0

def compare3way (a b : Uuid) : Ordering :=
  (compare a.part0.toNat b.part0.toNat).then <| (compare a.part1.toNat b.part1.toNat).then <|
    (compare a.part2.toNat b.part2.toNat).then (compare a.part3.toNat b.part3.toNat)

lemma compare3way_eq_iff {a b : Uuid} : a.compare3way b = .eq ↔ a = b := by
  cases a
  cases b
  simp only [compare3way, Ordering.then_eq_eq, compare_eq_iff_eq, BitVec.toNat_inj, mk.injEq]

end Uuid

/-! ## Atoms -/

inductive AtomicType where
  | void
  | integer
  | real
  | boolean
  | string
  | uuid
deriving DecidableEq

/-- The number of an enumeration value. -/
def AtomicType.toNat : AtomicType → ℕ
  | void => 0
  | integer => 1
  | real => 2
  | boolean => 3
  | string => 4
  | uuid => 5

/-- `union ovsdb_atom`, with the type that the code passes along. -/
inductive Atom where
  | integer (i : BitVec 64)
  | real (d : {d : Double // d.isFinite = true})
  | boolean (b : Bool)
  | string (s : CString)
  | uuid (u : Uuid)
deriving DecidableEq

namespace Atom

/-- The type of an atom. -/
def type : Atom → AtomicType
  | integer _ => .integer
  | real _ => .real
  | boolean _ => .boolean
  | string _ => .string
  | uuid _ => .uuid

/-- The member `uuid` of the union. -/
def asUuid : Atom → Uuid
  | uuid u => u
  | _ => Uuid.zero

/-- `ovsdb_atom_compare_3way()`.  The code only compares atoms of one type; here, atoms of
different types are ordered by their types. -/
def compare3way : Atom → Atom → Ordering
  | integer a, integer b => compare a.toInt b.toInt
  | real a, real b => compare a.1.key b.1.key
  | boolean a, boolean b => compare a.toNat b.toNat
  | string a, string b => strcmp a.bytes b.bytes
  | uuid a, uuid b => a.compare3way b
  | a, b => compare a.type.toNat b.type.toNat

def equals (a b : Atom) : Bool := a.compare3way b = .eq

def hash : Atom → BitVec 32 → BitVec 32
  | integer i, basis => hashInt (i.truncate 32) basis
  | real d, basis => hashDouble d.1 basis
  | boolean b, basis => hashBoolean b basis
  | string s, basis => hashString s basis
  | uuid u, basis => hashInt u.hash basis

lemma canon_isFinite {d : Double} (h : d.isFinite = true) : d.canon.isFinite = true := by
  unfold Double.canon
  split
  · decide
  · exact h

/-- The same atom, with one pattern for zero. -/
def canon : Atom → Atom
  | real d => real ⟨d.1.canon, canon_isFinite d.2⟩
  | a => a

/-- **Two atoms are equal if and only if they differ at most in the sign of a zero.** -/
lemma equals_iff {a b : Atom} : a.equals b = true ↔ a.canon = b.canon := by
  unfold equals
  cases a with
  | integer i =>
    cases b <;> simp [compare3way, type, AtomicType.toNat, canon, BitVec.toInt_inj]
  | real d =>
    cases b <;> simp [compare3way, type, AtomicType.toNat, canon, Double.key_eq_iff]
  | boolean x =>
    cases b with
    | boolean y => cases x <;> cases y <;> simp [compare3way, canon]
    | _ => simp [compare3way, type, AtomicType.toNat, canon]
  | string s =>
    cases b <;> simp [compare3way, type, AtomicType.toNat, canon]
  | uuid u =>
    cases b <;> simp [compare3way, type, AtomicType.toNat, canon, Uuid.compare3way_eq_iff]

end Atom

/-! ## Data -/

/-- `struct ovsdb_datum`: the elements of a set, or the key-value pairs of a map. -/
structure Datum where
  pairs : List (Atom × Option Atom)
deriving DecidableEq

namespace Datum

/-- The member `n`. -/
def n (d : Datum) : ℕ := d.pairs.length

/-- The member `keys`. -/
def keys (d : Datum) : List Atom := d.pairs.map Prod.fst

/-- The member `values`. -/
def values (d : Datum) : List Atom := d.pairs.filterMap Prod.snd

/-- The datum of a scalar UUID column. -/
def ofUuid (u : Uuid) : Datum := ⟨[(.uuid u, none)]⟩

/-- Equality of two elements. -/
def pairEquals (p q : Atom × Option Atom) : Bool :=
  p.1.equals q.1 &&
    match p.2, q.2 with
    | some a, some b => a.equals b
    | none, none => true
    | _, _ => false

def equals (a b : Datum) : Bool :=
  a.n == b.n && (a.pairs.zip b.pairs).all fun r => pairEquals r.1 r.2

/-- The same datum, with one pattern for zero. -/
def canon (d : Datum) : Datum := ⟨d.pairs.map fun p => (p.1.canon, p.2.map Atom.canon)⟩

lemma pairEquals_iff {p q : Atom × Option Atom} :
    pairEquals p q = true ↔
      (p.1.canon, p.2.map Atom.canon) = (q.1.canon, q.2.map Atom.canon) := by
  rcases p with ⟨a, _ | x⟩ <;> rcases q with ⟨b, _ | y⟩ <;> simp [pairEquals, Atom.equals_iff]

/-- **Two data are equal if and only if they differ at most in signs of zeros.** -/
lemma equals_iff {a b : Datum} : a.equals b = true ↔ a.canon = b.canon := by
  rcases a with ⟨ps⟩
  rcases b with ⟨qs⟩
  simp only [equals, n, canon, Bool.and_eq_true, beq_iff_eq, mk.injEq]
  induction ps generalizing qs with
  | nil => cases qs <;> simp
  | cons p ps ih =>
    cases qs with
    | nil => simp
    | cons q qs =>
      simp only [length_cons, zip_cons_cons, all_cons, map_cons,
        cons.injEq, Bool.and_eq_true, pairEquals_iff, ← ih qs]
      constructor
      · rintro ⟨hn, hp, hall⟩
        exact ⟨hp, by omega, hall⟩
      · rintro ⟨hp, hn, hall⟩
        exact ⟨by omega, hp, hall⟩

/-- `ovsdb_datum_remove_unsafe()`: the last element takes the place of the one removed. -/
def removeUnsafe (d : Datum) (i : ℕ) : Datum :=
  match d.pairs.getLast? with
  | none => d
  | some p => ⟨(d.pairs.set i p).dropLast⟩

section RemoveUnsafe

variable {d : Datum} {i : ℕ}

lemma removeUnsafe_pairs (hi : i < d.n) :
    ∃ p ∈ d.pairs, (d.removeUnsafe i).pairs = (d.pairs.set i p).dropLast := by
  have hne : d.pairs ≠ [] := ne_nil_of_length_pos (by unfold n at hi; omega)
  refine ⟨d.pairs.getLast hne, getLast_mem hne, ?_⟩
  rw [removeUnsafe, getLast?_eq_some_getLast hne]

lemma n_removeUnsafe (hi : i < d.n) : (d.removeUnsafe i).n = d.n - 1 := by
  obtain ⟨p, -, hp⟩ := removeUnsafe_pairs hi
  rw [n, hp, length_dropLast, length_set, n]

lemma mem_of_mem_removeUnsafe (hi : i < d.n) {q : Atom × Option Atom}
    (hq : q ∈ (d.removeUnsafe i).pairs) : q ∈ d.pairs := by
  obtain ⟨p, hmem, hp⟩ := removeUnsafe_pairs hi
  rw [hp] at hq
  rcases mem_or_eq_of_mem_set (mem_of_mem_dropLast hq) with hq | rfl
  · exact hq
  · exact hmem

end RemoveUnsafe

/-- The sorting of `ovsdb_datum_sort()`: by keys. -/
def sort (d : Datum) : Datum :=
  ⟨d.pairs.insertionSort fun p q => p.1.compare3way q.1 ≠ .gt⟩

lemma mem_sort {d : Datum} {p : Atom × Option Atom} : p ∈ d.sort.pairs ↔ p ∈ d.pairs :=
  (perm_insertionSort _ d.pairs).mem_iff

/-- The check of `ovsdb_datum_sort()`: no two neighbours have the same key. -/
def hasDuplicate (d : Datum) : Bool :=
  (d.keys.zip d.keys.tail).any fun r => r.1.equals r.2

end Datum

end Ovsdb

end OVS
