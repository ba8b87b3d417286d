import Mathlib.Data.Fin.Basic
import OpenVSwitch.Lib.Keyed
import OpenVSwitch.Ovsdb.Data

/-!
# OVSDB schemas

A database has `n` tables, numbered by `Fin n`, so that a reference to a table always names one:
`ovsdb_schema_from_json()` rejects a schema in which a `refTable` is missing.  What else the
parsing of a schema ensures is carried by the structures: column indexes are distinct, `_uuid`
and `_version` are no references, indexed columns are persistent
(`ovsdb_table_schema_from_json()`), and a strong reference to a table outside the root set makes
its column persistent (`ovsdb_schema_check_ref_table()`).

Names of tables and columns are left out: nothing in a transaction depends on them.
-/

namespace OVS

namespace Ovsdb

variable {n : ℕ}

/-- What identifies a row: its table and its UUID. -/
abbrev Key (n : ℕ) := Fin n × Uuid

instance {n : ℕ} : LawfulBEq (Key n) := inferInstance

inductive RefType where
  | strong
  | weak
deriving DecidableEq

/-- `struct ovsdb_base_type`, with `refTable` and `refType` in `ref`. -/
structure BaseType (n : ℕ) where
  type : AtomicType
  ref : Option (Fin n × RefType) := none

namespace BaseType

/-- `ovsdb_base_type_is_strong_ref()`: the table referred to. -/
def strongRef (b : BaseType n) : Option (Fin n) :=
  match b.type, b.ref with
  | .uuid, some (t, .strong) => some t
  | _, _ => none

/-- `ovsdb_base_type_is_weak_ref()`: the table referred to. -/
def weakRef (b : BaseType n) : Option (Fin n) :=
  match b.type, b.ref with
  | .uuid, some (t, .weak) => some t
  | _, _ => none

@[simp] lemma strongRef_of_ref_none {b : BaseType n} (h : b.ref = none) : b.strongRef = none := by
  unfold strongRef
  rw [h]
  cases b.type <;> rfl

@[simp] lemma weakRef_of_ref_none {b : BaseType n} (h : b.ref = none) : b.weakRef = none := by
  unfold weakRef
  rw [h]
  cases b.type <;> rfl

end BaseType

/-- `struct ovsdb_type`.  `n_max` plays no part in a transaction. -/
structure ColumnType (n : ℕ) where
  key : BaseType n
  value : BaseType n := { type := .void }
  nMin : ℕ

namespace ColumnType

end ColumnType

structure Column (n : ℕ) where
  index : ℕ
  type : ColumnType n
  persistent : Bool

def colUuid : ℕ := 0

def colVersion : ℕ := 1

/-- `struct ovsdb_table_schema`.  `columns` is in the order of iteration over the hash table of
the columns, whatever it is. -/
structure TableSchema (n : ℕ) where
  columns : List (Column n)
  isRoot : Bool
  maxRows : ℕ
  indexes : List (List (Column n))
  index_nodup : (columns.map Column.index).Nodup
  standard : ∀ c ∈ columns, c.index = colUuid ∨ c.index = colVersion →
    c.type.key.ref = none ∧ c.type.value.ref = none
  version_ephemeral : ∀ c ∈ columns, c.index = colVersion → c.persistent = false
  indexed : ∀ i ∈ indexes, ∀ c ∈ i, c ∈ columns ∧ c.persistent = true

lemma TableSchema.index_inj (t : TableSchema n) {c c' : Column n} (hc : c ∈ t.columns)
    (hc' : c' ∈ t.columns) (h : c.index = c'.index) : c = c' :=
  List.inj_on_of_nodup_map t.index_nodup hc hc' h

structure Schema (n : ℕ) where
  table : Fin n → TableSchema n
  strong_persistent : ∀ t, ∀ c ∈ (table t).columns, ∀ t',
    c.type.key.strongRef = some t' ∨ c.type.value.strongRef = some t' →
      (table t').isRoot = false → c.persistent = true

/-- The rows named by atoms of a reference type. -/
def refKeys (refTable : Option (Fin n)) (atoms : List Atom) : List (Key n) :=
  match refTable with
  | none => []
  | some t => atoms.map fun a => (t, a.asUuid)

@[simp] lemma refKeys_none (atoms : List Atom) : refKeys (none : Option (Fin n)) atoms = [] := rfl

namespace Column

/-- The rows that a datum of the column refers to strongly: by keys, then by values. -/
def strongRefs (c : Column n) (d : Datum) : List (Key n) :=
  refKeys c.type.key.strongRef d.keys ++ refKeys c.type.value.strongRef d.values

/-- The rows that a datum of the column refers to weakly. -/
def weakRefs (c : Column n) (d : Datum) : List (Key n) :=
  refKeys c.type.key.weakRef d.keys ++ refKeys c.type.value.weakRef d.values

end Column

def hashAtoms (atoms : List Atom) (basis : BitVec 32) : BitVec 32 :=
  atoms.foldl (fun basis a => a.hash basis) basis

def Datum.hash (d : Datum) (t : ColumnType n) (basis : BitVec 32) : BitVec 32 :=
  let basis := hashAtoms d.keys basis
  let basis := basis ^^^
    BitVec.ofNat 32 (t.key.type.toNat <<< 24 ||| t.value.type.toNat <<< 16 ||| d.n)
  hashAtoms d.values basis

end Ovsdb

end OVS
