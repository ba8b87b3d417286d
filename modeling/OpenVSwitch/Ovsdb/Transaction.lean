import Mathlib.Data.List.AList
import OpenVSwitch.Lib.Program
import OpenVSwitch.Ovsdb.Schema

/-!
# OVSDB transactions

`ovsdb/transaction.c`, with what it uses of `row.c` and `table.c`.

**Memory.**  Rows live in a heap of numbered cells.  A row that is modified by a transaction
exists twice: the committed version stays as it is, reachable through the transaction's row
(`TxnRow.old`) and through the table's indexes, while the table's hash map of rows already holds
the new version.  The hash maps of all tables together are one map from keys, and so are the
`txn_rows`.  The weak references of all rows are one list of (source, destination) pairs: the
`dst_refs` of a row are the pairs that end in it, in the order of the list, and its `src_refs`
are those that start in it.  `row->txn_row` is the transaction's row with the row's key.

**Unspecified behaviour** is a parameter: `gen` are the UUIDs that `uuid_generate()` puts into
`_version`, and `order` says which unprocessed row `for_each_txn_row()` comes to next.

An error keeps the state, as in the code; `Stop.crash` is a failed assertion or a null pointer.
-/

namespace OVS

namespace Ovsdb

open Function

variable {n : ℕ}

/-! ## State -/

/-- `struct ovsdb_row`.  `data` are the columns other than `_uuid` and `_version`; `indexHash` are
the hashes in the row's index nodes. -/
structure Row (n : ℕ) where
  table : Fin n
  uuid : Uuid
  version : Uuid
  data : ℕ → Datum
  nRefs : ℤ
  indexHash : ℕ → BitVec 32

namespace Row

/-- Table and UUID. -/
def key (r : Row n) : Key n := (r.table, r.uuid)

/-- The member `fields`. -/
def field (r : Row n) (i : ℕ) : Datum :=
  if i = colUuid then Datum.ofUuid r.uuid
  else if i = colVersion then Datum.ofUuid r.version
  else r.data i

/-- Writes a column. -/
def setField (r : Row n) (i : ℕ) (d : Datum) : Row n :=
  { r with data := update r.data i d }

def equalColumns (a b : Row n) (columns : List (Column n)) : Bool :=
  columns.all fun c => (a.field c.index).equals (b.field c.index)

def hashColumns (r : Row n) (columns : List (Column n)) (basis : BitVec 32) : BitVec 32 :=
  columns.foldl (fun basis c => (r.field c.index).hash c.type basis) basis

end Row

structure TxnRow where
  old : Option ℕ
  new : Option ℕ
  nRefs : ℤ
  changed : ℕ → Bool

/-- `struct ovsdb_weak_ref`, with the row whose `dst_refs` it is in. -/
structure WeakRef where
  src : ℕ
  dst : ℕ
deriving DecidableEq

/-- A database and its transaction, if there is one. -/
structure Db (n : ℕ) where
  /-- The rows allocated. -/
  heap : ℕ → Option (Row n)
  /-- Cells from this one on have not been used. -/
  next : ℕ
  /-- `table->rows`; looking up a key is `ovsdb_table_get_row()`. -/
  rows : AList fun _ : Key n => ℕ
  /-- `table->indexes[i]`. -/
  indexes : Fin n → ℕ → List ℕ
  weakRefs : List WeakRef
  /-- The tables with a `txn_table`, in the order of `txn->txn_tables`. -/
  txnTables : List (Fin n)
  /-- `txn_table->txn_rows`; looking up a key is `find_txn_row()`. -/
  txnRows : AList fun _ : Key n => TxnRow
  /-- `txn_table->txn_indexes[i]`. -/
  txnIndexes : Fin n → ℕ → List ℕ

/-- The errors of a commit. -/
inductive TxnError (n : ℕ) where
  /-- "referential integrity violation": a column of a row references a nonexistent row. -/
  | missingRow (table : Fin n) (column : ℕ) (row : Uuid) (target : Key n)
  /-- "referential integrity violation": a row cannot be deleted because of remaining
      references. -/
  | remainingReferences (row : Key n) (nRefs : ℤ)
  /-- "constraint violation": a table contains more rows than the limit. -/
  | maxRows (table : Fin n) (nRows maxRows : ℕ)
  /-- "constraint violation": the all-zeros UUID in a weak reference column of an inserted row. -/
  | weakZero (column : ℕ) (row : Key n)
  /-- "constraint violation": the deletion of weak references made a column empty. -/
  | weakDeleted (count : ℕ) (column : ℕ) (row : Key n) (inserted : Bool)
  /-- "constraint violation": two rows with identical values for an index. -/
  | duplicateIndex (table : Fin n) (index : ℕ) (first second : Uuid)
  /-- A replica failed. -/
  | replica
  /-- "strong ref target missing", "strong ref target has zero n_refs" and "deleted strong ref
      target". -/
  | strongRefMissing
  | strongRefZero
  | strongRefDeleted
  /-- An error that "can't happen", or "error decreasing refcount". -/
  | bug (e : TxnError n)

/-- Why a program stops. -/
inductive Stop (n : ℕ) where
  | error (e : TxnError n)
  | crash

/-- A function of the transaction code. -/
abbrev Code (n : ℕ) := Prog (Db n) (Stop n)

namespace Db

/-- The database after it has been created. -/
def empty (n : ℕ) : Db n where
  heap := fun _ => none
  next := 0
  rows := ∅
  indexes := fun _ _ => []
  weakRefs := []
  txnTables := []
  txnRows := ∅
  txnIndexes := fun _ _ => []

/-- Puts a row into an unused cell, `s.next`. -/
@[simps] def alloc (s : Db n) (r : Row n) : Db n :=
  { s with heap := update s.heap s.next (some r), next := s.next + 1 }

/-- Writes to a row. -/
@[simps] def setRow (s : Db n) (a : ℕ) (r : Row n) : Db n :=
  { s with heap := update s.heap a (some r) }

/-- `ovsdb_row_destroy()`: the weak references from and to the row disappear with it. -/
@[simps] def rowDestroy (s : Db n) (a : ℕ) : Db n :=
  { s with
    heap := update s.heap a none
    weakRefs := s.weakRefs.filter fun w => w.src ≠ a ∧ w.dst ≠ a }

/-- `hmap_insert()` or `hmap_replace()` on the rows of a table. -/
@[simps] def putRow (s : Db n) (k : Key n) (a : ℕ) : Db n := { s with rows := s.rows.insert k a }

/-- `hmap_remove()` on the rows of a table. -/
@[simps] def removeRow (s : Db n) (k : Key n) : Db n := { s with rows := s.rows.erase k }

/-- Writes to a row of the transaction. -/
@[simps] def putTxnRow (s : Db n) (k : Key n) (r : TxnRow) : Db n :=
  { s with txnRows := s.txnRows.insert k r }

/-- `hmap_remove()` on the rows of the transaction. -/
@[simps] def removeTxnRow (s : Db n) (k : Key n) : Db n := { s with txnRows := s.txnRows.erase k }

/-- `ovsdb_txn_create_txn_table()`. -/
@[simps] def createTxnTable (s : Db n) (t : Fin n) : Db n :=
  { s with
    txnTables := if t ∈ s.txnTables then s.txnTables else s.txnTables ++ [t]
    txnIndexes :=
      if t ∈ s.txnTables then s.txnIndexes else update s.txnIndexes t fun _ => [] }

/-- `ovsdb_txn_row_create()`. -/
@[simp] def txnRowCreate (s : Db n) (k : Key n) (old new : Option ℕ) (nRefs : ℤ) : Db n :=
  (s.createTxnTable k.1).putTxnRow k ⟨old, new, nRefs, fun _ => false⟩

/-- The number of rows in a table. -/
def countRows (s : Db n) (t : Fin n) : ℕ := (s.rows.keys.filter fun k => k.1 = t).length

/-- `ovsdb_txn_table_destroy()` for the tables that have no row left. -/
@[simps] def dropEmptyTxnTables (s : Db n) : Db n :=
  { s with txnTables := s.txnTables.filter fun t => s.txnRows.keys.any fun k => k.1 = t }

end Db

/-! ## Rows of a transaction -/

/-- A failed assertion. -/
def crash {α : Type} : Code n α := Prog.throw .crash

/-- Returns an error. -/
def fail {α : Type} (e : TxnError n) : Code n α := Prog.throw (.error e)

/-- Follows a pointer to a row. -/
def deref (a : ℕ) : Code n (Row n) := do
  match (← Prog.get).heap a with
  | none => crash
  | some row => return row

/-- The row of the transaction for a key. -/
def getTxnRow (k : Key n) : Code n TxnRow := do
  match (← Prog.get).txnRows.lookup k with
  | none => crash
  | some r => return r

section

variable (σ : Schema n) (gen : ℕ → Uuid)

/-- The second branch of `ovsdb_txn_row_modify()`: the row in cell `a` is cloned, and the clone
takes its place in the table. -/
def cloneRow (s : Db n) (a : ℕ) (row : Row n) : Db n :=
  ((s.alloc { row with version := gen s.next }).txnRowCreate row.key (some a) (some s.next)
    row.nRefs).putRow row.key s.next

def txnRowModify (a : ℕ) : Code n ℕ := do
  let row ← deref a
  let s ← Prog.get
  match s.txnRows.lookup row.key with
  | some r => if r.new = some a then return a else crash
  | none => do
    Prog.modify fun s => cloneRow gen s a row
    return s.next

/-- `ovsdb_txn_row_insert()` of a row that the caller has filled in. -/
def txnRowInsert (k : Key n) (data : ℕ → Datum) : Code n Unit :=
  Prog.modify fun s =>
    ((s.alloc ⟨k.1, k.2, gen s.next, data, 0, fun _ => 0⟩).txnRowCreate k none (some s.next)
      0).putRow k s.next

/-- `ovsdb_txn_row_delete()` of the row in cell `a`. -/
def txnRowDelete (a : ℕ) : Code n Unit := do
  let row ← deref a
  Prog.modify (·.removeRow row.key)
  match (← Prog.get).txnRows.lookup row.key with
  | none => Prog.modify (·.txnRowCreate row.key (some a) none row.nRefs)
  | some r =>
    if r.new = some a then do
      Prog.modify fun s =>
        if r.old.isSome then s.putTxnRow row.key { r with new := none }
        else s.removeTxnRow row.key
      Prog.modify (·.rowDestroy a)
    else crash

/-- `find_or_make_txn_row()`: whether there is one. -/
def findOrMakeTxnRow (k : Key n) : Code n Bool := do
  let s ← Prog.get
  match s.txnRows.lookup k with
  | some _ => return true
  | none =>
    match s.rows.lookup k with
    | none => return false
    | some a => do
      let _ ← txnRowModify gen a
      return true

/-- An element of a list, chosen by a number. -/
def pick {α : Type} (i : ℕ) (l : List α) : Option α := l[i % l.length]?

/-- The loops of `for_each_txn_row()`.  `done` are the rows whose `serial` is that of the
iteration; rows that the callback adds are not among them. -/
def forEachLoop (order : ℕ → ℕ) (cb : Key n → Code n Unit) : ℕ → List (Key n) → Code n Unit
  | 0, _ => crash
  | fuel + 1, done => do
    match pick (order done.length) ((← Prog.get).txnRows.keys.filter fun k => k ∉ done) with
    | none => Prog.modify (·.dropEmptyTxnTables)
    | some k => do
      cb k
      forEachLoop order cb fuel (k :: done)

/-- `for_each_txn_row()`.  A callback adds rows to the transaction only for rows that the tables
have, which bounds the number of rounds. -/
def forEachTxnRow (order : ℕ → ℕ) (cb : Key n → Code n Unit) : Code n Unit := do
  let s ← Prog.get
  forEachLoop order cb (s.rows.keys.length + s.txnRows.keys.length + 1) []

def txnRowAbort (k : Key n) : Code n Unit := do
  let r ← getTxnRow k
  Prog.modify (·.removeTxnRow k)
  Prog.modify fun s =>
    match r.old, r.new with
    | none, none => s
    | none, some _ => s.removeRow k
    | some old, _ => s.putRow k old
  Prog.ifSome r.new fun new => Prog.modify (·.rowDestroy new)

/-- `ovsdb_txn_abort()`, with the assertion of `ovsdb_txn_free()`. -/
def txnAbort (order : ℕ → ℕ) : Code n Unit := do
  forEachTxnRow order txnRowAbort
  if (← Prog.get).txnTables.isEmpty then pure () else crash

def determineChanges (k : Key n) : Code n Unit := do
  let r ← getTxnRow k
  match r.old, r.new with
  | some old, some new => do
    let oldRow ← deref old
    let newRow ← deref new
    let differs : Column n → Bool := fun c =>
      !(oldRow.field c.index).equals (newRow.field c.index)
    if (σ.table k.1).columns.any differs then
      Prog.modify (·.putTxnRow k { r with
        changed := fun i => (σ.table k.1).columns.any fun c => c.index = i && differs c })
    else txnRowAbort k
  | _, _ => Prog.modify (·.putTxnRow k { r with changed := fun _ => true })

/-! ## Strong references -/

/-- The loop over the atoms of a strong reference that `ovsdb_txn_adjust_atom_refs()` and
`delete_row_refs()` share. -/
def eachRef (row : Row n) (base : BaseType n) (atoms : List Atom) (body : Key n → Code n Unit) :
    Code n Unit :=
  match base.strongRef with
  | none => pure ()
  | some t =>
    Prog.each (fun atom : Atom =>
      -- self-references do not count: only the UUIDs are compared
      if atom.asUuid = row.uuid then pure () else body (t, atom.asUuid)) atoms

/-- `ovsdb_txn_adjust_atom_refs()`. -/
def adjustAtomRefs (row : Row n) (column : ℕ) (base : BaseType n) (atoms : List Atom)
    (delta : ℤ) : Code n Unit :=
  eachRef row base atoms fun x => do
    if ← findOrMakeTxnRow gen x then do
      let r ← getTxnRow x
      Prog.modify (·.putTxnRow x { r with nRefs := r.nRefs + delta })
    else fail (.missingRow row.table column row.uuid x)

/-- `ovsdb_txn_adjust_row_refs()`. -/
def adjustRowRefs (row : Row n) (c : Column n) (delta : ℤ) : Code n Unit := do
  adjustAtomRefs gen row c.index c.type.key (row.field c.index).keys delta
  adjustAtomRefs gen row c.index c.type.value (row.field c.index).values delta

/-- Wraps the errors of a program (`OVSDB_WRAP_BUG()`). -/
def wrapBug (m : Code n Unit) : Code n Unit := fun s =>
  match m s with
  | (.error (.error e), s') => (.error (.error (.bug e)), s')
  | r => r

def updateRowRefCount (k : Key n) : Code n Unit := do
  let r ← getTxnRow k
  Prog.each (fun c : Column n => do
    Prog.ifSome r.old fun old => do
      let row ← deref old
      wrapBug (adjustRowRefs gen row c (-1))
    Prog.ifSome r.new fun new => do
      let row ← deref new
      adjustRowRefs gen row c 1) (σ.table k.1).columns

def checkRefCount (k : Key n) : Code n Unit := do
  let r ← getTxnRow k
  if r.new.isSome ∨ r.nRefs = 0 then pure () else fail (.remainingReferences k r.nRefs)

/-- The body of the loop of `delete_row_refs()`; `collect` is `delete_garbage_row()`. -/
def deleteRef (collect : Key n → Code n Unit) (x : Key n) : Code n Unit := do
  if ← findOrMakeTxnRow gen x then do
    let r ← getTxnRow x
    if r.nRefs = 0 then fail .strongRefZero
    else if r.new.isNone then fail .strongRefDeleted
    else do
      Prog.modify (·.putTxnRow x { r with nRefs := r.nRefs - 1 })
      if r.nRefs - 1 = 0 then collect x else pure ()
  else fail .strongRefMissing

def deleteRowRefs (collect : Key n → Code n Unit) (row : Row n) (base : BaseType n)
    (atoms : List Atom) : Code n Unit :=
  eachRef row base atoms (deleteRef gen collect)

/-- `delete_garbage_row()`.  Every nested call has removed one more row from its table. -/
def deleteGarbageRow : ℕ → Key n → Code n Unit
  | 0, _ => crash
  | fuel + 1, k => do
    if (σ.table k.1).isRoot then pure ()
    else do
      let r ← getTxnRow k
      match r.new with
      | none => crash
      | some a => do
        let row ← deref a
        Prog.modify fun s => (s.putTxnRow k { r with new := none }).removeRow k
        Prog.each (fun c : Column n => do
          deleteRowRefs gen (deleteGarbageRow fuel) row c.type.key (row.field c.index).keys
          deleteRowRefs gen (deleteGarbageRow fuel) row c.type.value
            (row.field c.index).values) (σ.table k.1).columns
        Prog.modify (·.rowDestroy a)

def collectGarbage (k : Key n) : Code n Unit := do
  let r ← getTxnRow k
  if r.new.isSome ∧ r.nRefs = 0 then
    deleteGarbageRow σ gen ((← Prog.get).rows.keys.length + 1) k
  else pure ()

/-! ## Constraints -/

def checkMaxRows : Code n Unit := do
  let s ← Prog.get
  Prog.each (fun t : Fin n =>
    if s.countRows t > (σ.table t).maxRows then
      fail (.maxRows t (s.countRows t) (σ.table t).maxRows)
    else pure ()) s.txnTables

def addWeakRef (src dst : ℕ) : Code n Unit := do
  if src = dst then pure ()
  else do
    let dst ← txnRowModify gen dst
    let s ← Prog.get
    -- omit duplicates
    if ((s.weakRefs.filter fun w => w.dst = dst).getLast?.map WeakRef.src) = some src then pure ()
    else Prog.modify fun s => { s with weakRefs := s.weakRefs ++ [⟨src, dst⟩] }

/-- One of the two loops of `assess_weak_refs()` over the elements of a datum, from element `i`
on; `part` selects the keys or the values.  The second result is `zero`. -/
def assessLoop (src : ℕ) (refTable : Fin n) (part : Atom × Option Atom → Atom) :
    ℕ → ℕ → Datum → Bool → Code n (Datum × Bool)
  | 0, _, d, zero => return (d, zero)
  | fuel + 1, i, d, zero => do
    match d.pairs[i]? with
    | none => return (d, zero)
    | some p =>
      match (← Prog.get).rows.lookup (refTable, (part p).asUuid) with
      | some dst => do
        addWeakRef gen src dst
        assessLoop src refTable part fuel (i + 1) d zero
      | none =>
        assessLoop src refTable part fuel i (d.removeUnsafe i)
          (zero || (part p).asUuid.isZero)

/-- The loop, for the keys or the values of a weak reference type. -/
def assessAtoms (src : ℕ) (base : BaseType n) (part : Atom × Option Atom → Atom) (d : Datum)
    (zero : Bool) : Code n (Datum × Bool) :=
  match base.weakRef with
  | none => return (d, zero)
  | some t => assessLoop gen src t part d.n 0 d zero

/-- A value, where there is one. -/
def valuePart (p : Atom × Option Atom) : Atom := p.2.getD (.uuid Uuid.zero)

/-- The end of `assess_weak_refs()`, for a column that has become smaller. -/
def pruneColumn (k : Key n) (new : ℕ) (c : Column n) (orig d : Datum) (zero : Bool) :
    Code n Unit := do
  let r ← getTxnRow k
  Prog.modify (·.putTxnRow k { r with
    changed := fun i => i = colVersion || i = c.index || r.changed i })
  let row ← deref new
  Prog.modify (·.setRow new (row.setField c.index d.sort))
  if d.sort.hasDuplicate then crash
  else if d.n < c.type.nMin then
    if zero ∧ r.old.isNone then fail (.weakZero c.index k)
    else fail (.weakDeleted (orig.n - d.n) c.index k r.old.isNone)
  else pure ()

/-- `assess_weak_refs()`, for a column. -/
def assessColumn (k : Key n) (new : ℕ) (c : Column n) : Code n Unit := do
  let row ← deref new
  let orig := row.field c.index
  let (d, zero) ← assessAtoms gen new c.type.key Prod.fst orig false
  let (d, zero) ← assessAtoms gen new c.type.value valuePart d zero
  if d.n = orig.n then pure () else pruneColumn k new c orig d zero

/-- The body of the first loop of `assess_weak_refs()`: the source of a weak reference is marked as
modified. -/
def pullSource (w : WeakRef) : Code n Unit := do
  let src ← deref w.src
  if ((← Prog.get).txnRows.lookup src.key).isSome then pure ()
  else do
    let _ ← txnRowModify gen w.src
    pure ()

def assessWeakRefs (k : Key n) : Code n Unit := do
  let r ← getTxnRow k
  Prog.ifSome r.old fun old => do
    Prog.each (pullSource gen) ((← Prog.get).weakRefs.filter fun w => w.dst = old)
  Prog.ifSome r.new fun new => Prog.each (assessColumn gen k new) (σ.table k.1).columns

def indexSearch (s : Db n) (index : List ℕ) (row : Row n) (i : ℕ) (columns : List (Column n))
    (hash : BitVec 32) : Option (Row n) :=
  (index.filterMap s.heap).find? fun irow =>
    irow.indexHash i = hash && row.equalColumns irow columns

/-- `check_index_uniqueness()`, for index `i`. -/
def checkIndex (k : Key n) (new : ℕ) (index : List (Column n) × ℕ) : Code n Unit := do
  let (columns, i) := index
  let row ← deref new
  let s ← Prog.get
  let hash := row.hashColumns columns 0
  match indexSearch s (s.txnIndexes k.1 i) row i columns hash with
  | some irow => fail (.duplicateIndex k.1 i irow.uuid row.uuid)
  | none =>
    match (indexSearch s (s.indexes k.1 i) row i columns hash).filter fun irow =>
        (s.txnRows.lookup irow.key).isNone with
    | some irow => fail (.duplicateIndex k.1 i irow.uuid row.uuid)
    | none => Prog.modify fun s =>
      { s.setRow new { row with indexHash := update row.indexHash i hash } with
        txnIndexes := update s.txnIndexes k.1
          (update (s.txnIndexes k.1) i (new :: s.txnIndexes k.1 i)) }

def checkIndexUniqueness (k : Key n) : Code n Unit := do
  let r ← getTxnRow k
  Prog.ifSome r.new fun new => Prog.each (checkIndex k new) (σ.table k.1).indexes.zipIdx

/-! ## Commit -/

/-- The indexes of a table after `f` has been applied to each. -/
def mapIndexes (s : Db n) (t : Fin n) (f : List ℕ → List ℕ) : Db n :=
  { s with
    indexes := update s.indexes t fun i =>
      if i < (σ.table t).indexes.length then f (s.indexes t i) else s.indexes t i }

def txnRowCommit (k : Key n) : Code n Unit := do
  let r ← getTxnRow k
  Prog.ifSome r.old fun old => Prog.modify fun s => mapIndexes σ s k.1 (·.erase old)
  Prog.ifSome r.new fun new => Prog.modify fun s => mapIndexes σ s k.1 (new :: ·)
  Prog.modify (·.removeTxnRow k)
  Prog.ifSome r.new fun new => do
    let row ← deref new
    Prog.modify (·.setRow new { row with nRefs := r.nRefs })
  Prog.ifSome r.old fun old => Prog.modify (·.rowDestroy old)

def updateRefCounts (order : ℕ → ℕ → ℕ) : Code n Unit := do
  forEachTxnRow (order 1) (updateRowRefCount σ gen)
  forEachTxnRow (order 2) checkRefCount

/-- The part of `ovsdb_txn_commit()` between determining the changes and checking the indexes.  It
settles which rows there are and what is in them. -/
def txnSettle (order : ℕ → ℕ → ℕ) : Code n Unit := do
  updateRefCounts σ gen order
  wrapBug (forEachTxnRow (order 3) (collectGarbage σ gen))
  checkMaxRows σ
  forEachTxnRow (order 4) (assessWeakRefs σ gen)

/-- The part of `ovsdb_txn_commit()` between determining the changes and the replicas. -/
def txnCheck (order : ℕ → ℕ → ℕ) : Code n Unit := do
  txnSettle σ gen order
  forEachTxnRow (order 5) (checkIndexUniqueness σ)

/-- `ovsdb_txn_abort(txn); return error;` after an error. -/
def orAbort (order : ℕ → ℕ) (m : Code n Unit) : Code n Unit := fun s =>
  match m s with
  | (.error (.error e), s') => (do
      txnAbort order
      fail e : Code n Unit) s'
  | r => r

/-- "Finalize commit." -/
def txnFinish (order : ℕ → ℕ) : Code n Unit := do
  forEachTxnRow order (txnRowCommit σ)
  if (← Prog.get).txnTables.isEmpty then pure () else crash

/-- `ovsdb_txn_commit()`.  `replica` is what the first replica reports. -/
def txnCommit (order : ℕ → ℕ → ℕ) (replica : Code n Unit) : Code n Unit := do
  forEachTxnRow (order 0) (determineChanges σ)
  if (← Prog.get).txnTables.isEmpty then txnAbort (order 6)
  else do
    orAbort (order 6) do
      txnCheck σ gen order
      replica
    txnFinish σ (order 7)

/-- What a client of a transaction does. -/
inductive Op (n : ℕ) where
  /-- `ovsdb_txn_row_insert()` of a row with these columns. -/
  | insert (k : Key n) (data : ℕ → Datum)
  /-- `ovsdb_txn_row_modify()`, and then writes to columns. -/
  | modify (k : Key n) (writes : List (ℕ × Datum))
  /-- `ovsdb_txn_row_delete()`. -/
  | delete (k : Key n)

/-- Performs an operation.  A client passes rows that it has found in a table, and gives an
inserted row a UUID that is not in use. -/
def Op.run : Op n → Code n Unit
  | .insert k data => do
    let s ← Prog.get
    if (s.rows.lookup k).isNone ∧ (s.txnRows.lookup k).isNone then txnRowInsert gen k data
    else crash
  | .modify k writes => do
    match (← Prog.get).rows.lookup k with
    | none => crash
    | some a => do
      let a ← txnRowModify gen a
      Prog.each (fun w : ℕ × Datum => do
        let row ← deref a
        Prog.modify (·.setRow a (row.setField w.1 w.2))) writes
  | .delete k => do
    match (← Prog.get).rows.lookup k with
    | none => crash
    | some a => txnRowDelete a

/-- How a transaction is ended. -/
inductive End (n : ℕ) where
  | commit (replica : Option (TxnError n))
  | abort

/-- A whole transaction. -/
def runTxn (order : ℕ → ℕ → ℕ) (ops : List (Op n)) (ending : End n) : Code n Unit := do
  Prog.each (Op.run gen) ops
  match ending with
  | .abort => txnAbort (order 6)
  | .commit none => txnCommit σ gen order (pure ())
  | .commit (some e) => txnCommit σ gen order (fail e)

end

end Ovsdb

end OVS
