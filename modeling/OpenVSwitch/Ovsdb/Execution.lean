import OpenVSwitch.Ovsdb.Contents

/-!
# Execution of transaction requests

`ovsdb/execution.c`: the operations of a `transact` request are executed one after the other in one
transaction, which is committed after the last one.

**Operations** have their arguments parsed already.  A condition is any function of a row, and so
are the mutations of a row.  An operation whose parsing or argument checking fails is `invalid`.
The UUIDs of the rows that a request inserts are part of it: who executes a request chooses those
that `ovsdb_execute_insert()` draws.

**Versions.**  The `_version` of a row that the transaction has changed is a new UUID.  No argument
of a request can have it, so an operation sees no version of such a row.

The operation `assert` and what operations report are left out.
-/

namespace OVS

namespace Ovsdb

variable {n : ℕ}

def llongMax : ℤ := 2 ^ 63 - 1

/-! ## Rows -/

/-- A row as operations see it. -/
structure RowView where
  uuid : Uuid
  version : Option Uuid
  data : ℕ → Datum

namespace RowView

/-- The member `fields`. -/
def field (r : RowView) (i : ℕ) : Option Datum :=
  if i = colUuid then some (Datum.ofUuid r.uuid)
  else if i = colVersion then r.version.map Datum.ofUuid
  else some (r.data i)

/-- `ovsdb_row_equal_columns()`. -/
def equalColumns (a b : RowView) (columns : List (Column n)) : Bool :=
  columns.all fun c =>
    match a.field c.index, b.field c.index with
    | some x, some y => x.equals y
    | _, _ => false

/-- `ovsdb_row_hash_columns()`. -/
def hashColumns (r : RowView) (columns : List (Column n)) (basis : BitVec 32) : BitVec 32 :=
  columns.foldl (fun basis c => ((r.field c.index).getD ⟨[]⟩).hash c.type basis) basis

end RowView

/-- A key as operations see it: the row, and for a row of the transaction whether it has a committed
version. -/
structure KeyView where
  row : Option RowView
  txn : Option Bool

/-- The database as operations see it. -/
abbrev View (n : ℕ) := Key n → KeyView

/-- The rows in a transaction. -/
def Db.view (s : Db n) : View n := fun k =>
  ⟨(s.row k).map fun row =>
      ⟨row.uuid, if (s.txnRows.lookup k).isNone then some row.version else none, row.data⟩,
    (s.txnRows.lookup k).map fun r => r.old.isSome⟩

/-- `ovsdb_query()`: the rows of a table for which a condition holds. -/
def Db.query (s : Db n) (table : Fin n) (condition : RowView → Bool) : List RowView :=
  ((s.rows.keys.filter fun k => k.1 = table).filterMap fun k => (s.view k).row).filter condition

/-! ## Waiting -/

/-- The arguments of a `wait` operation. -/
structure Wait (n : ℕ) where
  /-- In milliseconds, as an integer. -/
  timeout : Option ℤ
  table : Fin n
  condition : RowView → Bool
  columns : List (Column n)
  /-- Whether `until` is `"=="`. -/
  untilEqual : Bool
  rows : List RowView

def rowHashContains (columns : List (Column n)) (rh : List RowView) (row : RowView) : Bool :=
  rh.any fun node =>
    node.hashColumns columns 0 = row.hashColumns columns 0 && row.equalColumns node columns

def rowHashInsert (columns : List (Column n)) (rh : List RowView) (row : RowView) : List RowView :=
  if rowHashContains columns rh row then rh else row :: rh

/-- The query of a `wait` operation with `ovsdb_execute_wait_query_cb()`: the rows that it finds, if
all of them are expected. -/
def waitQuery (columns : List (Column n)) (expected : List RowView) :
    List RowView → List RowView → Option (List RowView)
  | [], actual => some actual
  | row :: rows, actual =>
    if rowHashContains columns expected row then
      waitQuery columns expected rows (rowHashInsert columns actual row)
    else none

namespace Wait

/-- The comparison of `ovsdb_execute_wait()`. -/
def equal (w : Wait n) (s : Db n) : Bool :=
  let expected := w.rows.foldl (rowHashInsert w.columns) []
  match waitQuery w.columns expected (s.query w.table w.condition) [] with
  | none => false
  | some actual => actual.length = expected.length

end Wait

/-! ## Operations -/

/-- The operations of a request. -/
inductive Operation (n : ℕ) where
  | insert (k : Key n) (data : ℕ → Datum)
  | select
  | update (table : Fin n) (condition : RowView → Bool) (columns : List (Column n))
      (data : ℕ → Datum)
  | mutate (table : Fin n) (condition : RowView → Bool)
      (mutations : RowView → List (ℕ × Datum) × Bool)
  | delete (table : Fin n) (condition : RowView → Bool)
  | wait (w : Wait n)
  | commit
  | abort
  | comment
  | invalid

/-- How an operation ends.  `blocked` is the error `"not supported"`. -/
inductive OpResult where
  | ok
  | error
  | blocked
deriving DecidableEq

/-- `update_row_cb()`. -/
def updateRow (table : Fin n) (columns : List (Column n)) (data : ℕ → Datum) (row : RowView) :
    Option (Op n) :=
  if row.equalColumns ⟨row.uuid, row.version, data⟩ columns then none
  else some (.modify (table, row.uuid) (columns.map fun c => (c.index, data c.index)))

/-- The query of a `mutate` operation with `mutate_row_cb()`: what it does to rows, and whether it
comes to the end.  `mutations` are the columns that `ovsdb_mutation_set_execute()` writes, and
whether it succeeds. -/
def mutateRows (table : Fin n) (mutations : RowView → List (ℕ × Datum) × Bool) :
    List RowView → List (Op n) × Bool
  | [] => ([], true)
  | row :: rows =>
    let op := .modify (table, row.uuid) (mutations row).1
    if (mutations row).2 then
      let rest := mutateRows table mutations rows
      (op :: rest.1, rest.2)
    else ([op], false)

namespace Operation

/-- What an operation does to rows, and whether it succeeds. -/
def effects (s : Db n) : Operation n → List (Op n) × Bool
  | insert k data => ([.insert k data], true)
  | select => ([], true)
  | update table condition columns data =>
    ((s.query table condition).filterMap (updateRow table columns data), true)
  | mutate table condition mutations => mutateRows table mutations (s.query table condition)
  | delete table condition =>
    ((s.query table condition).map fun row => .delete (table, row.uuid), true)
  | wait _ => ([], true)
  | commit => ([], true)
  | abort => ([], false)
  | comment => ([], true)
  | invalid => ([], false)

end Operation

/-- `ovsdb_execute_wait()`: the result, and the new `x->timeout_msec`. -/
def executeWait (elapsedMsec : ℤ) (w : Wait n) (timeoutMsec : ℤ) (s : Db n) : OpResult × ℤ :=
  match w.timeout with
  | none => (if w.untilEqual = w.equal s then .ok else .blocked, timeoutMsec)
  | some timeout =>
    if timeout < 0 then (.error, timeoutMsec)
    else
      let timeoutMsec := if timeout < timeoutMsec then timeout else timeoutMsec
      (if w.untilEqual = w.equal s then .ok
        else if timeout ≤ elapsedMsec then .error else .blocked, timeoutMsec)

section

variable (gen : ℕ → Uuid) (elapsedMsec : ℤ)

/-- Executes an operation other than `wait`. -/
def executeEffects (op : Operation n) (timeoutMsec : ℤ) (s : Db n) :
    Option (OpResult × ℤ × Db n) :=
  match Prog.each (Op.run gen) (op.effects s).1 s with
  | (.error _, _) => none
  | (.ok _, s') => some (if (op.effects s).2 then .ok else .error, timeoutMsec, s')

/-- Executes an operation.  There is no result if an assertion fails. -/
def executeOp (op : Operation n) (timeoutMsec : ℤ) (s : Db n) : Option (OpResult × ℤ × Db n) :=
  match op with
  | .wait w =>
    let res := executeWait elapsedMsec w timeoutMsec s
    some (res.1, res.2, s)
  | op => executeEffects gen op timeoutMsec s

/-- The loop of `ovsdb_execute()`. -/
def executeOps : List (Operation n) → ℤ → Db n → Option (OpResult × ℤ × Db n)
  | [], timeoutMsec, s => some (.ok, timeoutMsec, s)
  | op :: ops, timeoutMsec, s =>
    match executeOp gen elapsedMsec op timeoutMsec s with
    | none => none
    | some (.ok, timeoutMsec, s) => executeOps ops timeoutMsec s
    | some res => some res

end

/-! ## Requests -/

/-- `ovsdb_txn_commit()`, with what a replica sees of a transaction that is committed.  Only the
first replica may report an error. -/
def txnCommitObserve {α : Type} (σ : Schema n) (gen : ℕ → Uuid) (order : ℕ → ℕ → ℕ)
    (replica : Code n Unit) (nothing : α) (observe : Db n → α) : Code n α := do
  forEachTxnRow (order 0) (determineChanges σ)
  if (← Prog.get).txnTables.isEmpty then do
    txnAbort (order 6)
    return nothing
  else do
    orAbort (order 6) do
      txnCheck σ gen order
      replica
    let seen := observe (← Prog.get)
    txnFinish σ (order 7)
    return seen

/-- What is unspecified when a transaction is committed, and what the first replica reports. -/
structure Choice (n : ℕ) where
  gen : ℕ → Uuid
  order : ℕ → ℕ → ℕ
  replica : Option (TxnError n)

/-- Commits a transaction.  An error leaves nothing to be seen. -/
def commitObserve {α : Type} (σ : Schema n) (ch : Choice n) (nothing : α) (observe : Db n → α)
    (s : Db n) : Option (α × Db n) :=
  match txnCommitObserve σ ch.gen ch.order (ch.replica.elim (pure ()) fail) nothing observe s with
  | (.error .crash, _) => none
  | (.error (.error _), s) => some (nothing, s)
  | (.ok seen, s) => some (seen, s)

/-- Commits a transaction, and says whether that sets `run_triggers`. -/
def commitTxn (σ : Schema n) (ch : Choice n) (s : Db n) : Option (Bool × Db n) :=
  commitObserve σ ch false (fun _ => true) s

/-- How `ovsdb_execute()` ends: it returns results, and may have set `run_triggers`, or it blocks
and sets `*timeout_msec`. -/
inductive ExecResult where
  | done (runTriggers : Bool)
  | blocked (timeoutMsec : ℤ)
deriving DecidableEq

/-- Aborts a transaction. -/
def abortTxn (ch : Choice n) (res : ExecResult) (s : Db n) : Option (ExecResult × Db n) :=
  match txnAbort (ch.order 6) s with
  | (.error _, _) => none
  | (.ok _, s) => some (res, s)

/-- `ovsdb_execute()`.  A request without operations is one that does not have the right form. -/
def execute (σ : Schema n) (ch : Choice n) (elapsedMsec : ℤ)
    (request : Option (List (Operation n))) (s : Db n) : Option (ExecResult × Db n) :=
  match request with
  | none => some (.done false, s)
  | some ops =>
    match executeOps ch.gen elapsedMsec ops llongMax s with
    | none => none
    | some (.ok, _, s) => (commitTxn σ ch s).map fun res => (.done res.1, res.2)
    | some (.error, _, s) => abortTxn ch (.done false) s
    | some (.blocked, timeoutMsec, s) => abortTxn ch (.blocked timeoutMsec) s

end Ovsdb

end OVS
