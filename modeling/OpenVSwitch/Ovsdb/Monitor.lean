import OpenVSwitch.Json.Lexer
import OpenVSwitch.Ovsdb.Execution

/-!
# Monitors

`ovsdb/jsonrpc-server.c`: a session may monitor columns of tables.  It gets the rows of these tables
in the reply to its request, and then a notification with what has changed whenever it is flushed.

**Changes are coalesced.**  A monitor is a replica: it is told about every transaction that is
committed, and keeps for each row that has changed since the last flush what the row was then and
what it is now.  Row updates are composed of that.

**Messages are text.**  A client applies row updates as they come (`Client`), after it has read them
(`RowUpdate.read`).  Integers, strings, booleans and UUIDs are read as they were written, and so are
names, so that the messages can carry the data themselves, and columns are numbers.  But a real is
written with 15 digits, and a client reads what these stand for.  The client is not part of the
code.
-/

namespace OVS

namespace Ovsdb

variable {n : ℕ}

/-! ## Monitors -/

/-- `enum ovsdb_jsonrpc_monitor_selection`. -/
inductive ChangeKind where
  | initial
  | insert
  | delete
  | modify
deriving DecidableEq

/-- A set of kinds of changes. -/
abbrev Selection := ChangeKind → Bool

/-- `struct ovsdb_jsonrpc_monitor_column`. -/
structure MonitorColumn (n : ℕ) where
  column : Column n
  select : Selection

/-- `struct ovsdb_jsonrpc_monitor_table`, without the changes. -/
structure MonitorTable (n : ℕ) where
  columns : List (MonitorColumn n)
  select : Selection

/-- `struct ovsdb_jsonrpc_monitor_row`: the data of the columns monitored. -/
structure MonitorRow where
  old : Option (List Datum)
  new : Option (List Datum)

/-- `struct ovsdb_jsonrpc_monitor`, with the changes of all tables. -/
structure Monitor (n : ℕ) where
  tables : Fin n → Option (MonitorTable n)
  changes : AList fun _ : Key n => MonitorRow

/-- A monitor request for a table. -/
structure MonitorRequest where
  columns : Option (List ℕ)
  select : Selection

/-- `ovsdb_jsonrpc_parse_monitor_request()`. -/
def parseMonitorRequest (ts : TableSchema n) (mt : MonitorTable n) (r : MonitorRequest) :
    Option (MonitorTable n) :=
  let columns : Option (List (Column n)) :=
    match r.columns with
    | some cs => cs.mapM fun i => ts.columns.find? fun c => c.index = i
    | none => some (ts.columns.filter fun c => c.index ≠ colUuid)
  columns.map fun cs =>
    { columns := mt.columns ++ cs.map fun c => ⟨c, r.select⟩
      select := fun kind => mt.select kind || r.select kind }

/-- The part of `ovsdb_jsonrpc_monitor_create()` for one table. -/
def monitorTable (ts : TableSchema n) (rs : List MonitorRequest) : Option (MonitorTable n) :=
  (rs.foldlM (parseMonitorRequest ts) ⟨[], fun _ => false⟩).filter fun mt =>
    (mt.columns.map fun c => c.column.index).Nodup

/-- `ovsdb_txn_for_each_change()`: the rows of a transaction, as they were and as they are. -/
def Db.changes (s : Db n) : List (Key n × Option (Row n) × Option (Row n)) :=
  (s.txnRows.entries.filter fun e => e.2.old.isSome || e.2.new.isSome).map fun e =>
    (e.1, e.2.old.bind s.heap, e.2.new.bind s.heap)

namespace MonitorTable

/-- `clone_monitor_row_data()`. -/
def cloneRowData (mt : MonitorTable n) (row : Row n) : List Datum :=
  mt.columns.map fun c => row.field c.column.index

/-- `update_monitor_row_data()`. -/
def updateRowData (mt : MonitorTable n) (row : Row n) (data : List Datum) : List Datum :=
  List.zipWith (fun c dst => if (row.field c.column.index).equals dst then dst
    else row.field c.column.index) mt.columns data

/-- What `ovsdb_jsonrpc_monitor_change_cb()` does to the change of a row.  There is no result if a
null pointer is followed. -/
def recordChange (mt : MonitorTable n) (change : Option MonitorRow) (old new : Option (Row n)) :
    Option (Option MonitorRow) :=
  match change with
  | none => some (some ⟨old.map mt.cloneRowData, new.map mt.cloneRowData⟩)
  | some change =>
    match new with
    | some row =>
      match change.new with
      | some data => some (some { change with new := some (mt.updateRowData row data) })
      | none => if mt.columns.isEmpty then some (some change) else none
    | none =>
      -- a row that was added and then deleted is forgotten
      if change.old.isNone then some none else some (some { change with new := none })

end MonitorTable

namespace Monitor

/-- `ovsdb_jsonrpc_monitor_change_cb()`. -/
def changeCb (m : Monitor n) (k : Key n) (old new : Option (Row n)) : Option (Monitor n) :=
  match m.tables k.1 with
  | none => some m
  | some mt =>
    (mt.recordChange (m.changes.lookup k) old new).map fun change => { m with
      changes :=
        match change with
        | none => m.changes.erase k
        | some change => m.changes.insert k change }

/-- `ovsdb_jsonrpc_monitor_commit()`. -/
def commit (m : Monitor n) (changes : List (Key n × Option (Row n) × Option (Row n))) :
    Option (Monitor n) :=
  changes.foldlM (fun m change => m.changeCb change.1 change.2.1 change.2.2) m

end Monitor

/-! ## Updates -/

/-- A `<row-update>`: columns and their values. -/
structure RowUpdate where
  old : Option (List (ℕ × Datum))
  new : Option (List (ℕ × Datum))

namespace MonitorTable

/-- The columns that are sent for a kind of change, with their values. -/
def columnsFor (mt : MonitorTable n) (kind : ChangeKind) (data : List Datum) : List (ℕ × Datum) :=
  ((mt.columns.zip data).filter fun p => p.1.select kind).map fun p => (p.1.column.index, p.2)

/-- `ovsdb_jsonrpc_monitor_compose_row_update()`. -/
def composeRowUpdate (mt : MonitorTable n) (row : MonitorRow) (initial : Bool) :
    Option RowUpdate :=
  if initial then
    if mt.select .initial then some ⟨none, some (mt.columnsFor .initial (row.new.getD []))⟩
    else none
  else
    match row.old, row.new with
    | none, new =>
      if mt.select .insert then some ⟨none, some (mt.columnsFor .insert (new.getD []))⟩ else none
    | some old, none =>
      if mt.select .delete then some ⟨some (mt.columnsFor .delete old), none⟩ else none
    | some old, some new =>
      if mt.select .modify then
        let changed := fun p : MonitorColumn n × Datum × Datum => !p.2.1.equals p.2.2
        let columns := mt.columns.zip (old.zip new)
        if columns.any changed then
          some ⟨some ((columns.filter fun p => p.1.select .modify && changed p).map fun p =>
            (p.1.column.index, p.2.1)), some (mt.columnsFor .modify new)⟩
        else none
      else none

end MonitorTable

namespace Monitor

/-- `ovsdb_jsonrpc_monitor_compose_table_update()`. -/
def composeTableUpdate (m : Monitor n) (initial : Bool) : List (Key n × RowUpdate) × Monitor n :=
  (m.changes.entries.filterMap fun e => (m.tables e.1.1).bind fun mt =>
    (mt.composeRowUpdate e.2 initial).map fun u => (e.1, u), { m with changes := ∅ })

/-- The rows in `ovsdb_jsonrpc_monitor_get_initial()`. -/
def initialRows (m : Monitor n) (db : Db n) : List (Key n × Option (Row n) × Option (Row n)) :=
  (db.rows.keys.filter fun k => (m.tables k.1).any fun mt => mt.select .initial).map fun k =>
    (k, none, db.row k)

/-- The tables of a monitor, before it knows of any row. -/
def ofRequests (σ : Schema n) (requests : Fin n → Option (List MonitorRequest)) : Monitor n :=
  ⟨fun t => (requests t).bind (monitorTable (σ.table t)), ∅⟩

/-- `ovsdb_jsonrpc_monitor_create()`: the initial reply, and the monitor. -/
def create (σ : Schema n) (db : Db n) (requests : Fin n → Option (List MonitorRequest)) :
    Option (List (Key n × RowUpdate) × Monitor n) :=
  if ∀ t, (requests t).isSome → ((ofRequests σ requests).tables t).isSome then
    ((ofRequests σ requests).commit ((ofRequests σ requests).initialRows db)).map
      (·.composeTableUpdate true)
  else none

end Monitor

/-! ## The text of a message -/

/-- The conversions between numbers and their text, and from integers to doubles. -/
structure NumberFormat extends DoubleFormat where
  ofInt : BitVec 64 → {d : Double // d.isFinite = true}
  ofInt_zero : (ofInt 0).1 = Double.zero
  print_zero : print Double.zero = CString.lit "0"
  print_negZero : print Double.negZero = CString.lit "-0"

variable (F : NumberFormat)

/-- What a client reads for an atom: for a real, what `json_lex_number()` and
`ovsdb_atom_from_json()` make of what `json_serialize()` has written.  There is no result if that is
too large for a double. -/
def Atom.read : Atom → Option Atom
  | real d =>
    match numberToken F.toDoubleFormat (F.print d.1) with
    | .ok (.integer i) => some (real (F.ofInt i))
    | .ok (.real r) => if h : r.isFinite = true then some (real ⟨r, h⟩) else none
    | _ => none
  | a => some a

/-- What a client reads for an element of a set or a map. -/
def readPair (p : Atom × Option Atom) : Option (Atom × Option Atom) :=
  (p.1.read F).bind fun key =>
    match p.2 with
    | none => some (key, none)
    | some value => (value.read F).map fun value => (key, some value)

/-- What a client reads for a datum, element by element.  Two elements of a set may be read as the
same. -/
def Datum.read (d : Datum) : Option Datum := (d.pairs.mapM (readPair F)).map Datum.mk

/-- What a client reads for the columns in a row update. -/
def readColumns (columns : List (ℕ × Datum)) : Option (List (ℕ × Datum)) :=
  columns.mapM fun p => (p.2.read F).map (p.1, ·)

/-- The same, for columns that may be missing. -/
def readColumns? : Option (List (ℕ × Datum)) → Option (Option (List (ℕ × Datum)))
  | none => some none
  | some columns => (readColumns F columns).map some

def RowUpdate.read (u : RowUpdate) : Option RowUpdate :=
  (readColumns? F u.old).bind fun old => (readColumns? F u.new).map fun new => ⟨old, new⟩

/-! ## Clients -/

/-- The rows that a client holds, with their columns. -/
abbrev Client (n : ℕ) := Key n → Option (ℕ → Option Datum)

/-- A row after a row update: deleted if there is no `new`, and else overwritten with it. -/
def RowUpdate.apply (u : RowUpdate) (held : Option (ℕ → Option Datum)) :
    Option (ℕ → Option Datum) :=
  u.new.map fun columns i => (columns.lookup i).or ((held.getD fun _ => none) i)

/-- Applies updates, one after the other. -/
def Client.apply (client : Client n) (updates : List (Key n × RowUpdate)) : Client n :=
  updates.foldl (fun client u => Function.update client u.1 (u.2.apply (client u.1))) client

/-- Reads a message and applies it. -/
def Client.receive (client : Client n) (updates : List (Key n × RowUpdate)) : Option (Client n) :=
  (updates.mapM fun u : Key n × RowUpdate => (u.2.read F).map (u.1, ·)).map client.apply

end Ovsdb

end OVS
