import OpenVSwitch.Ovsdb.ExecutionView
import OpenVSwitch.Ovsdb.Monitor

/-!
# Clients of monitors

* `Tracks` is the invariant of a pending change: it relates what a row was at the last flush and
  what it is now.  `Tracks.record` says that every transaction keeps it.
* `Holds` relates what a client holds of a row with what the row is.  `Tracks.flush` says what a
  flush does to it.

* `Client.read` is what a client holds that reads the text of the messages instead of getting the
  data themselves.  `Client.read_of_receive` says that messages keep it so.

**The main result** is `monitor_replicates`: along every run of transactions and flushes, a client
holds what the text of the rows of the last flush stands for, and each flush brings it to the
current rows.  `monitor_rounds` shows that it need not hold the data themselves.

The monitor compares values as `ovsdb_datum_equals()` does: a zero and a negative zero are equal,
and a client cannot tell them apart, either (`Datum.read_eq_of_canon_eq`).
-/

namespace OVS

namespace Ovsdb

open List Function MonitorTable Monitor
open Option hiding map_map mem_map

variable {n : ℕ}

/-! ## Columns of a row -/

namespace MonitorTable

/-- The data of a row that are monitored, from its fields. -/
def data (mt : MonitorTable n) (fields : ℕ → Datum) : List Datum :=
  mt.columns.map fun c => fields c.column.index

/-- The columns that are monitored. -/
def indexes (mt : MonitorTable n) : List ℕ := mt.columns.map fun c => c.column.index

/-- All kinds of changes are selected, for columns that are mentioned once. -/
structure Full (mt : MonitorTable n) : Prop where
  nodup : mt.indexes.Nodup
  select : ∀ kind, mt.select kind = true
  columns : ∀ c ∈ mt.columns, ∀ kind, c.select kind = true

end MonitorTable

/-- The fields of a row. -/
def Db.fields (s : Db n) (k : Key n) : Option (ℕ → Datum) := (s.row k).map Row.field

/-- The same data, as `ovsdb_datum_equals()` compares them. -/
def SameData (a b : List Datum) : Prop := a.map Datum.canon = b.map Datum.canon

lemma SameData.trans {a b c : List Datum} (h : SameData a b) (h' : SameData b c) : SameData a c :=
  Eq.trans h h'

lemma SameData.symm {a b : List Datum} (h : SameData a b) : SameData b a := Eq.symm h

lemma SameData.length_eq {a b : List Datum} (h : SameData a b) : a.length = b.length := by
  have := congrArg length h
  simpa using this

variable {data : List Datum} {db : Db n} {change : Option MonitorRow} {old new : Option (Row n)}
  {k : Key n}

section Columns

variable {mt : MonitorTable n} {f g : ℕ → Datum}

/-- Data agree if and only if all columns do. -/
lemma sameData_data_iff :
    SameData (mt.data f) (mt.data g) ↔ ∀ i ∈ mt.indexes, (f i).canon = (g i).canon := by
  simp [SameData, MonitorTable.data, indexes]

/-- `update_monitor_row_data()` copies what is different. -/
lemma sameData_updateRowData (row : Row n) (h : data.length = mt.columns.length) :
    SameData (mt.updateRowData row data) (mt.data row.field) := by
  unfold MonitorTable.updateRowData MonitorTable.data
  generalize mt.columns = cs at h
  induction cs generalizing data with
  | nil => rfl
  | cons c cs ih =>
    cases data with
    | nil => cases h
    | cons d data =>
      have htail := ih (Nat.succ.inj h)
      simp only [SameData, zipWith_cons_cons, map_cons, cons.injEq] at htail ⊢
      refine ⟨?_, htail⟩
      split
      · next heq => exact (Datum.equals_iff.1 heq).symm
      · rfl

/-- The columns in a row update. -/
lemma lookup_columnsFor (h : mt.Full) (kind : ChangeKind) (hdata : SameData data (mt.data f))
    (i : ℕ) : ((mt.columnsFor kind data).lookup i).map Datum.canon =
      if i ∈ mt.indexes then some (f i).canon else none := by
  have hselect := h.columns
  unfold columnsFor indexes
  unfold MonitorTable.data at hdata
  generalize mt.columns = cs at hdata hselect
  induction cs generalizing data with
  | nil => simp
  | cons c cs ih =>
    cases data with
    | nil => cases hdata
    | cons d data =>
      simp only [SameData, map_cons, cons.injEq] at hdata
      have htail := ih hdata.2 fun c' hc' => hselect c' (mem_cons_of_mem _ hc')
      have hc : c.select kind = true := hselect c mem_cons_self kind
      rw [zip_cons_cons, filter_cons_of_pos (by exact hc), map_cons, lookup_cons]
      by_cases hi : i = c.column.index
      · simp [hi, hdata.1]
      · simpa [hi, beq_eq_false_iff_ne.2 hi] using htail

/-- The columns in a row update are columns of the row. -/
lemma mem_columnsFor {kind : ChangeKind} (hdata : SameData data (mt.data f)) {p : ℕ × Datum}
    (hp : p ∈ mt.columnsFor kind data) : p.1 ∈ mt.indexes ∧ p.2.canon = (f p.1).canon := by
  obtain ⟨⟨c, d⟩, hq, rfl⟩ := mem_map.1 hp
  obtain ⟨i, hi⟩ := mem_iff_getElem?.1 (mem_filter.1 hq).1
  obtain ⟨hc, hd⟩ := getElem?_zip_eq_some.1 hi
  refine ⟨mem_map_of_mem (mem_of_getElem? hc), ?_⟩
  have hcanon := congrArg (·[i]?) hdata
  simpa [MonitorTable.data, hc, hd] using hcanon

end Columns

/-- The invariant of the change of a row. -/
def Tracks (mt : MonitorTable n) (flushed current : Option (ℕ → Datum)) :
    Option MonitorRow → Prop
  | none => current.map mt.data = flushed.map mt.data
  | some change => change.old = flushed.map mt.data ∧
      Option.Rel SameData change.new (current.map mt.data) ∧
      (change.old.isSome = true ∨ change.new.isSome = true)

section Tracks

variable {mt : MonitorTable n} {flushed current : Option (ℕ → Datum)}

/-- **A transaction** is recorded, unless it brings back a row that has been deleted. -/
lemma Tracks.record (h : Tracks mt flushed current change) (hold : old.map Row.field = current)
    (hsome : old.isSome = true ∨ new.isSome = true)
    (hreuse : ∀ ch, change = some ch → new.isSome = true → ch.new.isSome = true) :
    ∃ change', mt.recordChange change old new = some change' ∧
      Tracks mt flushed (new.map Row.field) change' := by
  have hclone : ∀ row? : Option (Row n),
      row?.map mt.cloneRowData = (row?.map Row.field).map mt.data := by
    intro row?
    cases row? <;> rfl
  have hself : ∀ data? : Option (List Datum), Option.Rel SameData data? data? := by
    intro data?
    cases data? with
    | none => exact .none
    | some data => exact .some rfl
  cases change with
  | none =>
    refine ⟨_, rfl, ?_, ?_, ?_⟩
    · rw [hclone, hold, ← h]
    · rw [hclone new]
      exact hself _
    · simpa using hsome
  | some ch =>
    obtain ⟨hflushed, hnew, hsome'⟩ := h
    cases new with
    | some row =>
      obtain ⟨data, hdata⟩ := isSome_iff_exists.1 (hreuse ch rfl rfl)
      refine ⟨some { ch with new := some (mt.updateRowData row data) }, ?_, hflushed, .some ?_,
        .inr rfl⟩
      · simp only [recordChange, hdata]
      · refine sameData_updateRowData row ?_
        rw [hdata] at hnew
        cases current with
        | none => cases hnew
        | some f =>
          cases hnew with
          | some hnew => rw [hnew.length_eq, MonitorTable.data, length_map]
    | none =>
      cases ho : ch.old with
      | none =>
        refine ⟨none, by simp [recordChange, ho], ?_⟩
        rw [Tracks, ← hflushed, ho]
        rfl
      | some o =>
        refine ⟨some { ch with new := none }, by simp [recordChange, ho],
          hflushed, .none, .inl ?_⟩
        simp [ho]

end Tracks

/-! ## Clients -/

/-- A client holds exactly the columns of a row that are monitored. -/
def Holds (mt : MonitorTable n) (held : Option (ℕ → Option Datum))
    (current : Option (ℕ → Datum)) : Prop :=
  Option.Rel (fun h f => ∀ i, (h i).map Datum.canon =
    if i ∈ mt.indexes then some (f i).canon else none) held current

/-- The columns of an update agree with what a client holds. -/
def Agrees (held : Option (ℕ → Option Datum)) (columns : List (ℕ × Datum)) : Prop :=
  ∀ p ∈ columns, ∃ h d, held = some h ∧ h p.1 = some d ∧ d.canon = p.2.canon

/-- The columns of an update are monitored columns of a row. -/
def AreColumns (mt : MonitorTable n) (fields : Option (ℕ → Datum)) (columns : List (ℕ × Datum)) :
    Prop :=
  ∀ p ∈ columns, ∃ f, fields = some f ∧ p.1 ∈ mt.indexes ∧ p.2.canon = (f p.1).canon

section Flush

variable {mt : MonitorTable n} {flushed current : Option (ℕ → Datum)}
  {held : Option (ℕ → Option Datum)}

variable {f : ℕ → Datum}

/-- A client cannot tell data apart that are written in the same way. -/
lemma Holds.congr {g : ℕ → Datum} (h : Holds mt held (some f))
    (hfg : SameData (mt.data f) (mt.data g)) : Holds mt held (some g) := by
  cases h with
  | some h =>
    refine .some fun i => (h i).trans ?_
    split
    · next hi => rw [sameData_data_iff.1 hfg i hi]
    · rfl

/-- A row update with all the columns of a row. -/
lemma holds_apply (hmt : mt.Full) {kind : ChangeKind} (hdata : SameData data (mt.data f))
    {old : Option (List (ℕ × Datum))} (hheld : ∀ h, held = some h → ∀ i ∉ mt.indexes, h i = none) :
    Holds mt ((RowUpdate.mk old (some (mt.columnsFor kind data))).apply held) (some f) := by
  refine .some fun i => ?_
  have hlookup := lookup_columnsFor hmt kind hdata i
  show (((mt.columnsFor kind data).lookup i).or ((held.getD fun _ => none) i)).map _ = _
  cases hl : (mt.columnsFor kind data).lookup i with
  | some d =>
    rw [← hlookup, hl]
    rfl
  | none =>
    rw [hl] at hlookup
    rw [← hlookup, none_or]
    split at hlookup
    · cases hlookup
    · next hi =>
      cases held with
      | none => rfl
      | some h => rw [getD_some, hheld h rfl i hi]

/-- A client holds no columns but those that are monitored. -/
lemma Holds.outside (h : Holds mt held current) :
    ∀ h, held = some h → ∀ i ∉ mt.indexes, h i = none := by
  rintro h rfl i hi
  cases h with
  | some h =>
    have := h i
    rw [if_neg hi, map_eq_none_iff] at this
    exact this

lemma mem_zip_data {c : MonitorColumn n} {d : Datum} (h : (c, d) ∈ mt.columns.zip (mt.data f)) :
    c.column.index ∈ mt.indexes ∧ d = f c.column.index := by
  rw [MonitorTable.data, ← map_prod_left_eq_zip, mem_map] at h
  obtain ⟨c', hc', heq⟩ := h
  cases heq
  exact ⟨mem_map_of_mem hc', rfl⟩

/-- The search for a column that has changed. -/
lemma any_changed_eq_false {cs : List (MonitorColumn n)} {old new : List Datum}
    (hold : old.length = cs.length) (hnew : new.length = cs.length) :
    ((cs.zip (old.zip new)).any fun p => !p.2.1.equals p.2.2) = false ↔ SameData old new := by
  induction cs generalizing old new with
  | nil =>
    rw [length_nil, length_eq_zero_iff] at hold hnew
    simp [hold, hnew, SameData]
  | cons c cs ih =>
    cases old with
    | nil => cases hold
    | cons o old =>
      cases new with
      | nil => cases hnew
      | cons w new =>
        have htail := ih (Nat.succ.inj hold) (Nat.succ.inj hnew)
        simp only [zip_cons_cons, any_cons, Bool.or_eq_false_iff,
          Bool.not_eq_eq_eq_not, Bool.not_false, htail, Datum.equals_iff, SameData,
          map_cons, cons.injEq]

/-- What a client holds agrees with columns of the row at the last flush. -/
lemma Holds.agrees (h : Holds mt held flushed) {columns : List (ℕ × Datum)}
    (hcolumns : AreColumns mt flushed columns) : Agrees held columns := by
  intro p hp
  obtain ⟨f, rfl, hi, hd⟩ := hcolumns p hp
  cases h with
  | some h =>
    have hcol := h p.1
    rw [if_pos hi, map_eq_some_iff] at hcol
    obtain ⟨d, hd', hcanon⟩ := hcol
    exact ⟨_, d, rfl, hd', hcanon.trans hd.symm⟩

/-- A row update for a row that is different from what it was. -/
structure Updates (mt : MonitorTable n) (held : Option (ℕ → Option Datum))
    (flushed current : Option (ℕ → Datum)) (u : RowUpdate) : Prop where
  holds : Holds mt (u.apply held) current
  changed : ¬ Option.Rel SameData (flushed.map mt.data) (current.map mt.data)
  old : ∀ columns, u.old = some columns → AreColumns mt flushed columns
  new : ∀ columns, u.new = some columns → AreColumns mt current columns

/-- The flush of a row that has been modified, perhaps back to what it was. -/
lemma flush_modified (hmt : mt.Full) {g : ℕ → Datum} {new : List Datum}
    (hheld : Holds mt held (some f)) (hnew : SameData new (mt.data g)) :
    (mt.composeRowUpdate ⟨some (mt.data f), some new⟩ false = none ∧ Holds mt held (some g)) ∨
      ∃ u, mt.composeRowUpdate ⟨some (mt.data f), some new⟩ false = some u ∧
        Updates mt held (some f) (some g) u := by
  have hlength : ∀ f, (mt.data f).length = mt.columns.length := fun f => length_map _
  have hany := any_changed_eq_false (hlength f) (hnew.length_eq.trans (hlength g))
  rw [composeRowUpdate, if_neg Bool.false_ne_true]
  dsimp only
  rw [if_pos (hmt.select _)]
  split
  · next hchanged =>
    refine .inr ⟨_, rfl, holds_apply hmt hnew hheld.outside, ?_, ?_, ?_⟩
    · rintro ⟨⟩
      next hsame =>
      rw [hany.2 (hsame.trans hnew.symm)] at hchanged
      cases hchanged
    · rintro _ ⟨⟩ p hp
      obtain ⟨q, hq, rfl⟩ := mem_map.1 hp
      obtain ⟨i, hi⟩ := mem_iff_getElem?.1 (mem_filter.1 hq).1
      rw [getElem?_zip_eq_some, getElem?_zip_eq_some] at hi
      obtain ⟨hindex, hfield⟩ :=
        mem_zip_data (mem_iff_getElem?.2 ⟨i, getElem?_zip_eq_some.2 ⟨hi.1, hi.2.1⟩⟩)
      exact ⟨f, rfl, hindex, congrArg Datum.canon hfield⟩
    · rintro _ ⟨⟩ p hp
      exact ⟨g, rfl, mem_columnsFor hnew hp⟩
  · next hchanged =>
    rw [Bool.not_eq_true] at hchanged
    exact .inl ⟨rfl, hheld.congr ((hany.1 hchanged).trans hnew)⟩

/-- **A flush** brings a client from what a row was to what it is.  It sends nothing about a row
that is as it was, and what it says about the old row agrees with what the client holds. -/
lemma Tracks.flush (hmt : mt.Full) (h : Tracks mt flushed current change)
    (hheld : Holds mt held flushed) :
    (change.bind (mt.composeRowUpdate · false) = none ∧ Holds mt held current) ∨
      ∃ u, change.bind (mt.composeRowUpdate · false) = some u ∧
        Updates mt held flushed current u := by
  cases change with
  | none =>
    refine .inl ⟨rfl, ?_⟩
    cases flushed with
    | none =>
      cases current with
      | none => exact hheld
      | some g => cases h
    | some f =>
      cases current with
      | none => cases h
      | some g =>
        refine hheld.congr ?_
        rw [show mt.data g = mt.data f from some.inj h]
        rfl
  | some change =>
    obtain ⟨old, new⟩ := change
    obtain ⟨rfl, hnew, hsome⟩ := h
    rw [bind_some]
    cases flushed with
    | none =>
      -- the row has been inserted
      cases current with
      | none =>
        cases hnew
        simp at hsome
      | some g =>
        cases hnew with
        | some hnew =>
          rw [composeRowUpdate, if_neg Bool.false_ne_true]
          refine .inr ⟨_, if_pos (hmt.select _), holds_apply hmt hnew hheld.outside, nofun, nofun,
            ?_⟩
          rintro _ ⟨⟩ p hp
          exact ⟨g, rfl, mem_columnsFor hnew hp⟩
    | some f =>
      cases current with
      | none =>
        -- it has been deleted
        cases hnew
        rw [composeRowUpdate, if_neg Bool.false_ne_true]
        refine .inr ⟨_, if_pos (hmt.select _), .none, nofun, ?_, nofun⟩
        rintro _ ⟨⟩ p hp
        exact ⟨f, rfl, mem_columnsFor rfl hp⟩
      | some g =>
        cases hnew with
        | some hnew => exact flush_modified hmt hheld hnew

end Flush

/-! ## All rows -/

section Rows

variable {m m' : Monitor n}

/-- What `ovsdb_jsonrpc_monitor_change_cb()` does to the changes. -/
lemma changeCb_spec (h : ∀ mt, m.tables k.1 = some mt →
      (mt.recordChange (m.changes.lookup k) old new).isSome = true) :
    ∃ m', m.changeCb k old new = some m' ∧ m'.tables = m.tables ∧
      (∀ k' ≠ k, m'.changes.lookup k' = m.changes.lookup k') ∧
      ∀ mt, m.tables k.1 = some mt →
        mt.recordChange (m.changes.lookup k) old new = some (m'.changes.lookup k) := by
  unfold changeCb
  cases hmt : m.tables k.1 with
  | none => exact ⟨m, rfl, rfl, fun _ _ => rfl, nofun⟩
  | some mt =>
    obtain ⟨change, hchange⟩ := isSome_iff_exists.1 (h mt hmt)
    simp only [hchange]
    refine ⟨_, rfl, rfl, fun k' hk => ?_, ?_⟩
    · cases change <;> simp [hk]
    · rintro _ ⟨⟩
      rw [hchange]
      cases change <;> simp

/-- **The changes of a transaction** are recorded row by row. -/
lemma commit_spec {changes : List (Key n × Option (Row n) × Option (Row n))}
    (hnd : (changes.map Prod.fst).Nodup)
    (h : ∀ e ∈ changes, ∀ mt, m.tables e.1.1 = some mt →
      (mt.recordChange (m.changes.lookup e.1) e.2.1 e.2.2).isSome = true) :
    ∃ m', m.commit changes = some m' ∧ m'.tables = m.tables ∧
      (∀ k ∉ changes.map Prod.fst, m'.changes.lookup k = m.changes.lookup k) ∧
      ∀ e ∈ changes, ∀ mt, m.tables e.1.1 = some mt →
        mt.recordChange (m.changes.lookup e.1) e.2.1 e.2.2 = some (m'.changes.lookup e.1) := by
  induction changes generalizing m with
  | nil => exact ⟨m, rfl, rfl, fun _ _ => rfl, nofun⟩
  | cons e changes ih =>
    rw [map_cons, nodup_cons] at hnd
    obtain ⟨m1, hm1, htables, hother, hself⟩ := changeCb_spec (h e mem_cons_self)
    have hne : ∀ e' ∈ changes, e'.1 ≠ e.1 :=
      fun e' he' heq => hnd.1 (heq ▸ mem_map_of_mem he')
    obtain ⟨m', hm', htables', hother', hself'⟩ := ih hnd.2 fun e' he' mt hmt => by
      rw [hother e'.1 (hne e' he')]
      exact h e' (mem_cons_of_mem _ he') mt (htables ▸ hmt)
    refine ⟨m', ?_, htables'.trans htables, fun k hk => ?_, fun e' he' mt hmt => ?_⟩
    · rw [commit, foldlM_cons, hm1]
      exact hm'
    · rw [map_cons, mem_cons, not_or] at hk
      rw [hother' k hk.2, hother k hk.1]
    · rcases mem_cons.1 he' with rfl | he'
      · rw [hother' e'.1 hnd.1, hself mt hmt]
      · rw [← hother e'.1 (hne e' he')]
        exact hself' e' he' mt (htables ▸ hmt)

/-- The rows that a message is about. -/
lemma mem_composeTableUpdate {initial : Bool} {u : RowUpdate} :
    (k, u) ∈ (m.composeTableUpdate initial).1 ↔ ∃ mt, m.tables k.1 = some mt ∧
      (m.changes.lookup k).bind (mt.composeRowUpdate · initial) = some u := by
  simp only [composeTableUpdate, mem_filterMap, bind_eq_some_iff,
    map_eq_some_iff, Prod.mk.injEq]
  constructor
  · rintro ⟨e, he, mt, hmt, u', hu', rfl, rfl⟩
    exact ⟨mt, hmt, e.2, AList.mem_lookup_iff.2 he, hu'⟩
  · rintro ⟨mt, hmt, row, hrow, hu⟩
    exact ⟨⟨k, row⟩, AList.mem_lookup_iff.1 hrow, mt, hmt, u, hu, rfl, rfl⟩

/-- An update names each row once. -/
lemma nodup_composeTableUpdate (m : Monitor n) (initial : Bool) :
    ((m.composeTableUpdate initial).1.map Prod.fst).Nodup := by
  rw [composeTableUpdate, Nodup, pairwise_map, pairwise_filterMap]
  have hkeys : (m.changes.entries.map Sigma.fst).Nodup := m.changes.nodupKeys
  rw [Nodup, pairwise_map] at hkeys
  refine hkeys.imp fun {e e'} hne x hx y hy => ?_
  simp only [bind_eq_some_iff, map_eq_some_iff] at hx hy
  obtain ⟨-, -, -, -, rfl⟩ := hx
  obtain ⟨-, -, -, -, rfl⟩ := hy
  exact hne

/-- What updates of different rows do to what a client holds. -/
lemma Client.apply_spec {updates : List (Key n × RowUpdate)} (hnd : (updates.map Prod.fst).Nodup)
    (client : Client n) :
    (∀ k, (∀ u, (k, u) ∉ updates) → client.apply updates k = client k) ∧
      ∀ k u, (k, u) ∈ updates → client.apply updates k = u.apply (client k) := by
  induction updates generalizing client with
  | nil => exact ⟨fun _ _ => rfl, nofun⟩
  | cons e updates ih =>
    rw [map_cons, nodup_cons] at hnd
    have hne : ∀ u, (e.1, u) ∉ updates := fun u hu => hnd.1 (mem_map.2 ⟨_, hu, rfl⟩)
    obtain ⟨hother, hself⟩ := ih hnd.2 (update client e.1 (e.2.apply (client e.1)))
    refine ⟨fun k hk => ?_, fun k u hu => ?_⟩
    · have hk' : k ≠ e.1 := by
        rintro rfl
        exact hk e.2 mem_cons_self
      exact (hother k fun u hu => hk u (mem_cons_of_mem _ hu)).trans (update_of_ne hk' _ _)
    · rcases mem_cons.1 hu with rfl | hu
      · exact (hother k hne).trans (update_self _ _ _)
      · have hk : k ≠ e.1 := by
          rintro rfl
          exact hne u hu
        exact (hself k u hu).trans (by rw [update_of_ne hk])

end Rows

/-! ## Reading messages -/

section Reading

variable {F : NumberFormat}

/-- Both zeros are read as zero: `json_lex_number()` suppresses negative ones. -/
lemma Atom.read_zero {d : {d : Double // d.isFinite = true}} (h : d.1.magnitude = 0) :
    (Atom.real d).read F = some (.real (F.ofInt 0)) := by
  have hpos : numberToken F.toDoubleFormat (CString.lit "0") = .ok (.integer 0) := rfl
  have hneg : numberToken F.toDoubleFormat (CString.lit "-0") = .ok (.integer 0) := rfl
  have hbits := d.1.bits_toNat
  rw [h, add_zero] at hbits
  cases hmsb : d.1.bits.msb with
  | false =>
    have hd : d.1 = Double.zero := by
      rw [hmsb] at hbits
      exact congrArg Double.mk (BitVec.eq_of_toNat_eq hbits)
    rw [Atom.read, hd, F.print_zero, hpos]
  | true =>
    have hd : d.1 = Double.negZero := by
      rw [hmsb] at hbits
      exact congrArg Double.mk (BitVec.eq_of_toNat_eq hbits)
    rw [Atom.read, hd, F.print_negZero, hneg]

lemma Atom.read_canon (a : Atom) : a.canon.read F = a.read F := by
  cases a with
  | real d =>
    by_cases hd : d.1.magnitude = 0
    · rw [Atom.read_zero hd]
      refine Atom.read_zero ?_
      show d.1.canon.magnitude = 0
      rw [Double.canon, if_pos hd]
      rfl
    · have hcanon : (Atom.real d).canon = .real d := by
        simp [Atom.canon, Double.canon, hd]
      rw [hcanon]
  | _ => rfl

/-- The canonical form of a datum is written and read as the datum itself. -/
lemma Datum.read_canon (d : Datum) : d.canon.read F = d.read F := by
  have hpair : ∀ p : Atom × Option Atom,
      readPair F (p.1.canon, p.2.map Atom.canon) = readPair F p := by
    rintro ⟨key, _ | value⟩ <;> simp [readPair, Atom.read_canon]
  unfold Datum.read Datum.canon
  rw [mapM_map]
  simp only [Function.comp_def, hpair]

/-- **Data that are equal are read as the same.** -/
lemma Datum.read_eq_of_canon_eq {d d' : Datum} (h : d.canon = d'.canon) :
    d.read F = d'.read F := by
  rw [← d.read_canon, h, d'.read_canon]

/-- What a client holds that reads the messages, in terms of what it would hold if they carried the
data themselves. -/
def readRow (F : NumberFormat) (held : ℕ → Option Datum) : ℕ → Option Datum :=
  fun i => (held i).bind (Datum.read F)

/-- The same for all rows. -/
def Client.read (F : NumberFormat) (client : Client n) : Client n :=
  fun k => (client k).map (readRow F)

/-- Mapping a list succeeds when every element does, with the results in order. -/
lemma mapM_eq_some_iff {α β : Type} {f : α → Option β} {l : List α} {l' : List β} :
    l.mapM f = some l' ↔ Forall₂ (fun a b => f a = some b) l l' := by
  induction l generalizing l' with
  | nil => simp [eq_comm]
  | cons a l ih =>
    simp only [mapM_cons, Option.bind_eq_bind, Option.pure_def, bind_eq_some_iff, ih,
      forall₂_cons_left_iff, some.injEq]
    constructor
    · rintro ⟨b, hb, l', hl', rfl⟩
      exact ⟨b, l', hb, hl', rfl⟩
    · rintro ⟨b, l', hb, hl', rfl⟩
      exact ⟨b, hb, l', hl', rfl⟩

lemma isSome_mapM {α β : Type} {f : α → Option β} {l : List α}
    (h : ∀ a ∈ l, (f a).isSome) : (l.mapM f).isSome := by
  induction l with
  | nil => rfl
  | cons a l ih =>
    obtain ⟨b, hb⟩ := isSome_iff_exists.1 (h a mem_cons_self)
    obtain ⟨l', hl'⟩ := isSome_iff_exists.1 (ih fun a' ha' => h a' (mem_cons_of_mem _ ha'))
    simp [mapM_cons, hb, hl']

/-- A column that has been read. -/
lemma exists_of_mem_readColumns {columns columns' : List (ℕ × Datum)}
    (h : readColumns F columns = some columns') {p : ℕ × Datum} (hp : p ∈ columns') :
    ∃ d, (p.1, d) ∈ columns ∧ d.read F = some p.2 := by
  replace h := mapM_eq_some_iff.1 h
  induction h with
  | nil => cases hp
  | @cons q q' columns columns' hq _ ih =>
    obtain ⟨d, hd, rfl⟩ := map_eq_some_iff.1 hq
    rcases mem_cons.1 hp with rfl | hp
    · exact ⟨q.2, mem_cons_self, hd⟩
    · obtain ⟨d, hmem, hread⟩ := ih hp
      exact ⟨d, mem_cons_of_mem _ hmem, hread⟩

/-- The columns that have been read. -/
lemma lookup_readColumns {columns columns' : List (ℕ × Datum)}
    (h : readColumns F columns = some columns') (i : ℕ) :
    (∀ d, columns.lookup i = some d → (d.read F).isSome) ∧
      columns'.lookup i = (columns.lookup i).bind (Datum.read F) := by
  replace h := mapM_eq_some_iff.1 h
  induction h with
  | nil => exact ⟨nofun, rfl⟩
  | @cons p q columns columns' hp _ ih =>
    obtain ⟨j, d⟩ := p
    obtain ⟨d', hd, rfl⟩ := map_eq_some_iff.1 hp
    simp only [lookup_cons]
    split
    · simp [hd]
    · exact ih

/-- A row update that has been read does to the row what it would do with the data themselves. -/
lemma RowUpdate.apply_of_read {u u' : RowUpdate} (h : u.read F = some u')
    (held : Option (ℕ → Option Datum)) :
    u'.apply (held.map (readRow F)) = (u.apply held).map (readRow F) := by
  obtain ⟨old, -, hu'⟩ := bind_eq_some_iff.1 h
  obtain ⟨new, hnew, rfl⟩ := map_eq_some_iff.1 hu'
  clear h hu'
  unfold RowUpdate.apply
  cases hu : u.new with
  | none =>
    rw [hu] at hnew
    cases hnew
    rfl
  | some columns =>
    rw [hu] at hnew
    obtain ⟨columns', hcolumns, rfl⟩ := map_eq_some_iff.1 hnew
    simp only [Option.map_some, some.injEq]
    funext i
    obtain ⟨hreadable, hlookup⟩ := lookup_readColumns hcolumns i
    rw [hlookup, readRow]
    cases hl : columns.lookup i with
    | none =>
      cases held <;> rfl
    | some d =>
      obtain ⟨d', hd'⟩ := isSome_iff_exists.1 (hreadable d hl)
      simp [hd']

lemma RowUpdate.old_of_read {u u' : RowUpdate} (h : u.read F = some u')
    {columns : List (ℕ × Datum)} (hold : u'.old = some columns) :
    ∃ columns', u.old = some columns' ∧ readColumns F columns' = some columns := by
  obtain ⟨old, hread, hu'⟩ := bind_eq_some_iff.1 h
  obtain ⟨new, -, rfl⟩ := map_eq_some_iff.1 hu'
  obtain rfl : old = some columns := hold
  cases hu : u.old with
  | none =>
    rw [hu] at hread
    cases hread
  | some columns' =>
    rw [hu] at hread
    obtain ⟨_, hcolumns, ⟨⟩⟩ := map_eq_some_iff.1 hread
    exact ⟨columns', rfl, hcolumns⟩

/-- An update can be read when each of its columns can. -/
lemma RowUpdate.isSome_read {u : RowUpdate}
    (h : ∀ columns, u.old = some columns ∨ u.new = some columns →
      ∀ p ∈ columns, (p.2.read F).isSome) : (u.read F).isSome := by
  have hcolumns : ∀ columns? : Option (List (ℕ × Datum)),
      (∀ columns, columns? = some columns → ∀ p ∈ columns, (p.2.read F).isSome) →
        ∃ read, readColumns? F columns? = some read := by
    rintro (_ | columns) hreadable
    · exact ⟨none, rfl⟩
    · obtain ⟨columns', hread⟩ := isSome_iff_exists.1
        (isSome_mapM (f := fun p : ℕ × Datum => (p.2.read F).map (p.1, ·)) fun p hp =>
          isSome_map.trans (hreadable columns rfl p hp))
      exact ⟨some columns', congrArg (Option.map some) hread⟩
  obtain ⟨old, hold⟩ := hcolumns u.old fun columns hu => h columns (.inl hu)
  obtain ⟨new, hnew⟩ := hcolumns u.new fun columns hu => h columns (.inr hu)
  simp [RowUpdate.read, hold, hnew]

/-- **A message that is read** brings a client to where the data themselves would bring it. -/
lemma Client.read_of_receive (client : Client n) {client' : Client n}
    {updates : List (Key n × RowUpdate)}
    (h : (client.read F).receive F updates = some client') :
    client' = (client.apply updates).read F := by
  obtain ⟨updates', hread, rfl⟩ := map_eq_some_iff.1 h
  replace hread := mapM_eq_some_iff.1 hread
  clear h
  -- row update by row update
  induction hread generalizing client with
  | nil => rfl
  | @cons e e' updates updates' he _ ih =>
    obtain ⟨u, hu, rfl⟩ := map_eq_some_iff.1 he
    have hstep : update (client.read F) e.1 (u.apply (client.read F e.1)) =
        Client.read F (update client e.1 (e.2.apply (client e.1))) := by
      funext k
      by_cases hk : k = e.1
      · subst hk
        simp only [update_self, Client.read]
        exact RowUpdate.apply_of_read hu (client e.1)
      · simp [Client.read, hk]
    show Client.apply (update _ _ _) updates' = _
    rw [hstep]
    exact ih _

end Reading

/-! ## Transactions -/

section Changes

variable {σ : Schema n} {c s s0 : Db n}

lemma Restored.fields (hc : Committed c) (h : Restored c s) : s.fields = c.fields := by
  funext k
  rw [Db.fields, Db.fields, h.row hc k]

/-- What a commit leaves in the columns is what its checks have seen. -/
lemma Finished.fields (hf : Finished σ c s0 s) : s.fields = s0.fields := by
  funext k
  rw [Db.fields, hf.row k, Option.map_map]
  rfl

/-- The rows of a table are those with fields. -/
lemma fields_isSome_iff (hc : Committed c) (k : Key n) :
    (c.fields k).isSome = true ↔ k ∈ c.rows.keys := by
  rw [mem_keys_iff, ← isSome_iff_exists, Db.fields, Db.row]
  cases ha : c.rows.lookup k with
  | none => rfl
  | some a =>
    obtain ⟨row, hrow, -⟩ := hc.row k a ha
    rw [bind_some, hrow]
    rfl

/-- What `ovsdb_txn_for_each_change()` reports takes the fields of rows from `before` to `after`. -/
structure Reports (changes : List (Key n × Option (Row n) × Option (Row n)))
    (before after : Key n → Option (ℕ → Datum)) : Prop where
  nodup : (changes.map Prod.fst).Nodup
  old : ∀ e ∈ changes, e.2.1.map Row.field = before e.1
  new : ∀ e ∈ changes, e.2.2.map Row.field = after e.1
  isSome : ∀ e ∈ changes, e.2.1.isSome = true ∨ e.2.2.isSome = true
  other : ∀ k ∉ changes.map Prod.fst, after k = before k

/-- The changes a transaction reports lead from the columns before it to those after it. -/
lemma reports_changes (hc : Committed c) (hw : Within c s0) (hf : Finished σ c s0 s) :
    Reports s0.changes c.fields s.fields := by
  have hold : ∀ k r, s0.txnRows.lookup k = some r → r.old.bind s0.heap = c.row k := by
    intro k r hr
    rw [(hw.rows k).old r hr, Db.row]
    cases ha : c.rows.lookup k with
    | none => rfl
    | some a => exact hw.heap a (hc.cell_lt_next ha)
  have hnew : ∀ k r, s0.txnRows.lookup k = some r → r.new.bind s0.heap = s0.row k := by
    intro k r hr
    rw [(hw.rows k).new r hr, Db.row]
  have hmem : ∀ e ∈ s0.changes, ∃ r, s0.txnRows.lookup e.1 = some r ∧
      e.2.1 = r.old.bind s0.heap ∧ e.2.2 = r.new.bind s0.heap ∧
      (r.old.isSome = true ∨ r.new.isSome = true) := by
    intro e he
    simp only [Db.changes, mem_map, mem_filter, Bool.or_eq_true] at he
    obtain ⟨⟨k, r⟩, ⟨hmem, hsome⟩, rfl⟩ := he
    exact ⟨r, AList.mem_lookup_iff.2 hmem, rfl, rfl, hsome⟩
  refine ⟨?_, fun e he => ?_, fun e he => ?_, fun e he => ?_, fun k hk => ?_⟩
  · rw [Db.changes, map_map]
    have hkeys : (s0.txnRows.entries.map Sigma.fst).Nodup := s0.txnRows.nodupKeys
    exact hkeys.sublist (filter_sublist.map Sigma.fst)
  · obtain ⟨r, hr, heq, -⟩ := hmem e he
    rw [heq, hold e.1 r hr, Db.fields]
  · obtain ⟨r, hr, -, heq, -⟩ := hmem e he
    rw [heq, hnew e.1 r hr, hf.fields, Db.fields]
  · obtain ⟨r, hr, heq, heq', hsome⟩ := hmem e he
    rw [heq, heq']
    rcases hsome with hsome | hsome
    · left
      obtain ⟨a, ha⟩ := isSome_iff_exists.1 hsome
      have ha' := (hw.rows e.1).old r hr
      rw [ha] at ha'
      obtain ⟨row, hrow, -⟩ := hc.row e.1 a ha'.symm
      rw [hold e.1 r hr, Db.row, ← ha', bind_some, hrow]
      rfl
    · right
      obtain ⟨a, ha⟩ := isSome_iff_exists.1 hsome
      obtain ⟨-, row, hrow, -⟩ := (hw.rows e.1).cell r a hr ha
      rw [ha, bind_some, hrow]
      rfl
  · rw [hf.fields]
    cases hr : s0.txnRows.lookup k with
    | none => rw [Db.fields, Db.fields, hw.row_of_none hc hr]
    | some r =>
      have hnone : r.old = none ∧ r.new = none := by
        by_contra hne
        refine hk (mem_map.2 ⟨(k, r.old.bind s0.heap, r.new.bind s0.heap), ?_, rfl⟩)
        refine mem_map.2 ⟨⟨k, r⟩, mem_filter.2 ⟨AList.mem_lookup_iff.1 hr, ?_⟩, rfl⟩
        cases ho : r.old <;> cases hw : r.new <;> simp_all
      have hr1 := hold k r hr
      have hr2 := hnew k r hr
      rw [hnone.1] at hr1
      rw [hnone.2] at hr2
      rw [Db.fields, Db.fields, ← hr1, ← hr2]

end Changes

/-! ## Runs -/

/-- A database with a monitor, and its client. -/
structure MonitorState (n : ℕ) where
  db : Db n
  monitor : Monitor n
  /-- What a client would hold if messages carried the data themselves. -/
  client : Client n
  /-- What a client holds that reads the messages.  It gives up when it cannot read one. -/
  reader : Option (Client n)
  /-- The database at the last flush. -/
  flushed : Db n
  /-- The rows that there have been. -/
  used : List (Key n)

namespace MonitorState

variable (F : NumberFormat)

/-- The state after `ovsdb_jsonrpc_monitor_create()`, when the client has read the reply. -/
def create (σ : Schema n) (db : Db n) (requests : Fin n → Option (List MonitorRequest)) :
    Option (MonitorState n) :=
  (Monitor.create σ db requests).map fun res =>
    ⟨db, res.2, Client.apply (fun _ => none) res.1, Client.receive F (fun _ => none) res.1, db,
      db.rows.keys⟩

/-- A transaction, before the monitor is told about it. -/
def commitDb (σ : Schema n) (ops : List (Op n)) (ch : Choice n) (db : Db n) :
    Option (List (Key n × Option (Row n) × Option (Row n)) × Db n) :=
  match Prog.each (Op.run ch.gen) ops db with
  | (.error _, _) => none
  | (.ok _, s) => commitObserve σ ch [] Db.changes s

/-- A transaction.  There is no result if an assertion fails, or if a null pointer is followed. -/
def commit (σ : Schema n) (ops : List (Op n)) (ch : Choice n) (S : MonitorState n) :
    Option (MonitorState n) :=
  (commitDb σ ops ch S.db).bind fun res => (S.monitor.commit res.1).map fun m =>
    { S with db := res.2, monitor := m, used := S.used ++ res.2.rows.keys }

/-- `ovsdb_jsonrpc_monitor_flush_all()`: the message, and the state after the client has read and
applied it. -/
def flush (S : MonitorState n) : List (Key n × RowUpdate) × MonitorState n :=
  let res := S.monitor.composeTableUpdate false
  (res.1, { S with
    monitor := res.2
    client := S.client.apply res.1
    reader := S.reader.bind (·.receive F res.1)
    flushed := S.db })

/-- No row of a new database is one that there was before and that was deleted. -/
def NoReuse (S : MonitorState n) (db : Db n) : Prop :=
  ∀ k ∈ db.rows.keys, k ∈ S.used → k ∈ S.db.rows.keys

end MonitorState

/-- Every request is for all kinds of changes. -/
def SelectsAll (requests : Fin n → Option (List MonitorRequest)) : Prop :=
  ∀ t rs, requests t = some rs → rs ≠ [] ∧ ∀ r ∈ rs, ∀ kind, r.select kind = true

/-- The monitored columns of all rows can be read. -/
def Readable (F : NumberFormat) (tables : Fin n → Option (MonitorTable n)) (db : Db n) : Prop :=
  ∀ k mt row, tables k.1 = some mt → db.row k = some row →
    ∀ i ∈ mt.indexes, ((row.field i).read F).isSome

/-- The runs of a database with a monitor that selects all kinds of changes.  `P` holds of all
databases there. -/
inductive MonitorRun (F : NumberFormat) (σ : Schema n)
    (P : (Fin n → Option (MonitorTable n)) → Db n → Prop) : MonitorState n → Prop
  | start {db : Db n} {requests : Fin n → Option (List MonitorRequest)} {S : MonitorState n}
      (hdb : Reachable σ (fun _ => True) db) (hall : SelectsAll requests)
      (hcreate : MonitorState.create F σ db requests = some S) (hP : P S.monitor.tables S.db) :
      MonitorRun F σ P S
  | commit {S S' : MonitorState n} {ops : List (Op n)} {ch : Choice n} (h : MonitorRun F σ P S)
      (hcommit : S.commit σ ops ch = some S') (hreuse : S.NoReuse S'.db)
      (hP : P S'.monitor.tables S'.db) : MonitorRun F σ P S'
  | flush {S : MonitorState n} (h : MonitorRun F σ P S) : MonitorRun F σ P (S.flush F).2

section Runs

variable {F : NumberFormat} {σ : Schema n} {S S' : MonitorState n}

/-- What holds along every run. -/
structure MonitorOk (F : NumberFormat) (σ : Schema n) (S : MonitorState n) : Prop where
  consistent : Consistent σ (fun _ _ _ => True) S.db
  full : ∀ t mt, S.monitor.tables t = some mt → mt.Full
  tracks : ∀ k mt, S.monitor.tables k.1 = some mt →
    Tracks mt (S.flushed.fields k) (S.db.fields k) (S.monitor.changes.lookup k)
  holds : ∀ k mt, S.monitor.tables k.1 = some mt → Holds mt (S.client k) (S.flushed.fields k)
  outside : ∀ k, S.monitor.tables k.1 = none → S.client k = none
  reader : ∀ client, S.reader = some client → client = S.client.read F
  used : ∀ k ∈ S.db.rows.keys, k ∈ S.used
  pending : ∀ k ∈ S.monitor.changes.keys, k ∈ S.used

variable {ops : List (Op n)} {res : List (Key n × Option (Row n) × Option (Row n)) × Db n}
  {ch : Choice n} {mt : MonitorTable n}

/-- What a transaction does to the database. -/
lemma commitDb_spec (hc : Consistent σ (fun _ _ _ => True) db)
    (hres : MonitorState.commitDb σ ops ch db = some res) :
    Consistent σ (fun _ _ _ => True) res.2 ∧ Reports res.1 db.fields res.2.fields := by
  unfold MonitorState.commitDb at hres
  split at hres
  · cases hres
  · next s hops =>
    have hbegun := (ops_spec hc.committed fun op _ => op.writes_true).ok
      (.refl hc.committed hc.columns) hops
    rcases commitObserve_spec hc hbegun hres with ⟨hnil, hrestored⟩ | ⟨s0, hp, hf, hseen⟩
    · refine ⟨hc.restored hrestored, ?_⟩
      rw [hnil, hrestored.fields hc.committed]
      exact ⟨nodup_nil, nofun, nofun, nofun, fun _ _ => rfl⟩
    · refine ⟨hc.finished hp hf, ?_⟩
      rw [hseen]
      exact reports_changes hc.committed hp.within hf

/-- **The monitor records a transaction**, and keeps track. -/
lemma MonitorOk.record (h : MonitorOk F σ S) (hres : MonitorState.commitDb σ ops ch S.db = some res)
    (hreuse : S.NoReuse res.2) :
    ∃ m, S.monitor.commit res.1 = some m ∧ m.tables = S.monitor.tables ∧
      (∀ k mt, S.monitor.tables k.1 = some mt →
        Tracks mt (S.flushed.fields k) (res.2.fields k) (m.changes.lookup k)) ∧
      ∀ k ∈ m.changes.keys, k ∈ S.used ++ res.2.rows.keys := by
  obtain ⟨hc, hreports⟩ := commitDb_spec h.consistent hres
  have hrecord : ∀ e ∈ res.1, ∀ mt, S.monitor.tables e.1.1 = some mt →
      ∃ change', mt.recordChange (S.monitor.changes.lookup e.1) e.2.1 e.2.2 = some change' ∧
        Tracks mt (S.flushed.fields e.1) (res.2.fields e.1) change' := by
    intro e he mt hmt
    rw [← hreports.new e he]
    refine (h.tracks e.1 mt hmt).record (hreports.old e he) (hreports.isSome e he)
      fun change hchange hnew => ?_
    -- a row with a change has been there, so it has not been inserted now
    have hused : e.1 ∈ S.used := h.pending e.1 ((mem_keys_iff _ _).2 ⟨change, hchange⟩)
    have hkeys : e.1 ∈ res.2.rows.keys := by
      rw [← fields_isSome_iff hc.committed, ← hreports.new e he, isSome_map]
      exact hnew
    obtain ⟨f, hf⟩ := isSome_iff_exists.1
      ((fields_isSome_iff h.consistent.committed e.1).2 (hreuse e.1 hkeys hused))
    have htracks := h.tracks e.1 mt hmt
    rw [hchange, hf] at htracks
    obtain ⟨data, hdata⟩ : ∃ data, change.new = some data := by
      cases hch : change.new with
      | none =>
        rw [Tracks, hch] at htracks
        nomatch htracks.2.1
      | some data => exact ⟨data, rfl⟩
    rw [hdata]
    rfl
  obtain ⟨m, hm, htables, hother, hself⟩ := commit_spec hreports.nodup fun e he mt hmt => by
    obtain ⟨change', hchange', -⟩ := hrecord e he mt hmt
    rw [hchange']
    rfl
  refine ⟨m, hm, htables, fun k mt hmt => ?_, fun k hk => ?_⟩
  · by_cases hk : k ∈ res.1.map Prod.fst
    · obtain ⟨e, he, rfl⟩ := mem_map.1 hk
      obtain ⟨change', hchange', htracks⟩ := hrecord e he mt hmt
      rw [hself e he mt hmt, some.injEq] at hchange'
      rw [hchange']
      exact htracks
    · rw [hother k hk, hreports.other k hk]
      exact h.tracks k mt hmt
  · rw [mem_append]
    by_cases hk' : k ∈ res.1.map Prod.fst
    · obtain ⟨e, he, rfl⟩ := mem_map.1 hk'
      rcases hreports.isSome e he with hsome | hsome
      · refine .inl (h.used e.1 ?_)
        rw [← fields_isSome_iff h.consistent.committed, ← hreports.old e he, isSome_map]
        exact hsome
      · right
        rw [← fields_isSome_iff hc.committed, ← hreports.new e he, isSome_map]
        exact hsome
    · rw [mem_keys_iff, hother k hk', ← mem_keys_iff] at hk
      exact .inl (h.pending k hk)

/-- A commit adds its changes to the rows to be sent, and the client is right once it has them. -/
lemma MonitorOk.commit (h : MonitorOk F σ S) (hcommit : S.commit σ ops ch = some S')
    (hreuse : S.NoReuse S'.db) : MonitorOk F σ S' := by
  obtain ⟨res, hres, hm⟩ := bind_eq_some_iff.1 hcommit
  obtain ⟨m, hrecord, rfl⟩ := map_eq_some_iff.1 hm
  obtain ⟨m', hm', htables, htracks, hpending⟩ := h.record hres hreuse
  rw [hm', some.injEq] at hrecord
  subst hrecord
  obtain ⟨hc, -⟩ := commitDb_spec h.consistent hres
  exact
    { consistent := hc
      full := fun t mt hmt => h.full t mt (htables ▸ hmt)
      tracks := fun k mt hmt => htracks k mt (htables ▸ hmt)
      holds := fun k mt hmt => h.holds k mt (htables ▸ hmt)
      outside := fun k hk => h.outside k (htables ▸ hk)
      reader := h.reader
      used := fun k hk => mem_append_right _ hk
      pending := hpending }

/-- What a flush sends, and what the client holds then. -/
lemma MonitorOk.flush_row (h : MonitorOk F σ S) (hmt : S.monitor.tables k.1 = some mt) :
    Holds mt ((S.flush F).2.client k) (S.db.fields k) ∧
      ∀ u, (k, u) ∈ (S.flush F).1 →
        Updates mt (S.client k) (S.flushed.fields k) (S.db.fields k) u := by
  obtain ⟨hother, hself⟩ := S.client.apply_spec (nodup_composeTableUpdate S.monitor false)
  have hmem : ∀ u, (k, u) ∈ (S.flush F).1 →
      (S.monitor.changes.lookup k).bind (mt.composeRowUpdate · false) = some u := by
    intro u hu
    obtain ⟨mt', hmt', hu⟩ := mem_composeTableUpdate.1 hu
    rw [hmt, some.injEq] at hmt'
    rw [hmt']
    exact hu
  rcases (h.tracks k mt hmt).flush (h.full k.1 mt hmt) (h.holds k mt hmt) with
    ⟨hnone, hholds⟩ | ⟨u, hu, hupdates⟩
  · have hnot : ∀ u, (k, u) ∉ (S.flush F).1 := by
      intro u hu
      rw [hmem u hu] at hnone
      cases hnone
    refine ⟨?_, fun u hu => absurd hu (hnot u)⟩
    rw [show (S.flush F).2.client k = S.client k from hother k hnot]
    exact hholds
  · refine ⟨?_, fun u' hu' => ?_⟩
    · rw [show (S.flush F).2.client k = u.apply (S.client k) from
        hself k u (mem_composeTableUpdate.2 ⟨mt, hmt, hu⟩)]
      exact hupdates.holds
    · rw [hmem u' hu', some.injEq] at hu
      exact hu ▸ hupdates

/-- A flush sends all the rows that are pending, and the client applies them. -/
lemma MonitorOk.flush (h : MonitorOk F σ S) : MonitorOk F σ (S.flush F).2 :=
  { h with
    tracks k mt hmt := rfl
    holds k mt hmt := (h.flush_row hmt).1
    outside k hk := by
      obtain ⟨hother, -⟩ := S.client.apply_spec (nodup_composeTableUpdate S.monitor false)
      refine (hother k fun u hu => ?_).trans (h.outside k hk)
      obtain ⟨mt, hmt, -⟩ := mem_composeTableUpdate.1 hu
      have hk : S.monitor.tables k.1 = none := hk
      rw [hk] at hmt
      cases hmt
    reader client' hclient' := by
      obtain ⟨client, hclient, hreceive⟩ := bind_eq_some_iff.1 hclient'
      rw [h.reader client hclient] at hreceive
      exact Client.read_of_receive S.client hreceive
    pending := nofun }

lemma full_ofRequests {requests : Fin n → Option (List MonitorRequest)}
    (hall : SelectsAll requests) (t : Fin n) (mt : MonitorTable n)
    (hmt : (ofRequests σ requests).tables t = some mt) : mt.Full := by
  obtain ⟨rs, hrs, hmt⟩ := bind_eq_some_iff.1 hmt
  have hfold : ∀ {rs : List MonitorRequest} {mt0 mt : MonitorTable n},
      (∀ r ∈ rs, ∀ kind, r.select kind = true) →
      rs.foldlM (parseMonitorRequest (σ.table t)) mt0 = some mt →
      (∀ c ∈ mt0.columns, ∀ kind, c.select kind = true) →
      (∀ c ∈ mt.columns, ∀ kind, c.select kind = true) ∧
        ∀ kind, (mt0.select kind = true ∨ rs ≠ []) → mt.select kind = true := by
    intro rs
    induction rs with
    | nil =>
      rintro mt0 mt - ⟨⟩ hcolumns
      exact ⟨hcolumns, fun kind h => h.resolve_right fun hne => hne rfl⟩
    | cons r rs ih =>
      intro mt0 mt hall hfold hcolumns
      obtain ⟨mt1, hmt1, hfold⟩ := bind_eq_some_iff.1 hfold
      obtain ⟨cs, -, rfl⟩ := map_eq_some_iff.1 hmt1
      have hr := hall r mem_cons_self
      have hcolumns1 : ∀ c ∈ mt0.columns ++ cs.map fun c => ⟨c, r.select⟩,
          ∀ kind, c.select kind = true := by
        intro c hc kind
        rcases mem_append.1 hc with hc | hc
        · exact hcolumns c hc kind
        · obtain ⟨c, -, rfl⟩ := mem_map.1 hc
          exact hr kind
      obtain ⟨hcolumns', hselect'⟩ := ih (fun r' hr' => hall r' (mem_cons_of_mem _ hr'))
        hfold hcolumns1
      exact ⟨hcolumns', fun kind _ => hselect' kind (.inl (by simp [hr kind]))⟩
  rw [monitorTable, filter_eq_some_iff, decide_eq_true_eq] at hmt
  obtain ⟨hcolumns, hselect⟩ := hfold (hall t rs hrs).2 hmt.1 nofun
  exact ⟨hmt.2, fun kind => hselect kind (.inr (hall t rs hrs).1), hcolumns⟩

/-- **The initial reply** has all rows. -/
lemma initial_reply (hdb : Committed db) {m0 : Monitor n}
    (hfull : ∀ t mt, m0.tables t = some mt → mt.Full) (hempty : m0.changes = ∅) :
    ∃ m, m0.commit (m0.initialRows db) = some m ∧ m.tables = m0.tables ∧
      ∀ k u, (k, u) ∈ (m.composeTableUpdate true).1 ↔ ∃ mt row, m0.tables k.1 = some mt ∧
        db.row k = some row ∧ u = ⟨none, some (mt.columnsFor .initial (mt.data row.field))⟩ := by
  have hlookup : ∀ k, m0.changes.lookup k = none := by
    intro k
    rw [hempty]
    rfl
  have hkeys : (m0.initialRows db).map Prod.fst =
      db.rows.keys.filter fun k => (m0.tables k.1).any fun mt => mt.select .initial := by
    rw [initialRows, map_map]
    exact map_id _
  obtain ⟨m, hm, htables, hother, hself⟩ := @commit_spec n m0 (m0.initialRows db)
    (hkeys ▸ db.rows.keys_nodup.filter _) fun e _ mt _ => by
      rw [hlookup]
      rfl
  refine ⟨m, hm, htables, fun k u => ?_⟩
  rw [mem_composeTableUpdate, htables]
  constructor
  · rintro ⟨mt, hmt, hu⟩
    by_cases hk : k ∈ (m0.initialRows db).map Prod.fst
    · obtain ⟨row, hrow⟩ : ∃ row, db.row k = some row := by
        rw [hkeys, mem_filter, mem_keys_iff] at hk
        obtain ⟨⟨a, ha⟩, -⟩ := hk
        obtain ⟨row, hrow, -⟩ := hdb.row k a ha
        exact ⟨row, by rw [Db.row_of_lookup ha, hrow]⟩
      obtain ⟨e, he, rfl⟩ := mem_map.1 hk
      have hchange := hself e he mt hmt
      obtain ⟨k', -, rfl⟩ := mem_map.1 he
      rw [hlookup, hrow, recordChange, some.injEq] at hchange
      rw [← hchange, bind_some, composeRowUpdate, if_pos rfl,
        if_pos ((hfull _ mt hmt).select _), some.injEq] at hu
      exact ⟨mt, row, hmt, hrow, hu.symm⟩
    · rw [hother k hk, hlookup] at hu
      cases hu
  · rintro ⟨mt, row, hmt, hrow, rfl⟩
    refine ⟨mt, hmt, ?_⟩
    have hmem : (k, none, db.row k) ∈ m0.initialRows db := by
      refine mem_map.2 ⟨k, mem_filter.2 ⟨?_, ?_⟩, rfl⟩
      · rw [← fields_isSome_iff hdb, Db.fields, hrow]
        rfl
      · rw [hmt, any_some, (hfull _ mt hmt).select]
    have hchange := hself _ hmem mt hmt
    rw [hlookup, hrow, recordChange, some.injEq] at hchange
    rw [← hchange, bind_some, composeRowUpdate,
      if_pos ((hfull _ mt hmt).select _)]
    rfl

/-- The first update sends every row, so the client starts out right. -/
lemma MonitorOk.create {requests : Fin n → Option (List MonitorRequest)}
    (hdb : Consistent σ (fun _ _ _ => True) db) (hall : SelectsAll requests)
    (hcreate : MonitorState.create F σ db requests = some S) : MonitorOk F σ S := by
  obtain ⟨res, hres, rfl⟩ := map_eq_some_iff.1 hcreate
  unfold create at hres
  split at hres
  · obtain ⟨m, hm, rfl⟩ := map_eq_some_iff.1 hres
    have hfull := full_ofRequests (σ := σ) hall
    obtain ⟨m', hm', htables, hreply⟩ := initial_reply hdb.committed hfull rfl
    rw [hm', some.injEq] at hm
    subst hm
    obtain ⟨hother, hself⟩ := Client.apply_spec (nodup_composeTableUpdate m' true) fun _ => none
    refine ⟨hdb, fun t mt hmt => hfull t mt (htables ▸ hmt), fun k mt hmt => rfl,
      fun k mt hmt => ?_, fun k hk => hother k fun u hu => ?_,
      fun client hclient => Client.read_of_receive (fun _ => none) hclient,
      fun k hk => hk, nofun⟩
    · have hmt : (ofRequests σ requests).tables k.1 = some mt := htables ▸ hmt
      show Holds mt (Client.apply _ _ k) ((db.row k).map Row.field)
      cases hrow : db.row k with
      | none =>
        rw [hother k fun u hu => ?_]
        · exact .none
        · obtain ⟨mt, row, -, hrow', -⟩ := (hreply k u).1 hu
          rw [show db.row k = none from hrow] at hrow'
          cases hrow'
      | some row =>
        rw [hself k _ ((hreply k _).2 ⟨mt, row, hmt, hrow, rfl⟩)]
        exact holds_apply (hfull k.1 mt hmt) rfl nofun
    · obtain ⟨mt, row, hmt, -⟩ := (hreply k u).1 hu
      have hk : m'.tables k.1 = none := hk
      rw [← htables, hk] at hmt
      cases hmt
  · cases hres

variable {P : (Fin n → Option (MonitorTable n)) → Db n → Prop}

/-- The client is right but for what is pending, after any run. -/
lemma MonitorRun.ok (h : MonitorRun F σ P S) : MonitorOk F σ S := by
  induction h with
  | start hdb hall hcreate => exact .create hdb.consistent_true hall hcreate
  | commit _ hcommit hreuse _ ih => exact ih.commit hcommit hreuse
  | flush _ ih => exact ih.flush

end Runs

/-! ## What can be read -/

section Readable

variable {F : NumberFormat} {σ : Schema n} {S : MonitorState n}
  {tables : Fin n → Option (MonitorTable n)} {mt : MonitorTable n}

/-- Columns of a row that can be read. -/
lemma Readable.columns (h : Readable F tables db) (hmt : tables k.1 = some mt)
    {columns : List (ℕ × Datum)} (hcolumns : AreColumns mt (db.fields k) columns) :
    ∀ p ∈ columns, (p.2.read F).isSome := by
  intro p hp
  obtain ⟨f, hf, hi, hcanon⟩ := hcolumns p hp
  obtain ⟨row, hrow, rfl⟩ := map_eq_some_iff.1 hf
  rw [Datum.read_eq_of_canon_eq hcanon]
  exact h k mt row hmt hrow p.1 hi

/-- A message with row updates that can all be read. -/
lemma Client.isSome_receive {client : Client n} {updates : List (Key n × RowUpdate)}
    (h : ∀ e ∈ updates, (e.2.read F).isSome) : (client.receive F updates).isSome :=
  isSome_map.trans (isSome_mapM fun e he => isSome_map.trans (h e he))

/-- The reply to the request can be read. -/
lemma readable_create {requests : Fin n → Option (List MonitorRequest)}
    (hdb : Committed db) (hall : SelectsAll requests)
    (hcreate : MonitorState.create F σ db requests = some S)
    (hreadable : Readable F S.monitor.tables S.db) : S.flushed = S.db ∧ S.reader.isSome := by
  obtain ⟨res, hres, rfl⟩ := map_eq_some_iff.1 hcreate
  unfold create at hres
  split at hres
  · obtain ⟨m, hm, rfl⟩ := map_eq_some_iff.1 hres
    obtain ⟨m', hm', htables, hreply⟩ := initial_reply hdb (full_ofRequests (σ := σ) hall) rfl
    rw [hm', some.injEq] at hm
    subst hm
    refine ⟨rfl, Client.isSome_receive fun e he => RowUpdate.isSome_read ?_⟩
    obtain ⟨mt, row, hmt, hrow, hu⟩ := (hreply e.1 e.2).1 he
    rw [hu]
    rintro columns (⟨⟨⟩⟩ | ⟨⟨⟩⟩)
    refine hreadable.columns (k := e.1) (htables ▸ hmt) fun p hp => ⟨row.field, ?_, ?_⟩
    · exact congrArg (Option.map Row.field) hrow
    · exact mem_columnsFor rfl hp
  · cases hres

/-- A flush can be read if the rows can, both as they are and as they were at the last one. -/
lemma MonitorOk.readable_flush (h : MonitorOk F σ S)
    (hreadable : Readable F S.monitor.tables S.db)
    (hreadable' : Readable F S.monitor.tables S.flushed) {client : Client n} :
    (client.receive F (S.flush F).1).isSome := by
  refine Client.isSome_receive fun e he => RowUpdate.isSome_read ?_
  obtain ⟨mt, hmt, -⟩ := mem_composeTableUpdate.1 he
  have hupdates := (h.flush_row hmt).2 e.2 he
  rintro columns (hold | hnew)
  · exact hreadable'.columns hmt (hupdates.old columns hold)
  · exact hreadable.columns hmt (hupdates.new columns hnew)

variable {P : (Fin n → Option (MonitorTable n)) → Db n → Prop}

/-- **A client never gives up** if all rows can be read. -/
lemma MonitorRun.readable (h : MonitorRun F σ P S)
    (hP : ∀ tables db, P tables db → Readable F tables db) :
    Readable F S.monitor.tables S.db ∧ Readable F S.monitor.tables S.flushed ∧
      S.reader.isSome := by
  induction h with
  | start hdb hall hcreate hS =>
    have hreadable := hP _ _ hS
    obtain ⟨hflushed, hreader⟩ :=
      readable_create hdb.consistent_true.committed hall hcreate hreadable
    exact ⟨hreadable, hflushed ▸ hreadable, hreader⟩
  | @commit S S' ops ch hrun hcommit hreuse hS' ih =>
    obtain ⟨res, hres, hmonitor⟩ := bind_eq_some_iff.1 hcommit
    obtain ⟨m, hm, rfl⟩ := map_eq_some_iff.1 hmonitor
    clear hmonitor
    obtain ⟨m', hm', htables, -⟩ := hrun.ok.record hres hreuse
    rw [hm', some.injEq] at hm
    subst hm
    exact ⟨hP _ _ hS', htables ▸ ih.2.1, ih.2.2⟩
  | @flush S hrun ih =>
    obtain ⟨hreadable, hreadable', hreader⟩ := ih
    obtain ⟨client, hclient⟩ := isSome_iff_exists.1 hreader
    refine ⟨hreadable, hreadable, ?_⟩
    show (S.reader.bind _).isSome
    rw [hclient]
    exact hrun.ok.readable_flush hreadable hreadable'

end Readable

/-! ## Replication -/

/-- A client holds exactly the monitored columns of exactly the rows in the monitored tables, each
as it is read. -/
structure Replica (F : NumberFormat) (m : Monitor n) (client : Client n) (db : Db n) : Prop where
  outside : ∀ k, m.tables k.1 = none → client k = none
  rows : ∀ k mt, m.tables k.1 = some mt → ((client k).isSome = true ↔ (db.row k).isSome = true)
  columns : ∀ k mt held row, m.tables k.1 = some mt → client k = some held →
    db.row k = some row → ∀ i, i ∈ mt.indexes → held i = (row.field i).read F
  others : ∀ k mt held, m.tables k.1 = some mt → client k = some held →
    ∀ i, i ∉ mt.indexes → held i = none

/-- The monitored columns of a row are the same in both databases. -/
def SameColumnsIn (mt : MonitorTable n) (k : Key n) (db db' : Db n) : Prop :=
  Option.Rel (fun a b => ∀ i ∈ mt.indexes, (a.field i).equals (b.field i) = true) (db.row k)
    (db'.row k)

section Replication

variable {F : NumberFormat} {σ : Schema n} {S : MonitorState n}
  {P : (Fin n → Option (MonitorTable n)) → Db n → Prop}

/-- A client that holds every row as it is now has a replica of the monitored columns. -/
lemma replica_of_holds {m : Monitor n} {client : Client n}
    (houtside : ∀ k, m.tables k.1 = none → client k = none)
    (hholds : ∀ k mt, m.tables k.1 = some mt → Holds mt (client k) (db.fields k)) :
    Replica F m (client.read F) db := by
  refine ⟨fun k hk => by rw [Client.read, houtside k hk]; rfl, fun k mt hmt => ?_,
    fun k mt held row hmt hheld hrow i hi => ?_, fun k mt held hmt hheld i hi => ?_⟩
  · have h := hholds k mt hmt
    rw [Db.fields] at h
    rw [Client.read, isSome_map]
    cases hrow : db.row k <;> cases hheld : client k <;> rw [hrow, hheld] at h <;>
      first | rfl | cases h
  · obtain ⟨data, hdata, rfl⟩ := map_eq_some_iff.1 hheld
    have h := hholds k mt hmt
    rw [Db.fields, hdata, hrow] at h
    cases h with
    | some h =>
      have hcol := h i
      rw [if_pos hi, map_eq_some_iff] at hcol
      obtain ⟨d, hd, hcanon⟩ := hcol
      rw [readRow, hd, bind_some, Datum.read_eq_of_canon_eq hcanon]
  · obtain ⟨data, hdata, rfl⟩ := map_eq_some_iff.1 hheld
    rw [readRow, (hholds k mt hmt).outside data hdata i hi, bind_none]

/-- **A monitor keeps its client up to date.**  In every state of a run the client holds what the
text of the rows says as they were at the last flush, or in the initial reply.

After a flush, it holds the rows as they are.  Every `old` that the flush sends agrees with what
the client held, and there is a row update for a row only if its monitored columns are not what
they were at the last flush.  The client can read all messages if no real in the database is printed
as one that is too large.

No transaction that brings back no deleted row makes the monitor follow a null pointer. -/
theorem monitor_replicates (h : MonitorRun F σ P S) :
    (∀ client, S.reader = some client → Replica F S.monitor client S.flushed) ∧
      (∀ client, (S.flush F).2.reader = some client →
        Replica F (S.flush F).2.monitor client S.db) ∧
      (∀ k u, (k, u) ∈ (S.flush F).1 → ∃ mt, S.monitor.tables k.1 = some mt ∧
        (∀ client u' columns, S.reader = some client → u.read F = some u' →
          u'.old = some columns →
            ∀ p ∈ columns, ∃ held, client k = some held ∧ held p.1 = some p.2) ∧
        ¬ SameColumnsIn mt k S.flushed S.db) ∧
      ((∀ tables db, P tables db → Readable F tables db) → (S.flush F).2.reader.isSome) ∧
      ∀ ops ch res, MonitorState.commitDb σ ops ch S.db = some res → S.NoReuse res.2 →
        (S.monitor.commit res.1).isSome = true := by
  have hok := h.ok
  refine ⟨fun client hclient => ?_, fun client hclient => ?_, fun k u hu => ?_,
    fun hP => (MonitorRun.flush h).readable hP |>.2.2, fun ops ch res hres hreuse => ?_⟩
  · rw [hok.reader client hclient]
    exact replica_of_holds hok.outside hok.holds
  · rw [hok.flush.reader client hclient]
    exact replica_of_holds hok.flush.outside hok.flush.holds
  · obtain ⟨mt, hmt, -⟩ := mem_composeTableUpdate.1 hu
    have hupdates := (hok.flush_row hmt).2 u hu
    refine ⟨mt, hmt, fun client u' columns hclient hread hold p hp => ?_, fun hsame =>
      hupdates.changed ?_⟩
    · -- what is read for `old` is what was read for the same data before
      obtain ⟨columns', hcolumns', hcolumns⟩ := RowUpdate.old_of_read hread hold
      obtain ⟨d, hmem, hd⟩ := exists_of_mem_readColumns hcolumns hp
      obtain ⟨held, d', hheld, hd', hcanon⟩ :=
        (hok.holds k mt hmt).agrees (hupdates.old columns' hcolumns') _ hmem
      refine ⟨readRow F held, ?_, ?_⟩
      · rw [hok.reader client hclient, Client.read, hheld]
        rfl
      · rw [readRow, hd', bind_some, Datum.read_eq_of_canon_eq hcanon, hd]
    · rw [Db.fields, Db.fields]
      revert hsame
      rw [SameColumnsIn]
      cases S.flushed.row k <;> cases S.db.row k
      · exact fun _ => .none
      · exact nofun
      · exact nofun
      · rintro ⟨⟩
        next hsame =>
        exact .some (sameData_data_iff.2 fun i hi => Datum.equals_iff.1 (hsame i hi))
  · obtain ⟨m, hm, -⟩ := hok.record hres hreuse
    rw [hm]
    rfl

end Replication

/-! ## A column of reals -/

/-- `0.5`. -/
def half : {d : Double // d.isFinite = true} := ⟨⟨0x3fe0000000000000⟩, by decide⟩

/-- `0.1 + 0.2`. -/
def tenths : {d : Double // d.isFinite = true} := ⟨⟨0x3fd3333333333334⟩, by decide⟩

/-- `0.3`. -/
def threeTenths : {d : Double // d.isFinite = true} := ⟨⟨0x3fd3333333333333⟩, by decide⟩

/-- The conversions of the C library, for the numbers that occur here. -/
def someNumbers : NumberFormat where
  strToDouble s :=
    if s = CString.lit "0.3" then some threeTenths.1
    else if s = CString.lit "0.5" then some half.1
    else none
  print d :=
    if d = Double.negZero then CString.lit "-0"
    else if d = half.1 then CString.lit "0.5"
    else if d = tenths.1 ∨ d = threeTenths.1 then CString.lit "0.3"
    else CString.lit "0"
  ofInt _ := ⟨Double.zero, Double.isFinite_zero⟩
  ofInt_zero := rfl
  print_zero := by decide
  print_negZero := rfl

/-- A row of the table that has a column of reals. -/
def realKey (i : BitVec 32) : Key 1 := (⟨0, Nat.one_pos⟩, numbered i)

/-- A monitor for all columns of the table. -/
def monitorAll : Fin 1 → Option (List MonitorRequest) := fun _ => some [⟨none, fun _ => true⟩]

/-- Rows with `0.1 + 0.2` and with `0.5`. -/
def insertReals : List (Op 1) :=
  [.insert (realKey 1) (oneElement (.real tenths, none)),
    .insert (realKey 2) (oneElement (.real half, none))]

/-- The first row is written, and the second one is deleted. -/
def changeReals : List (Op 1) :=
  [.modify (realKey 1) [(2, ⟨[(.real half, none)]⟩)], .delete (realKey 2)]

/-- The orders in which rows are visited, and the versions of rows. -/
def firstChoice : Choice 1 := ⟨numberedByCell, fun _ _ => 0, none⟩

/-- An empty database with a monitor, after the rows have been inserted and sent. -/
def realsSent : Option (MonitorState 1) :=
  (MonitorState.create someNumbers realIndex (Db.empty 1) monitorAll).bind fun S =>
    (S.commit realIndex insertReals firstChoice).map fun S => (S.flush someNumbers).2

/-- The same, after they have been changed. -/
def realsChanged : Option (MonitorState 1) :=
  realsSent.bind fun S => S.commit realIndex changeReals firstChoice

lemma realsSent_run {S : MonitorState 1} (h : realsSent = some S) :
    MonitorRun someNumbers realIndex (fun _ _ => True) S := by
  obtain ⟨S0, hcreate, hsent⟩ := bind_eq_some_iff.1 h
  obtain ⟨S1, hcommit, rfl⟩ := map_eq_some_iff.1 hsent
  have hused : S0.used = [] := by
    obtain ⟨res, -, rfl⟩ := map_eq_some_iff.1 hcreate
    rfl
  have hall : SelectsAll monitorAll := by
    rintro t rs ⟨⟩
    simp
  have hreuse : S0.NoReuse S1.db := by
    intro k _ hk
    rw [hused] at hk
    exact absurd hk not_mem_nil
  exact .flush (.commit (.start .empty hall hcreate trivial) hcommit hreuse trivial)

/-- The client has read `0.3` and `0.5`.  Then the first row becomes `0.5`, and the second one is
deleted. -/
theorem monitor_replicates_reals :
    ∃ S client, realsChanged = some S ∧ (S.flush someNumbers).1.length = 2 ∧
      (S.flush someNumbers).2.reader = some client ∧
      Replica someNumbers (S.flush someNumbers).2.monitor client S.db := by
  have hflush : realsChanged.map (fun S => ((S.flush someNumbers).1.length,
      (S.flush someNumbers).2.reader.isSome)) = some (2, true) := by decide +kernel
  obtain ⟨S, hS, hsent⟩ := map_eq_some_iff.1 hflush
  rw [Prod.mk.injEq] at hsent
  obtain ⟨client, hclient⟩ := isSome_iff_exists.1 hsent.2
  obtain ⟨S1, hS1, hcommit⟩ := bind_eq_some_iff.1 hS
  have hkeys : (realsSent.bind fun S => (S.commit realIndex changeReals firstChoice).map fun S' =>
      decide (∀ k ∈ S'.db.rows.keys, k ∈ S.used → k ∈ S.db.rows.keys)) = some true := by
    decide +kernel
  have hreuse : S1.NoReuse S.db := by
    simpa [hS1, hcommit, MonitorState.NoReuse] using hkeys
  refine ⟨S, client, hS, hsent.1, hclient, ?_⟩
  exact (monitor_replicates (.commit (realsSent_run hS1) hcommit hreuse trivial)).2.1
    client hclient

/-- **A client does not hold the data themselves.**  The database has `0.1 + 0.2`, but what a client
reads is `0.3`, which is another double. -/
theorem monitor_rounds :
    (realsSent.bind fun S => (S.db.row (realKey 1)).map (·.field 2)) =
      some ⟨[(.real tenths, none)]⟩ ∧
    (realsSent.bind fun S => S.reader.bind fun client => (client (realKey 1)).bind (· 2)) =
      some ⟨[(.real threeTenths, none)]⟩ ∧
    Datum.equals ⟨[(.real tenths, none)]⟩ ⟨[(.real threeTenths, none)]⟩ = false := by
  refine ⟨?_, ?_, ?_⟩
  all_goals decide +kernel

end Ovsdb

end OVS
