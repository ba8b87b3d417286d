import OpenVSwitch.Ovsdb.Execution
import OpenVSwitch.Ovsdb.Runs

/-!
# What the execution of a request depends on

`Op.apply` says what an operation on a row does to the view of the database.  `Op.run_view` connects
it with the code: from a state of a transaction, an operation changes the view as `Op.apply` says,
and fails where `Op.apply` does.

Operations of a request go through the rows of a table in the order of a hash table.
`IsQuery.perm` says that databases with one view have the same rows up to that order, and
`applyAll_perm` that the order does not matter.

**Two databases with one view execute a request in step** (`executeOps_blocked_congr`): what blocks
on one of them blocks on the other.
-/

namespace OVS

namespace Ovsdb

open List Function Prog RowView

variable {n : ℕ} {c s s' : Db n} {gen : ℕ → Uuid} {σ : Schema n}
  {Q : Key n → Column n → Datum → Prop}

/-! ## Operations on rows -/

/-- Writes to columns, in order. -/
def writeAll (data : ℕ → Datum) (writes : List (ℕ × Datum)) : ℕ → Datum :=
  writes.foldl (fun data w => update data w.1 w.2) data

namespace Op

/-- The row that an operation is about. -/
def key : Op n → Key n
  | insert k _ => k
  | modify k _ => k
  | delete k => k

/-- What an operation does to what is known about its key. -/
def applyAt (v : KeyView) : Op n → Option KeyView
  | insert k data =>
    if v.row.isNone ∧ v.txn.isNone then some ⟨some ⟨k.2, none, data⟩, some false⟩ else none
  | modify k writes =>
    v.row.map fun row => ⟨some ⟨k.2, none, writeAll row.data writes⟩, some (v.txn.getD true)⟩
  | delete _ => v.row.map fun _ => ⟨none, if v.txn = some false then none else some true⟩

/-- What an operation does to the view. -/
def apply (V : View n) (op : Op n) : Option (View n) :=
  (op.applyAt (V op.key)).map (update V op.key)

/-- Operations on different rows commute. -/
lemma apply_comm (V : View n) {x y : Op n} (h : x.key ≠ y.key) :
    (x.apply V).bind (y.apply ·) = (y.apply V).bind (x.apply ·) := by
  unfold apply
  cases hx : x.applyAt (V x.key) with
  | none =>
    cases hy : y.applyAt (V y.key) with
    | none => rfl
    | some w => simp [update_of_ne h, hx]
  | some v =>
    cases hy : y.applyAt (V y.key) with
    | none => simp [update_of_ne h.symm, hy]
    | some w =>
      simp [update_of_ne h, update_of_ne h.symm, hx, hy, update_comm h]

end Op

/-- What operations do to the view, one after the other. -/
def applyAll (ops : List (Op n)) (V : View n) : Option (View n) :=
  ops.foldl (fun V op => V.bind (op.apply ·)) (some V)

lemma applyAll_cons (op : Op n) (ops : List (Op n)) (V : View n) :
    applyAll (op :: ops) V = (op.apply V).bind (applyAll ops) := by
  unfold applyAll
  rw [foldl_cons, Option.bind_some]
  cases op.apply V with
  | none =>
    induction ops with
    | nil => rfl
    | cons op ops ih => exact ih
  | some W => rfl

/-- **The order of operations on different rows does not matter.** -/
lemma applyAll_perm {ops ops' : List (Op n)} (h : ops.Perm ops') (hnd : (ops.map Op.key).Nodup)
    (V : View n) : applyAll ops V = applyAll ops' V := by
  refine h.foldl_eq' (fun x hx y hy W => ?_) (some V)
  by_cases hxy : x = y
  · rw [hxy]
  · have hkey : x.key ≠ y.key := fun hkey => hxy (inj_on_of_nodup_map hnd hx hy hkey)
    cases W with
    | none => rfl
    | some W => exact Op.apply_comm W hkey

/-! ## The view of a state -/

variable {k : Key n} {mutations : RowView → List (ℕ × Datum) × Bool} {ops : List (Operation n)}
  {t : Db n} {as : List (Option ℤ)} {elapsed timeout : ℤ} {rows : List RowView}

/-- The view of a row depends on the row and its entry in the transaction. -/
lemma Db.view_congr (hrow : s'.row k = s.row k) (htxn : s'.txnRows.lookup k = s.txnRows.lookup k) :
    s'.view k = s.view k := by
  rw [Db.view, Db.view, hrow, htxn]

/-- The key of a row that the transaction has changed. -/
lemma Within.view_of_txnRow (hc : Committed c) (h : Within c s) {r : TxnRow}
    (hr : s.txnRows.lookup k = some r) :
    s.view k = ⟨(s.contents k).map fun data => ⟨k.2, none, data⟩, some r.old.isSome⟩ := by
  rw [Db.view, hr, Db.contents]
  cases ha : s.rows.lookup k with
  | none => simp [Db.row_of_none ha]
  | some a =>
    obtain ⟨row, hrow, rfl⟩ := h.row hc ha
    rw [Db.row_of_lookup ha, hrow]
    rfl

lemma Within.view_row (hc : Committed c) (h : Within c s) {row : RowView}
    (hrow : (s.view k).row = some row) : row.uuid = k.2 := by
  obtain ⟨row', hrow', rfl⟩ := Option.map_eq_some_iff.1 hrow
  exact congrArg Prod.snd (h.key_of_row hc hrow')

lemma view_row_eq_none_iff (hc : Committed c) (h : Within c s) (k : Key n) :
    (s.view k).row = none ↔ s.rows.lookup k = none := by
  rw [← h.contents_eq_none_iff hc, Db.view, Db.contents, Option.map_eq_none_iff,
    Option.map_eq_none_iff]

/-- The columns of a row in the view are its contents in the database. -/
lemma view_row_data (s : Db n) (k : Key n) :
    (s.view k).row.map data = s.contents k := by
  rw [Db.view, Option.map_map]
  rfl

/-- A step that changes what is known about one key. -/
lemma view_eq_update {v : KeyView} (hrow : ∀ k' ≠ k, s'.row k' = s.row k')
    (htxn : ∀ k' ≠ k, s'.txnRows.lookup k' = s.txnRows.lookup k') (hself : s'.view k = v) :
    s'.view = update s.view k v := by
  funext k'
  by_cases hk : k' = k
  · rw [hk, update_self, hself]
  · rw [update_of_ne hk]
    exact Db.view_congr (hrow k' hk) (htxn k' hk)

/-- What the state of a transaction is known to be, in terms of views. -/
def Viewed (σ : Schema n) (c : Db n) (V : View n) (s : Db n) : Prop :=
  Begun σ (fun _ _ _ => True) c s ∧ s.view = V

section Steps

variable {V : View n} {k : Key n} {E : Stop n → Db n → Prop}

section

variable (hc : Committed c) {a : ℕ}
include hc

/-- Inserting a row adds it to the view as one that this transaction made. -/
lemma txnRowInsert_view (data : ℕ → Datum) :
    Spec (fun s => Viewed σ c V s ∧ s.rows.lookup k = none ∧ s.txnRows.lookup k = none)
      (txnRowInsert gen k data)
      (fun _ s => s.view = update V k ⟨some ⟨k.2, none, data⟩, some false⟩) E := by
  rintro s ⟨⟨h, rfl⟩, hrows, hr⟩
  refine view_eq_update (fun k' hk => h.early.1.row_alloc_of_ne hc _ _ _ hk)
    (fun k' hk => by simp [hk]) ?_
  rw [Db.view, Within.row_alloc_self]
  simp

/-- What is known about a row after `ovsdb_txn_row_modify()` and then writes. -/
def KeyView.modified (v : KeyView) (k : Key n) (data : ℕ → Datum) : KeyView :=
  ⟨some ⟨k.2, none, data⟩, some (v.txn.getD true)⟩

lemma view_cloneRow (h : Within c s) {row : Row n} : (cloneRow gen s a row).view =
      update s.view row.key ⟨some ⟨row.uuid, none, row.data⟩, some true⟩ := by
  refine view_eq_update (fun k' hk => h.row_alloc_of_ne hc _ _ _ hk)
    (fun k' hk => by simp [hk]) ?_
  rw [Db.view, cloneRow, Within.row_alloc_self]
  simp

/-- Modifying a row leaves its columns and marks it as changed, unless it is new already. -/
lemma txnRowModify_view {row : RowView} (hV : (V k).row = some row) :
    Spec (fun s => Viewed σ c V s ∧ s.rows.lookup k = some a) (txnRowModify gen a)
      (fun b s => Viewed σ c (update V k ((V k).modified k row.data)) s ∧
        ∃ r, s.txnRows.lookup k = some r ∧ r.new = some b) E := by
  refine deref_reads.bind_such (fun s hs => hs.1.1.early.1.row hc hs.2) fun cell hkey =>
    Spec.get_bind fun s hs => ?_
  obtain ⟨⟨⟨h, rfl⟩, hrows⟩, hcell⟩ := hs
  subst hkey
  have hw := h.early.1
  have hdata : row.data = cell.data := by
    have := view_row_data s cell.key
    rw [hV, Db.contents_of_lookup hrows hcell] at this
    exact Option.some.inj this
  split
  · next r hr =>
    have hnew : r.new = some a := by rw [(hw.rows _).new r hr, hrows]
    rw [if_pos hnew]
    rintro _ rfl
    refine ⟨⟨h, ?_⟩, r, hr, hnew⟩
    rw [eq_comm, update_eq_self_iff, hw.view_of_txnRow hc hr,
      Db.contents_of_lookup hrows hcell, hdata]
    rfl
  · next hr =>
    refine Spec.bind (Spec.modify (Q := fun _ s' => s' = cloneRow gen s a cell) ?_)
      fun _ => Spec.pure ?_
    · rintro _ rfl
      rfl
    · rintro _ rfl
      refine ⟨⟨(Begun.pullable hc).clone s a cell h hcell hrows hr, ?_⟩,
        ⟨some a, some s.next, cell.nRefs, fun _ => false⟩, ?_, rfl⟩
      · have htxn : (s.view cell.key).txn = none := by
          rw [Db.view, hr]
          rfl
        rw [view_cloneRow hc hw, KeyView.modified, htxn, hdata]
        rfl
      · simp

/-- The writes that follow `ovsdb_txn_row_modify()`. -/
lemma writes_view {b : ℕ} (v : KeyView) (data : ℕ → Datum) (writes : List (ℕ × Datum)) :
    Spec (fun s => Viewed σ c (update V k (v.modified k data)) s ∧
        ∃ r, s.txnRows.lookup k = some r ∧ r.new = some b)
      (Prog.each (fun w : ℕ × Datum => do
        let row ← deref b
        Prog.modify (·.setRow b (row.setField w.1 w.2))) writes)
      (fun _ => Viewed σ c (update V k (v.modified k (writeAll data writes)))) E := by
  refine (Spec.each (fun pre s =>
    Viewed σ c (update V k (v.modified k (writeAll data pre))) s ∧
      ∃ r, s.txnRows.lookup k = some r ∧ r.new = some b) fun pre w post hsplit => ?_).post
    fun _ s hs => hs.1
  refine deref_reads.bind_such (T := (·.key = k)) (fun s hs => ?_) fun row _ => Spec.modify ?_
  · obtain ⟨⟨h, -⟩, r, hr, hnew⟩ := hs
    exact ((h.early.1.rows k).cell r b hr hnew).2
  rintro s ⟨⟨⟨h, hview⟩, r, hr, hnew⟩, hrow⟩
  have hw := h.early.1
  have hrows : s.rows.lookup k = some b := by rw [← (hw.rows k).new r hr, hnew]
  have h' := h.write hc hr hnew hrow (w := w) fun _ _ _ => trivial
  have hself := h'.early.1.view_of_txnRow hc hr
  have hcontents : (s.setRow b (row.setField w.1 w.2)).contents k =
      some (update row.data w.1 w.2) :=
    Db.contents_of_lookup (s := s.setRow b (row.setField w.1 w.2)) hrows (update_self ..)
  have hold := hw.view_of_txnRow hc hr
  rw [hview, update_self, Db.contents_of_lookup hrows hrow] at hold
  simp only [KeyView.modified, Option.map_some, KeyView.mk.injEq, Option.some.injEq,
    mk.injEq, true_and] at hold
  refine ⟨⟨h', ?_⟩, r, hr, hnew⟩
  have hupdate := view_eq_update (fun k' hk => hw.row_setRow_of_ne hc _ hrows hk)
    (fun _ _ => rfl) hself
  rw [hupdate, hview, hcontents, ← hold.1, ← hold.2]
  simp [KeyView.modified, writeAll]

/-- `ovsdb_txn_row_delete()`. -/
lemma txnRowDelete_view : Spec (fun s => Viewed σ c V s ∧ s.rows.lookup k = some a) (txnRowDelete a)
      (fun _ s => s.view = update V k
        ⟨none, if (V k).txn = some false then none else some true⟩) E := by
  refine Spec.intro fun s ⟨⟨h, hV⟩, hrows⟩ =>
    (txnRowDelete_run hc h.early.1 hrows).post fun _ s' hs' => ?_
  subst hV
  obtain ⟨hr, row, -, rfl⟩ | ⟨r, hr, -, rfl⟩ := hs'
  · refine view_eq_update (fun k' hk => by simp [Db.row, hk])
      (fun k' hk => by simp [hk]) ?_
    simp [Db.view, Db.row, hr]
  · refine view_eq_update (fun k' hk => ?_) (fun k' hk => ?_) ?_
    · refine h.early.1.row_of_removed hc hrows ?_ ?_ hk
      · split <;> rfl
      · split <;> rfl
    · split <;> simp [hk]
    · have htxn : (s.view k).txn = some r.old.isSome := by
        rw [Db.view, hr]
        rfl
      rw [htxn]
      cases hold : r.old <;> simp [Db.view, Db.row]

end

end Steps

/-- **Operations on rows change the view as `Op.apply` says**, and fail where it fails. -/
lemma Op.run_view (hc : Committed c) (op : Op n) (V : View n) :
    Spec (Viewed σ c V) (op.run gen)
      (fun _ s => Begun σ (fun _ _ _ => True) c s ∧ op.apply V = some s.view)
      (fun _ _ => op.apply V = none) := by
  have hbegun : Spec (Viewed σ c V) (op.run gen)
      (fun _ => Begun σ (fun _ _ _ => True) c) fun _ _ => True :=
    (Op.run_spec hc op.writes_true).conseq (fun _ hs => hs.1) (fun _ _ hs => hs)
      fun _ _ _ => trivial
  refine (hbegun.and ?_).conseq (fun _ hs => hs) (fun _ _ hs => hs) fun _ _ hs => hs.2
  cases op with
  | insert k data =>
    refine Spec.get_bind fun s hs => Spec.ite (fun hnone => ?_) fun hsome => ?_
    · simp only [Option.isNone_iff_eq_none] at hnone
      refine ((txnRowInsert_view (σ := σ) (V := V) hc data).pre fun s1 hs1 => ?_).post
        fun _ s1 hs1 => ?_
      · rw [hs1]
        exact ⟨hs, hnone⟩
      · rw [apply, applyAt, if_pos, hs1]
        · rfl
        · rw [key, ← hs.2, Option.isNone_iff_eq_none, view_row_eq_none_iff hc hs.1.early.1]
          exact ⟨hnone.1, by simp [Db.view, hnone.2]⟩
    · refine Spec.throw fun s1 hs1 => ?_
      rw [apply, applyAt, if_neg]
      · rfl
      · rw [key, ← hs.2, Option.isNone_iff_eq_none, view_row_eq_none_iff hc hs.1.early.1]
        simpa [Db.view] using hsome
  | modify k writes =>
    refine Spec.get_bind fun s hs => ?_
    have hrow := view_row_eq_none_iff hc hs.1.early.1 k
    rw [hs.2] at hrow
    split
    · next hnone =>
      refine Spec.throw fun s1 hs1 => ?_
      rw [apply, applyAt, key, hrow.2 hnone]
      rfl
    · next a ha =>
      obtain ⟨row, hV⟩ : ∃ row, (V k).row = some row := by
        rw [← Option.ne_none_iff_exists', Ne, hrow, ha]
        exact Option.some_ne_none a
      refine Spec.bind ((txnRowModify_view (σ := σ) hc hV).pre fun s1 hs1 => ?_) fun b =>
        (writes_view hc (V k) row.data writes).post fun _ s1 hs1 => ?_
      · rw [hs1]
        exact ⟨hs, ha⟩
      · rw [apply, applyAt, key, hV, hs1.2]
        rfl
  | delete k =>
    refine Spec.get_bind fun s hs => ?_
    have hrow := view_row_eq_none_iff hc hs.1.early.1 k
    rw [hs.2] at hrow
    split
    · next hnone =>
      refine Spec.throw fun s1 hs1 => ?_
      rw [apply, applyAt, key, hrow.2 hnone]
      rfl
    · next a ha =>
      obtain ⟨row, hV⟩ : ∃ row, (V k).row = some row := by
        rw [← Option.ne_none_iff_exists', Ne, hrow, ha]
        exact Option.some_ne_none a
      refine ((txnRowDelete_view (σ := σ) (V := V) (k := k) hc).pre fun s1 hs1 => ?_).post
        fun _ s1 hs1 => ?_
      · rw [hs1]
        exact ⟨hs, ha⟩
      · rw [apply, applyAt, key, hV, hs1]
        rfl

/-- **A sequence of them.** -/
lemma each_view (hc : Committed c) (ops : List (Op n)) (V : View n) :
    Spec (Viewed σ c V) (Prog.each (Op.run gen) ops)
      (fun _ s => Begun σ (fun _ _ _ => True) c s ∧ applyAll ops V = some s.view)
      (fun _ _ => applyAll ops V = none) := by
  induction ops generalizing V with
  | nil => exact Spec.pure fun s hs => ⟨hs.1, congrArg some hs.2.symm⟩
  | cons op ops ih =>
    rw [applyAll_cons]
    cases hop : op.apply V with
    | none =>
      refine Spec.bind (Q := fun _ _ => False) ((Op.run_view hc op V).conseq
        (fun _ hs => hs) (fun _ s hs => ?_) fun _ _ _ => rfl) fun _ _ => False.elim
      rw [hop] at hs
      cases hs.2
    | some W =>
      refine Spec.bind (Q := fun _ => Viewed σ c W) ((Op.run_view hc op V).conseq
        (fun _ hs => hs) (fun _ s hs => ?_) fun _ _ hs => ?_) fun _ => ih W
      · rw [hop] at hs
        exact ⟨hs.1, (Option.some.inj hs.2).symm⟩
      · rw [hop] at hs
        cases hs

/-- What succeeds on the view succeeds. -/
lemma each_applied {ops : List (Op n)} {V W : View n} (hc : Committed c) (h : Viewed σ c V s)
    (hops : applyAll ops V = some W) (gen : ℕ → Uuid) :
    ∃ s', Prog.each (Op.run gen) ops s = (.ok (), s') ∧ Viewed σ c W s' := by
  have hspec : Spec (Viewed σ c V) (Prog.each (Op.run gen) ops) (fun _ => Viewed σ c W)
      fun _ _ => False := by
    refine (each_view hc ops V).conseq (fun _ hs => hs) (fun _ s hs => ⟨hs.1, ?_⟩) fun _ _ hs => ?_
    · exact Option.some.inj (hs.2.symm.trans hops)
    · rw [hops] at hs
      cases hs
  obtain ⟨_, s', hrun, hs'⟩ := hspec.returns h
  exact ⟨s', hrun, hs'⟩

/-- The rows of a table in the view for which a condition holds, in any order. -/
structure IsQuery (V : View n) (table : Fin n) (condition : RowView → Bool)
    (rows : List RowView) : Prop where
  nodup : (rows.map RowView.uuid).Nodup
  mem : ∀ row, row ∈ rows ↔ (V (table, row.uuid)).row = some row ∧ condition row = true

/-- A query of the database answers as the view does, each matching row once. -/
lemma isQuery_query (hc : Committed c) (h : Within c s) (table : Fin n)
    (condition : RowView → Bool) : IsQuery s.view table condition (s.query table condition) where
  nodup := by
    refine Pairwise.map _ (R := fun a b : RowView => a.uuid ≠ b.uuid) (fun _ _ hne => hne)
      (Pairwise.filter _ ?_)
    refine pairwise_filterMap.2 ?_
    refine (s.rows.keys_nodup.filter _).imp_of_mem fun {k k'} hk hk' hne a ha b hb hab => hne ?_
    rw [mem_filter, decide_eq_true_eq] at hk hk'
    refine Prod.ext (hk.2.trans hk'.2.symm) ?_
    rw [← h.view_row hc ha, ← h.view_row hc hb, hab]
  mem row := by
    simp only [Db.query, mem_filter, mem_filterMap, decide_eq_true_eq, mem_keys_iff]
    refine and_congr_left fun _ => ⟨?_, fun hrow => ⟨(table, row.uuid), ⟨?_, rfl⟩, hrow⟩⟩
    · rintro ⟨k, ⟨-, rfl⟩, hrow⟩
      rw [h.view_row hc hrow]
      exact hrow
    · rw [← Option.ne_none_iff_exists', Ne, ← view_row_eq_none_iff hc h, hrow]
      exact Option.some_ne_none row

section Query

variable {V : View n} {table : Fin n} {condition : RowView → Bool} {rows rows' : List RowView}

/-- Two answers to one query have the same rows, in whatever order. -/
lemma IsQuery.perm (h : IsQuery V table condition rows) (h' : IsQuery V table condition rows') :
    rows.Perm rows' := by
  rw [perm_ext_iff_of_nodup h.nodup.of_map h'.nodup.of_map]
  intro row
  rw [h.mem, h'.mem]

/-- **What an operation does to the rows that a query finds** does not depend on their order. -/
lemma IsQuery.applyAll_eq (h : IsQuery V table condition rows)
    (h' : IsQuery V table condition rows') {f : RowView → Option (Op n)}
    (hf : ∀ row op, f row = some op → op.key = (table, row.uuid)) :
    applyAll (rows.filterMap f) V = applyAll (rows'.filterMap f) V := by
  refine applyAll_perm ((h.perm h').filterMap f) ?_ V
  refine Pairwise.map _ (R := fun x y : Op n => x.key ≠ y.key) (fun _ _ hne => hne)
    (pairwise_filterMap.2 ?_)
  refine (pairwise_map.1 h.nodup).imp fun {a b} hne x hx y hy hxy => hne ?_
  rw [hf a x hx, hf b y hy] at hxy
  exact congrArg Prod.snd hxy

end Query

/-! ## Waiting -/

namespace RowView

variable {columns : List (Column n)}

/-- All these columns are known. -/
def Complete (columns : List (Column n)) (row : RowView) : Prop :=
  ∀ c ∈ columns, (row.field c.index).isSome = true

/-- What a hash of rows distinguishes rows by. -/
def image (columns : List (Column n)) (row : RowView) : BitVec 32 × List (Option Datum) :=
  (row.hashColumns columns 0, columns.map fun c => (row.field c.index).map Datum.canon)

/-- Rows are equal in some columns when both have them all with the same values. -/
lemma equalColumns_iff {a b : RowView} :
    a.equalColumns b columns = true ↔ a.Complete columns ∧ b.Complete columns ∧
      (a.image columns).2 = (b.image columns).2 := by
  simp only [equalColumns, all_eq_true, Complete, image, map_inj_left, ← forall_and]
  refine forall_congr' fun col => imp_congr_right fun _ => ?_
  cases a.field col.index <;> cases b.field col.index <;> simp [Datum.equals_iff]

end RowView

section RowHash

variable {columns : List (Column n)} {rh : List RowView} {row : RowView}

/-- The hash of rows contains a row when one of its nodes has the same image. -/
lemma rowHashContains_iff :
    rowHashContains columns rh row = true ↔ row.Complete columns ∧
      ∃ node ∈ rh, node.Complete columns ∧ node.image columns = row.image columns := by
  simp only [rowHashContains, any_eq_true, Bool.and_eq_true, decide_eq_true_eq,
    equalColumns_iff, Prod.ext_iff]
  constructor
  · rintro ⟨node, hnode, hhash, hrow, hcomplete, himage⟩
    exact ⟨hrow, node, hnode, hcomplete, hhash, himage.symm⟩
  · rintro ⟨hrow, node, hnode, hcomplete, hhash, himage⟩
    exact ⟨node, hnode, hhash, hrow, hcomplete, himage.symm⟩

/-- A hash of rows, after these rows have been inserted. -/
structure IsRowHash (columns : List (Column n)) (rows rh : List RowView) : Prop where
  complete : ∀ row ∈ rh, row.Complete columns
  nodup : (rh.map (RowView.image columns)).Nodup
  mem : ∀ x, x ∈ rh.map (RowView.image columns) ↔ x ∈ rows.map (RowView.image columns)

variable {rows : List RowView}

/-- Inserting a row keeps one node for each image. -/
lemma IsRowHash.insert (h : IsRowHash columns rows rh) (hrow : row.Complete columns) :
    IsRowHash columns (row :: rows) (rowHashInsert columns rh row) := by
  have hmem : rowHashContains columns rh row = true ↔
      row.image columns ∈ rh.map (image columns) := by
    rw [rowHashContains_iff, mem_map, and_iff_right hrow]
    refine exists_congr fun node => and_congr_right fun hnode => ?_
    rw [and_iff_right (h.complete node hnode)]
  unfold rowHashInsert
  split
  · next hin =>
    rw [hmem] at hin
    refine ⟨h.complete, h.nodup, fun x => ?_⟩
    rw [h.mem, map_cons, mem_cons]
    refine ⟨.inr, ?_⟩
    rintro (rfl | hx)
    · exact (h.mem _).1 hin
    · exact hx
  · next hnot =>
    rw [hmem] at hnot
    refine ⟨?_, nodup_cons.2 ⟨hnot, h.nodup⟩, fun x => ?_⟩
    · rintro r hr
      rcases mem_cons.1 hr with rfl | hr
      · exact hrow
      · exact h.complete r hr
    · rw [map_cons, mem_cons, map_cons, mem_cons, h.mem]

lemma IsRowHash.foldl {done : List RowView} (h : IsRowHash columns done rh)
    (hrows : ∀ row ∈ rows, row.Complete columns) :
    IsRowHash columns (rows.reverse ++ done) (rows.foldl (rowHashInsert columns) rh) := by
  induction rows generalizing done rh with
  | nil => exact h
  | cons row rows ih =>
    have := ih (h.insert (hrows row mem_cons_self)) fun r hr =>
      hrows r (mem_cons_of_mem _ hr)
    rw [reverse_cons, append_assoc]
    exact this

/-- The number of rows in a hash of rows is that of the distinct rows inserted. -/
lemma length_foldl_rowHashInsert (hrows : ∀ row ∈ rows, row.Complete columns) :
    (rows.foldl (rowHashInsert columns) []).length =
      (rows.map (image columns)).toFinset.card := by
  have hempty : IsRowHash columns [] [] := ⟨nofun, nodup_nil, fun _ => Iff.rfl⟩
  have h := hempty.foldl hrows
  rw [← length_map, ← toFinset_card_of_nodup h.nodup]
  congr 1
  ext x
  simp [h.mem x]

/-- The loop stops at a row that was not expected, and gathers the rows otherwise. -/
lemma waitQuery_eq (expected actual : List RowView) : waitQuery columns expected rows actual =
      if ∀ row ∈ rows, rowHashContains columns expected row = true then
        some (rows.foldl (rowHashInsert columns) actual)
      else none := by
  induction rows generalizing actual with
  | nil => simp [waitQuery]
  | cons row rows ih =>
    unfold waitQuery
    by_cases hrow : rowHashContains columns expected row = true
    · rw [ih]
      simp [hrow]
    · rw [if_neg hrow, if_neg]
      exact fun hall => hrow (hall row mem_cons_self)

end RowHash

/-- The comparison of a `wait` operation: every row found is expected, and they are as many. -/
lemma Wait.equal_iff (w : Wait n) (s : Db n) :
    w.equal s = true ↔ (∀ row ∈ s.query w.table w.condition,
        rowHashContains w.columns (w.rows.foldl (rowHashInsert w.columns) []) row = true) ∧
      ((s.query w.table w.condition).map (image w.columns)).toFinset.card =
        (w.rows.foldl (rowHashInsert w.columns) []).length := by
  unfold Wait.equal
  simp only [waitQuery_eq]
  by_cases hall : ∀ row ∈ s.query w.table w.condition,
      rowHashContains w.columns (w.rows.foldl (rowHashInsert w.columns) []) row = true
  · rw [if_pos hall, ← length_foldl_rowHashInsert fun row hrow =>
      (rowHashContains_iff.1 (hall row hrow)).1]
    simpa using fun _ => hall
  · simp [hall]

/-- Whether a `wait` is satisfied depends on the view only. -/
lemma Wait.equal_congr {c' : Db n} (hc : Committed c) (h : Within c s) (hc' : Committed c')
    (h' : Within c' s') (hview : s.view = s'.view) (w : Wait n) : w.equal s = w.equal s' := by
  have hq := isQuery_query hc h w.table w.condition
  have hq' := isQuery_query hc' h' w.table w.condition
  rw [← hview] at hq'
  have hperm := hq.perm hq'
  rw [Bool.eq_iff_iff, w.equal_iff, w.equal_iff]
  simp only [hperm.mem_iff, toFinset_eq_of_perm _ _ (hperm.map (image w.columns))]

/-! ## Execution -/

lemma mutateRows_of_succeeds {table : Fin n} (h : ∀ row ∈ rows, (mutations row).2 = true) :
    mutateRows table mutations rows =
      (rows.filterMap fun row => some (.modify (table, row.uuid) (mutations row).1), true) := by
  induction rows with
  | nil => rfl
  | cons row rows ih =>
    rw [mutateRows, if_pos (h row mem_cons_self), ih fun r hr => h r (mem_cons_of_mem _ hr)]
    rfl

/-- A mutation succeeds when it does on every row. -/
lemma mutateRows_snd {table : Fin n} :
    (mutateRows table mutations rows).2 = true ↔ ∀ row ∈ rows, (mutations row).2 = true := by
  induction rows with
  | nil => simp [mutateRows]
  | cons row rows ih =>
    unfold mutateRows
    by_cases hrow : (mutations row).2 = true
    · simp [hrow, ih]
    · simp [hrow]

section Congr

variable {c' : Db n} {V : View n} {timeout timeout' elapsed : ℤ}

/-- An operation that succeeds on one of two databases with one view does the same on the other. -/
lemma Operation.effects_congr (hc : Committed c) (h : Viewed σ c V s) (hc' : Committed c')
    (h' : Viewed σ c' V s') (op : Operation n) (hok : (op.effects s).2 = true) :
    (op.effects s').2 = true ∧ applyAll (op.effects s).1 V = applyAll (op.effects s').1 V := by
  have hq := isQuery_query hc h.1.early.1
  have hq' := isQuery_query hc' h'.1.early.1
  rw [h.2] at hq
  rw [h'.2] at hq'
  cases op with
  | insert | select | wait | commit | comment => exact ⟨rfl, rfl⟩
  | abort | invalid => exact ⟨hok, rfl⟩
  | update table condition columns data =>
    refine ⟨rfl, (hq table condition).applyAll_eq (hq' table condition) fun row op hop => ?_⟩
    unfold updateRow at hop
    split at hop
    · cases hop
    · cases hop
      rfl
  | mutate table condition mutations =>
    have hall := mutateRows_snd.1 hok
    have hall' : ∀ row ∈ s'.query table condition, (mutations row).2 = true := fun row hrow =>
      hall row (((hq table condition).perm (hq' table condition)).mem_iff.2 hrow)
    refine ⟨mutateRows_snd.2 hall', ?_⟩
    simp only [Operation.effects, mutateRows_of_succeeds hall, mutateRows_of_succeeds hall']
    refine (hq table condition).applyAll_eq (hq' table condition) fun row op hop => ?_
    cases hop
    rfl
  | delete table condition =>
    refine ⟨rfl, ?_⟩
    simp only [Operation.effects, ← filterMap_eq_map]
    refine (hq table condition).applyAll_eq (hq' table condition) fun row op hop => ?_
    cases hop
    rfl

variable {op : Operation n} {res : OpResult}

/-- The ways an operation can be executed without being stopped by an assertion. -/
lemma executeOp_cases (h : executeOp gen elapsed op timeout s = some (res, timeout', t)) :
    (∃ w, op = .wait w ∧ executeWait elapsed w timeout s = (res, timeout') ∧ t = s) ∨
    ((∀ w, op ≠ .wait w) ∧ Prog.each (Op.run gen) (op.effects s).1 s = (.ok (), t) ∧
      timeout' = timeout ∧ res = if (op.effects s).2 then .ok else .error) := by
  by_cases hwait : ∃ w, op = .wait w
  · obtain ⟨w, rfl⟩ := hwait
    cases h
    exact .inl ⟨w, rfl, rfl, rfl⟩
  · rw [not_exists] at hwait
    have heff : executeEffects gen op timeout s = some (res, timeout', t) := by
      cases op with
      | wait w => exact absurd rfl (hwait w)
      | _ => exact h
    unfold executeEffects at heff
    split at heff
    · cases heff
    · next s' hrun =>
      cases heff
      exact .inr ⟨hwait, hrun, rfl, rfl⟩

/-- An operation is executed, and then the others if it succeeds. -/
lemma executeOps_cons_cases
    (h : executeOps gen elapsed (op :: ops) timeout s = some (res, timeout', t)) :
    (∃ timeout1 s1, executeOp gen elapsed op timeout s = some (.ok, timeout1, s1) ∧
      executeOps gen elapsed ops timeout1 s1 = some (res, timeout', t)) ∨
    executeOp gen elapsed op timeout s = some (res, timeout', t) := by
  unfold executeOps at h
  split at h
  · cases h
  · next timeout1 s1 hop => exact .inl ⟨timeout1, s1, hop, h⟩
  · next hop => exact .inr (hop.trans h)

/-- An operation other than a wait is carried out through the writes it comes down to. -/
lemma executeOp_of_effects (hwait : ∀ w, op ≠ .wait w) (hok : (op.effects s).2 = true)
    (hrun : Prog.each (Op.run gen) (op.effects s).1 s = (.ok (), s')) :
    executeOp gen elapsed op timeout s = some (.ok, timeout, s') := by
  have heff : executeEffects gen op timeout s = some (.ok, timeout, s') := by
    unfold executeEffects
    rw [hrun, hok]
    rfl
  cases op with
  | wait w => exact absurd rfl (hwait w)
  | _ => exact heff

/-- `x->timeout_msec` after a `wait`. -/
def Wait.bound (w : Wait n) (timeout : ℤ) : ℤ := w.timeout.elim timeout fun t => min t timeout

/-- A wait succeeds when its rows stand as it asked, with a timeout that is not negative. -/
lemma executeWait_ok_iff {w : Wait n} :
    executeWait elapsed w timeout s = (.ok, timeout') ↔
      (∀ t, w.timeout = some t → 0 ≤ t) ∧ w.untilEqual = w.equal s ∧
        timeout' = w.bound timeout := by
  unfold executeWait Wait.bound
  cases w.timeout with
  | none => grind
  | some t => grind

/-- A wait blocks when its rows do not stand so and there is still time. -/
lemma executeWait_blocked_iff {w : Wait n} :
    executeWait elapsed w timeout s = (.blocked, timeout') ↔
      (∀ t, w.timeout = some t → 0 ≤ t ∧ elapsed < t) ∧ w.untilEqual ≠ w.equal s ∧
        timeout' = w.bound timeout := by
  unfold executeWait Wait.bound
  cases w.timeout with
  | none => grind
  | some t => grind

/-- Only a `wait` blocks. -/
lemma executeOp_blocked (h : executeOp gen elapsed op timeout s = some (.blocked, timeout', t)) :
    ∃ w, op = .wait w ∧ (∀ t, w.timeout = some t → 0 ≤ t ∧ elapsed < t) ∧
      w.untilEqual ≠ w.equal s ∧ timeout' = w.bound timeout := by
  obtain ⟨w, rfl, hexec, -⟩ | ⟨-, -, -, hres⟩ := executeOp_cases h
  · exact ⟨w, rfl, executeWait_blocked_iff.1 hexec⟩
  · split at hres <;> cases hres

/-- An operation that succeeds on one of two databases with one view succeeds on the other. -/
lemma executeOp_ok_congr (hc : Committed c) (h : Viewed σ c V s) (hc' : Committed c')
    (h' : Viewed σ c' V s') (gen' : ℕ → Uuid) (elapsed' : ℤ)
    (hop : executeOp gen elapsed op timeout s = some (.ok, timeout', t)) :
    ∃ t' W, executeOp gen' elapsed' op timeout s' = some (.ok, timeout', t') ∧
      Viewed σ c W t ∧ Viewed σ c' W t' := by
  obtain ⟨w, rfl, hexec, rfl⟩ | ⟨hwait, hrun, rfl, hres⟩ := executeOp_cases hop
  · rw [executeWait_ok_iff, w.equal_congr hc h.1.early.1 hc' h'.1.early.1
      (h.2.trans h'.2.symm)] at hexec
    have hexec' : executeWait elapsed' w timeout s' = (.ok, timeout') :=
      executeWait_ok_iff.2 hexec
    refine ⟨s', V, ?_, h, h'⟩
    simp only [executeOp, hexec']
  · have hok : (op.effects s).2 = true := by
      by_contra hne
      rw [if_neg hne] at hres
      cases hres
    obtain ⟨hok', heq⟩ := op.effects_congr hc h hc' h' hok
    obtain ⟨hb, happly⟩ := (each_view hc (op.effects s).1 V).ok h hrun
    obtain ⟨t', hrun', h1'⟩ := each_applied hc' h' (heq ▸ happly) gen'
    exact ⟨t', t.view, executeOp_of_effects hwait hok' hrun', ⟨hb, rfl⟩, h1'⟩

/-- **What blocks on one of two databases with one view blocks on the other**, and until the same
time, unless that time has come since. -/
lemma executeOps_blocked_congr (hc : Committed c) (h : Viewed σ c V s) (hc' : Committed c')
    (h' : Viewed σ c' V s') (gen' : ℕ → Uuid) {elapsed' : ℤ}
    (hops : executeOps gen elapsed ops timeout s = some (.blocked, timeout', t))
    (hlt : elapsed' < timeout' ∨ elapsed' ≤ elapsed) :
    ∃ t', executeOps gen' elapsed' ops timeout s' = some (.blocked, timeout', t') := by
  induction ops generalizing V timeout s s' with
  | nil => cases hops
  | cons op ops ih =>
    obtain ⟨timeout1, s1, hop, hops⟩ | hop := executeOps_cons_cases hops
    · obtain ⟨s1', W, hop', h1, h1'⟩ := executeOp_ok_congr hc h hc' h' gen' elapsed' hop
      obtain ⟨t', ht'⟩ := ih h1 h1' hops
      refine ⟨t', ?_⟩
      unfold executeOps
      rw [hop']
      exact ht'
    · obtain ⟨w, rfl, hpos, hne, hbound⟩ := executeOp_blocked hop
      rw [w.equal_congr hc h.1.early.1 hc' h'.1.early.1 (h.2.trans h'.2.symm)] at hne
      have hpos' : ∀ t, w.timeout = some t → 0 ≤ t ∧ elapsed' < t := by
        intro t ht
        rw [Wait.bound, ht, Option.elim_some] at hbound
        have := hpos t ht
        exact ⟨this.1, by omega⟩
      have hexec' : executeWait elapsed' w timeout s' = (.blocked, timeout') :=
        executeWait_blocked_iff.2 ⟨hpos', hne, hbound⟩
      refine ⟨s', ?_⟩
      simp only [executeOps, executeOp, hexec']

/-- The state stays one of the transaction. -/
lemma executeOps_begun (hc : Committed c) (h : Begun σ (fun _ _ _ => True) c s)
    (hops : executeOps gen elapsed ops timeout s = some (res, timeout', t)) :
    Begun σ (fun _ _ _ => True) c t := by
  have hstep : ∀ {op : Operation n} {timeout timeout' : ℤ} {res : OpResult} {s t : Db n},
      Begun σ (fun _ _ _ => True) c s →
      executeOp gen elapsed op timeout s = some (res, timeout', t) →
      Begun σ (fun _ _ _ => True) c t := by
    intro op timeout timeout' res s t h hop
    obtain ⟨w, -, -, rfl⟩ | ⟨-, hrun, -⟩ := executeOp_cases hop
    · exact h
    · exact (ops_spec hc fun op _ => op.writes_true).ok h hrun
  induction ops generalizing timeout s with
  | nil =>
    cases hops
    exact h
  | cons op ops ih =>
    obtain ⟨timeout1, s1, hop, hops⟩ | hop := executeOps_cons_cases hops
    · exact ih (hstep h hop) hops
    · exact hstep h hop

end Congr

lemma Restored.view (hc : Committed c) (h : Restored c s) : s.view = c.view := by
  funext k
  exact Db.view_congr (h.row hc k) ((h.txnRows k).trans (hc.txnRows k).symm)

section Commit

variable {α : Type} {nothing : α} {observe : Db n → α}

/-- What a commit lets observers see is the state in which all its checks have passed. -/
lemma txnCommitObserve_spec (hc : Consistent σ Q c) (hQ : Hereditary Q) (order : ℕ → ℕ → ℕ)
    (replica : Option (TxnError n)) :
    Spec (Begun σ Q c)
      (txnCommitObserve σ gen order (replica.elim (pure ()) fail) nothing observe)
      (fun seen s => seen = nothing ∧ Restored c s ∨
        ∃ s0, Passed σ Q c s0 ∧ Finished σ c s0 s ∧ seen = observe s0) (Failed c) := by
  refine Spec.intro fun s1 hs1 => Spec.bind (Q := fun _ => Begun σ Q c)
    ((forEach_determineChanges hc.committed hc.columns hs1 (order 0)).post fun _ s hs => hs.1)
    fun _ => Spec.get_bind fun s2 hs2 => Spec.ite (fun _ => ?_) fun _ => ?_
  · refine Spec.bind ((txnAbort_spec hc.committed (order 6)).pre fun s (hs : s = s2) => ?_)
      fun _ => Spec.pure fun s hs => .inl ⟨rfl, hs⟩
    rw [hs]
    exact hs2.early.1
  · refine Spec.bind (orAbort_spec hc.committed (Spec.bind
      (txnCheck_spec hc.committed hQ hs2 order) fun _ => ?_) (order 6)) fun _ =>
      Spec.get_bind fun s3 hs3 => Spec.bind
      (txnFinish_spec hc.committed hs3.within (order 7)) fun _ =>
      Spec.pure fun s hs => .inr ⟨s3, hs3, hs, rfl⟩
    cases replica with
    | none => exact Spec.pure fun _ hs => hs
    | some e => exact Spec.throw fun _ hs => hs.within

/-- **What a commit does**: nothing, or it has passed every check and is seen by the replicas. -/
lemma commitObserve_spec (hc : Consistent σ (fun _ _ _ => True) c)
    (hs : Begun σ (fun _ _ _ => True) c s) {ch : Choice n} {res : α × Db n}
    (hres : commitObserve σ ch nothing observe s = some res) :
    res.1 = nothing ∧ Restored c res.2 ∨ ∃ s0, Passed σ (fun _ _ _ => True) c s0 ∧
      Finished σ c s0 res.2 ∧ res.1 = observe s0 := by
  have hspec : Prog.Outcome _ _ (txnCommitObserve σ ch.gen ch.order
      (ch.replica.elim (pure ()) fail) nothing observe s) :=
    txnCommitObserve_spec hc (fun _ _ _ _ _ _ => trivial) ch.order ch.replica s hs
  unfold commitObserve at hres
  split at hres
  · cases hres
  · next e s' hcommit =>
    cases hres
    rw [hcommit] at hspec
    exact .inl ⟨rfl, hspec.resolve_left nofun⟩
  · next seen s' hcommit =>
    cases hres
    rw [hcommit] at hspec
    exact hspec

end Commit

/-! ## Deadlines -/

/-- The timeout of a `wait` operation. -/
def Operation.timeout? : Operation n → Option (Option ℤ)
  | wait w => some w.timeout
  | _ => none

/-- The waits of a request time out in the opposite of their order: none of them may wait longer
than one before it. -/
def TimeoutsDescend (ops : List (Operation n)) : Prop :=
  (ops.filterMap Operation.timeout?).Pairwise fun a b => ∀ x, a = some x → ∃ y, b = some y ∧ y ≤ x

/-- What ensures that a wait which blocks has not timed out: nothing has yet, or every wait to come
has a timeout that is no later than `timeout`. -/
def Ahead (elapsed timeout : ℤ) (as : List (Option ℤ)) : Prop :=
  elapsed < timeout ∨ ∀ a ∈ as, ∃ y, a = some y ∧ y ≤ timeout

/-- The time has not run out at a wait that is still ahead. -/
lemma Ahead.elapsed_lt {a : Option ℤ} (h : Ahead elapsed timeout (a :: as))
    (ha : ∀ x, a = some x → elapsed < x) : elapsed < a.elim timeout fun x => min x timeout := by
  rcases h with hlt | hall
  · cases a with
    | none => exact hlt
    | some x => exact lt_min (ha x rfl) hlt
  · obtain ⟨x, rfl, hx⟩ := hall a mem_cons_self
    rw [Option.elim_some, min_eq_left hx]
    exact ha x rfl

lemma Ahead.tail {a : Option ℤ} (h : Ahead elapsed timeout (a :: as))
    (hdesc : ∀ b ∈ as, ∀ x, a = some x → ∃ y, b = some y ∧ y ≤ x) :
    Ahead elapsed (a.elim timeout fun x => min x timeout) as := by
  rcases h with hlt | hall
  · cases a with
    | none => exact .inl hlt
    | some x =>
      by_cases hx : x ≤ timeout
      · refine .inr fun b hb => ?_
        rw [Option.elim_some, min_eq_left hx]
        exact hdesc b hb x rfl
      · rw [Option.elim_some, min_eq_right (not_le.1 hx).le]
        exact .inl hlt
  · obtain ⟨x, rfl, hx⟩ := hall a mem_cons_self
    refine .inr fun b hb => ?_
    rw [Option.elim_some, min_eq_left hx]
    exact hdesc b hb x rfl

/-- **A request whose timeouts descend blocks until a time that is yet to come.** -/
lemma elapsed_lt_of_blocked {elapsed timeout timeout' : ℤ} (hdesc : TimeoutsDescend ops)
    (hahead : Ahead elapsed timeout (ops.filterMap Operation.timeout?))
    (hops : executeOps gen elapsed ops timeout s = some (.blocked, timeout', t)) :
    elapsed < timeout' := by
  induction ops generalizing timeout s with
  | nil => cases hops
  | cons op ops ih =>
    obtain ⟨timeout1, s1, hop, hrest⟩ | hop := executeOps_cons_cases hops
    · obtain ⟨w, rfl, hexec, -⟩ | ⟨hwait, -, rfl, -⟩ := executeOp_cases hop
      · obtain ⟨-, -, hbound⟩ := executeWait_ok_iff.1 hexec
        obtain ⟨hhead, htail⟩ := pairwise_cons.1 (show
          (w.timeout :: ops.filterMap Operation.timeout?).Pairwise _ from hdesc)
        refine ih htail ?_ hrest
        rw [hbound]
        exact Ahead.tail hahead hhead
      · have htimeout? : op.timeout? = none := by
          cases op with
          | wait w => exact absurd rfl (hwait w)
          | _ => rfl
        rw [filterMap_cons_none htimeout?] at hahead
        rw [TimeoutsDescend, filterMap_cons_none htimeout?] at hdesc
        exact ih hdesc hahead hrest
    · obtain ⟨w, rfl, hpos, -, hbound⟩ := executeOp_blocked hop
      rw [hbound]
      exact Ahead.elapsed_lt hahead fun x hx => (hpos x hx).2

end Ovsdb

end OVS
