import OpenVSwitch.Ovsdb.Index

/-!
# Before a commit, and instead of one

* `txnAbort_spec` — from any state of a transaction, `ovsdb_txn_abort()` returns, and what it
  leaves behind is the database in which the transaction began (`Restored`).
* `Op.run_spec` — what clients do to rows keeps the transaction in a state `Begun`: nothing has
  been counted, no weak reference added, nothing filed in an index.
* `forEach_determineChanges` — so does `determine_changes()`, which drops rows that have not
  really changed and marks the columns of the others.

What data a row may hold is left open: `Q k col d` is a condition on the value `d` of a column,
which clients observe in what they write.
-/

namespace OVS

namespace Ovsdb

open List Function Prog Db

variable {n : ℕ} {c s s' s₀ : Db n} {gen : ℕ → Uuid} {σ : Schema n}

/-! ## Aborting a row -/

/-- The middle of `ovsdb_txn_row_abort()`: the table gets the committed version back. -/
def relink (s : Db n) (k : Key n) (r : TxnRow) : Db n :=
  match r.old, r.new with
  | none, none => s.removeTxnRow k
  | none, some _ => (s.removeTxnRow k).removeRow k
  | some old, _ => (s.removeTxnRow k).putRow k old

/-- The state after `ovsdb_txn_row_abort()`. -/
def abortRow (s : Db n) (k : Key n) (r : TxnRow) : Db n :=
  match r.new with
  | none => relink s k r
  | some new => (relink s k r).rowDestroy new

variable {E : Stop n → Db n → Prop} {k : Key n} {r : TxnRow} {k' : Key n}

lemma txnRowAbort_spec (hr : s₀.txnRows.lookup k = some r) :
    Spec (· = s₀) (txnRowAbort k) (fun _ s => s = abortRow s₀ k r) E := by
  refine txnRow_reads.bind_of (fun s hs => hs ▸ hr) ?_
  refine Spec.bind (Spec.modify (Q := fun _ s' => s' = s₀.removeTxnRow k)
    fun _ hs => by rw [hs]) fun _ => Spec.bind (Spec.modify
    (Q := fun _ s' => s' = relink s₀ k r) fun s' hs => ?_) fun _ =>
    Spec.ifSome (fun hnone s' hs => ?_) fun new hnew => Spec.modify fun s' hs => ?_
  · rw [hs]
    cases hold : r.old <;> cases hnew : r.new <;> simp only [relink, hold, hnew]
  · rw [hs, abortRow, hnone]
  · rw [hs, abortRow, hnew]

section AbortRow

variable {k : Key n} {r : TxnRow}

lemma abortRow_fields (s : Db n) (k : Key n) (r : TxnRow) :
    (abortRow s k r).next = s.next ∧ (abortRow s k r).indexes = s.indexes ∧
      (abortRow s k r).txnTables = s.txnTables ∧ (abortRow s k r).txnIndexes = s.txnIndexes ∧
      (abortRow s k r).weakRefs =
        r.new.elim s.weakRefs fun a => s.weakRefs.filter fun w => w.src ≠ a ∧ w.dst ≠ a := by
  unfold abortRow relink
  cases r.old <;> cases r.new <;> exact ⟨rfl, rfl, rfl, rfl, rfl⟩

lemma abortRow_txnRows : (abortRow s k r).txnRows = s.txnRows.erase k := by
  unfold abortRow relink
  cases r.old <;> cases r.new <;> rfl

lemma abortRow_heap {a : ℕ} (ha : r.new ≠ some a) : (abortRow s k r).heap a = s.heap a := by
  unfold abortRow relink
  cases r.old <;> cases hnew : r.new <;>
    first | rfl | exact update_of_ne (by rintro rfl; exact ha hnew) _ _

lemma abortRow_lookup_of_ne (s : Db n) (r : TxnRow) (hk : k' ≠ k) :
    (abortRow s k r).rows.lookup k' = s.rows.lookup k' := by
  unfold abortRow relink
  cases r.old <;> cases r.new <;> simp [hk]

lemma abortRow_lookup_self (hnew : r.new = s.rows.lookup k) :
    (abortRow s k r).rows.lookup k = r.old := by
  unfold abortRow relink
  cases hold : r.old <;> cases hr : r.new <;> simp [← hnew, hr]

/-- **Aborting a row** keeps the state one of the transaction. -/
lemma Within.abort (hc : Committed c) (h : Within c s) (hr : s.txnRows.lookup k = some r) :
    Within c (abortRow s k r) := by
  obtain ⟨hnext, hindexes, htables, -, hweak⟩ := abortRow_fields s k r
  exact h.retire hc hr hnext (fun _ => abortRow_heap) hindexes hweak htables
    (fun k' hk => abortRow_lookup_of_ne s r hk) (fun k' hk => by simp [abortRow_txnRows, hk])
    (.inl ⟨by simp [abortRow_txnRows], abortRow_lookup_self ((h.rows k).new r hr)⟩)

end AbortRow

/-! ## Aborting a transaction -/

/-- What an abort leaves behind: a state of the transaction without rows. -/
structure Restored (c s : Db n) : Prop where
  within : Within c s
  txnRows : ∀ k, s.txnRows.lookup k = none
  txnTables : s.txnTables = []

namespace Restored

lemma lookup (h : Restored c s) (k : Key n) : s.rows.lookup k = c.rows.lookup k :=
  (h.within.rows k).untouched (h.txnRows k)

lemma row (hc : Committed c) (h : Restored c s) (k : Key n) : s.row k = c.row k :=
  h.within.row_of_none hc (h.txnRows k)

lemma weakRefs (h : Restored c s) : s.weakRefs = c.weakRefs := by
  obtain ⟨added, hadd, hall⟩ := h.within.weak
  have hnil : added = [] := by
    refine eq_nil_iff_forall_not_mem.2 fun w hw => ?_
    obtain ⟨⟨k, r, hr, -⟩, -⟩ := hall w hw
    rw [h.txnRows k] at hr
    cases hr
  rw [hadd, hnil, append_nil]

end Restored

/-- **`ovsdb_txn_abort()`** succeeds from any state of the transaction. -/
lemma txnAbort_spec (hc : Committed c) (order : ℕ → ℕ) :
    Spec (Within c) (txnAbort order) (fun _ => Restored c) E := by
  refine Spec.intro fun s₀ hs0 => Spec.bind (Q := fun _ => Restored c)
    (forEachTxnRow_total (fun done s => Within c s ∧ (∀ k ∈ done, s.txnRows.lookup k = none) ∧
      ∀ k r, s.txnRows.lookup k = some r → s₀.Has k) ?_ ?_ ?_ ?_)
    fun _ => Spec.get_bind fun s hs => Spec.ite (fun _ => Spec.pure ?_) fun hne => ?_
  · exact ⟨hs0, fun k hk => absurd hk not_mem_nil, fun k r hr => .inr (by simp [hr])⟩
  · exact fun done s hs k r hr => hs.2.2 k r hr
  · rintro done s k r ⟨hw, hdone, hkeys⟩ hr hk
    refine (txnRowAbort_spec hr).post fun _ s' hs' => ?_
    rw [hs']
    refine ⟨hw.abort hc hr, fun k' hk' => ?_, fun k' r' hr' => ?_⟩
    · rw [abortRow_txnRows, lookup_erase]
      rcases mem_cons.1 hk' with rfl | hk'
      · rw [if_pos rfl]
      · rw [hdone k' hk', ite_self]
    · rw [abortRow_txnRows, lookup_erase] at hr'
      split at hr'
      · cases hr'
      · exact hkeys k' r' hr'
  · rintro done s ⟨hw, hdone, -⟩ hall
    have hnone : ∀ k, s.txnRows.lookup k = none := by
      intro k
      cases hr : s.txnRows.lookup k with
      | none => rfl
      | some r => rw [← hr, hdone k (hall k r hr)]
    exact ⟨hw.dropEmptyTxnTables, hnone, dropEmptyTxnTables_eq_nil hnone⟩
  · rintro _ rfl
    exact hs
  · rw [hs.txnTables] at hne
    exact absurd rfl hne

/-! ## Before a commit -/

/-- The indexes of the transaction are empty. -/
def Fresh (s : Db n) : Prop := ∀ t ∈ s.txnTables, ∀ i, s.txnIndexes t i = []

lemma Fresh.createTxnTable (h : Fresh s) (t : Fin n) : Fresh (s.createTxnTable t) := by
  intro t' ht' i
  by_cases ht : t ∈ s.txnTables
  · simp only [createTxnTable_txnTables, createTxnTable_txnIndexes, if_pos ht] at ht' ⊢
    exact h t' ht' i
  · simp only [createTxnTable_txnTables, createTxnTable_txnIndexes, if_neg ht,
      mem_append, mem_singleton] at ht' ⊢
    by_cases htt : t' = t
    · rw [htt, update_self]
    · rw [update_of_ne htt]
      exact h t' (ht'.resolve_right htt) i

lemma Fresh.dropEmptyTxnTables (h : Fresh s) : Fresh s.dropEmptyTxnTables :=
  fun t ht => h t (mem_of_mem_filter ht)

variable (σ) in
/-- Every column of every row satisfies `Q`. -/
def AllColumns (Q : Key n → Column n → Datum → Prop) (V : Contents n) : Prop :=
  ∀ k data, V k = some data → ∀ col ∈ (σ.table k.1).columns, Q k col (data col.index)

variable {Q : Key n → Column n → Datum → Prop}

lemma AllColumns.update {V : Contents n} (h : AllColumns σ Q V) (k : Key n)
    {v : Option (ℕ → Datum)}
    (hv : ∀ data, v = some data → ∀ col ∈ (σ.table k.1).columns, Q k col (data col.index)) :
    AllColumns σ Q (update V k v) := by
  intro k' data hdata
  by_cases hk : k' = k
  · subst hk
    rw [update_self] at hdata
    exact hv data hdata
  · rw [update_of_ne hk] at hdata
    exact h k' data hdata

/-- A transaction that has not been committed yet. -/
structure Begun (σ : Schema n) (Q : Key n → Column n → Datum → Prop) (c s : Db n) : Prop where
  early : Early c s
  refs : s.refs = c.refs
  fresh : Fresh s
  columns : AllColumns σ Q s.contents

lemma Db.refs_congr (htxn : s'.txnRows.lookup k = s.txnRows.lookup k) (hrow : s'.row k = s.row k) :
    s'.refs k = s.refs k := by
  rw [refs, refs, htxn, hrow]

lemma Committed.refs_of_none (hc : Committed c) (h : c.rows.lookup k = none) : c.refs k = 0 := by
  rw [refs, hc.txnRows k, row_of_none h]
  rfl

lemma Begun.refl (hc : Committed c) (hQ : AllColumns σ Q c.contents) : Begun σ Q c c where
  early := ⟨.refl hc, rfl⟩
  refs := rfl
  fresh := by
    intro t ht
    rw [hc.txnTables] at ht
    exact absurd ht not_mem_nil
  columns := hQ

/-- A step that changes one row. -/
lemma Begun.step (h : Begun σ Q c s) (k : Key n) (hearly : Early c s') (hfresh : Fresh s')
    (htxn : ∀ k' ≠ k, s'.txnRows.lookup k' = s.txnRows.lookup k')
    (hrow : ∀ k' ≠ k, s'.row k' = s.row k') (hrefs : s'.refs k = c.refs k)
    (hcolumns : ∀ data, s'.contents k = some data → ∀ col ∈ (σ.table k.1).columns,
      Q k col (data col.index)) : Begun σ Q c s' := by
  refine ⟨hearly, funext fun k' => ?_, hfresh, ?_⟩
  · by_cases hk : k' = k
    · rw [hk, hrefs]
    · rw [refs_congr (htxn k' hk) (hrow k' hk), h.refs]
  · have hcontents : s'.contents = update s.contents k (s'.contents k) := by
      funext k'
      by_cases hk : k' = k
      · rw [hk, update_self]
      · rw [update_of_ne hk, contents, hrow k' hk, contents]
    rw [hcontents]
    exact h.columns.update k hcolumns

lemma Begun.pullable (hc : Committed c) : Pullable gen c (Begun σ Q c) where
  within s h := h.early.1
  clone s a row h hrow hrows hr := by
    refine ⟨(Early.collectable hc).clone s a row h.early hrow hrows hr, ?_, ?_, ?_⟩
    · rw [h.early.1.refs_cloneRow hc hrow hrows hr, h.refs]
    · exact (show Fresh (s.alloc _) from h.fresh).createTxnTable row.key.1
    · rw [h.early.1.contents_cloneRow hc hrow hrows]
      exact h.columns

variable (σ Q) in
/-- What a client writes satisfies `Q`. -/
def Op.Writes : Op n → Prop
  | .insert k data => ∀ col ∈ (σ.table k.1).columns, Q k col (data col.index)
  | .modify k writes =>
    ∀ w ∈ writes, ∀ col ∈ (σ.table k.1).columns, col.index = w.1 → Q k col w.2
  | .delete _ => True

section Ops

variable {k : Key n} {a : ℕ} {E : Stop n → Db n → Prop}

section

variable (hc : Committed c)
include hc

/-- `ovsdb_txn_row_insert()`. -/
lemma txnRowInsert_spec {data : ℕ → Datum}
    (hQ : ∀ col ∈ (σ.table k.1).columns, Q k col (data col.index)) :
    Spec (fun s => Begun σ Q c s ∧ s.rows.lookup k = none ∧ s.txnRows.lookup k = none)
      (txnRowInsert gen k data) (fun _ => Begun σ Q c) E := by
  rintro s ⟨h, hrows, hr⟩
  have hkey : (⟨k.1, k.2, gen s.next, data, 0, fun _ => 0⟩ : Row n).key = k := rfl
  refine h.step k ⟨h.early.1.alloc hkey hr hrows 0, h.early.2⟩
    ((show Fresh (s.alloc _) from h.fresh).createTxnTable k.1)
    (fun k' hk => by simp [hk])
    (fun k' hk => h.early.1.row_alloc_of_ne hc _ _ _ hk) ?_ ?_
  · have hold := (h.early.1.rows k).untouched hr
    rw [hc.refs_of_none (hold.symm.trans hrows)]
    simp [refs]
  · intro data' hdata
    rw [contents, Within.row_alloc_self] at hdata
    cases hdata
    exact hQ

/-- A write to a column of a row that has been modified. -/
lemma Begun.write (h : Begun σ Q c s) (hr : s.txnRows.lookup k = some r) (ha : r.new = some a)
    {row : Row n} (hrow : s.heap a = some row) {w : ℕ × Datum}
    (hQ : ∀ col ∈ (σ.table k.1).columns, col.index = w.1 → Q k col w.2) :
    Begun σ Q c (s.setRow a (row.setField w.1 w.2)) := by
  have hw := h.early.1
  have hrows : s.rows.lookup k = some a := by rw [← (hw.rows k).new r hr, ha]
  obtain ⟨-, row', hrow', hkey⟩ := (hw.rows k).cell r a hr ha
  rw [hrow] at hrow'
  cases hrow'
  refine h.step k ⟨hw.setRow hr ha hkey, h.early.2⟩ h.fresh (fun _ _ => rfl)
    (fun k' hk => hw.row_setRow_of_ne hc _ hrows hk) ?_ ?_
  · rw [← h.refs, refs_of_txnRow hr]
    exact refs_of_txnRow hr
  · intro data hdata col hcol
    have hself : (s.setRow a (row.setField w.1 w.2)).row k = some (row.setField w.1 w.2) := by
      rw [row_of_lookup (show (s.setRow a _).rows.lookup k = some a from hrows)]
      simp
    rw [contents, hself] at hdata
    cases hdata
    show Q k col (update row.data w.1 w.2 col.index)
    by_cases hcw : col.index = w.1
    · rw [hcw, update_self]
      exact hQ col hcol hcw
    · rw [update_of_ne hcw]
      exact h.columns k row.data (contents_of_lookup hrows hrow) col hcol

/-- What `ovsdb_txn_row_delete()` does. -/
lemma txnRowDelete_run (hw : Within c s) (hrows : s.rows.lookup k = some a) :
    Spec (· = s) (txnRowDelete a)
      (fun _ s' => (s.txnRows.lookup k = none ∧ ∃ row, s.heap a = some row ∧
          s' = (s.removeRow k).txnRowCreate k (some a) none row.nRefs) ∨
        ∃ r, s.txnRows.lookup k = some r ∧ r.new = some a ∧
          s' = (if r.old.isSome then (s.removeRow k).putTxnRow k { r with new := none }
            else (s.removeRow k).removeTxnRow k).rowDestroy a) E := by
  refine deref_reads.bind_such (fun s' hs => hs ▸ hw.row hc hrows) fun row hkey =>
    Spec.intro fun s' hs => ?_
  obtain ⟨rfl, hrow⟩ := hs
  subst hkey
  refine Spec.bind (Spec.modify (Q := fun _ s1 => s1 = s'.removeRow row.key)
    fun _ hs => by rw [hs]) fun _ => Spec.get_bind fun s1 hs1 => ?_
  subst hs1
  cases hr : (s'.removeRow row.key).txnRows.lookup row.key with
  | none => exact Spec.modify fun s2 hs2 => .inl ⟨hr, row, hrow, by rw [hs2]⟩
  | some r =>
    have hnew : r.new = some a := by rw [(hw.rows row.key).new r hr, hrows]
    dsimp only
    rw [if_pos hnew]
    refine Spec.bind (Spec.modify (Q := fun _ s2 => s2 = if r.old.isSome then
      (s'.removeRow row.key).putTxnRow row.key { r with new := none }
      else (s'.removeRow row.key).removeTxnRow row.key) fun _ hs => by rw [hs]) fun _ =>
      Spec.modify fun s3 hs3 => .inr ⟨r, hr, hnew, by rw [hs3]⟩

/-- A row that is destroyed takes no other row with it. -/
lemma Within.row_of_removed (h : Within c s) (ha : s.rows.lookup k = some a)
    (hrows : s'.rows = s.rows.erase k) (hheap : s'.heap = Function.update s.heap a none)
    (hk : k' ≠ k) : s'.row k' = s.row k' := by
  rw [Db.row, Db.row, hrows, hheap, lookup_erase, if_neg hk]
  cases hb : s.rows.lookup k' with
  | none => rfl
  | some b =>
    refine update_of_ne ?_ _ _
    rintro rfl
    exact hk (h.cell_inj hc hb ha)

/-- `ovsdb_txn_row_delete()`. -/
lemma txnRowDelete_spec : Spec (fun s => Begun σ Q c s ∧ s.rows.lookup k = some a) (txnRowDelete a)
      (fun _ => Begun σ Q c) E := by
  refine Spec.intro fun s ⟨h, hrows⟩ =>
    (txnRowDelete_run hc h.early.1 hrows).post fun _ s' hs' => ?_
  have hw := h.early.1
  -- whatever the case, the row is gone and the others stay
  have hstep : ∀ s', Early c s' → Fresh s' →
      (∀ k' ≠ k, s'.txnRows.lookup k' = s.txnRows.lookup k') →
      (∀ k' ≠ k, s'.row k' = s.row k') → s'.refs k = c.refs k → s'.rows.lookup k = none →
      Begun σ Q c s' := by
    intro s' hearly hfresh htxn hrow hrefs hnone
    refine h.step k hearly hfresh htxn hrow hrefs fun data hdata => ?_
    rw [contents_of_none hnone] at hdata
    cases hdata
  obtain ⟨hr, row, hrow, rfl⟩ | ⟨r, hr, hnew, rfl⟩ := hs'
  · refine hstep _ ⟨hw.deleteOld hr hrows _, h.early.2⟩
      ((show Fresh (s.removeRow k) from h.fresh).createTxnTable k.1)
      (fun k' hk => by simp [hk]) (fun k' hk => ?_) ?_ ?_
    · simp [Db.row, hk]
    · rw [← h.refs]
      simp [refs, hr, row_of_lookup hrows, hrow]
    · simp
  · have hweak : ∀ s' : Db n, s'.weakRefs = s.weakRefs.filter (fun w => w.src ≠ a ∧ w.dst ≠ a) →
        s'.weakRefs = c.weakRefs := by
      intro s' hs'
      rw [hs', h.early.2, Within.filter_weak hc ((hw.rows k).cell r a hr hnew).1]
    have hheap : ∀ x, r.new ≠ some x → update s.heap a none x = s.heap x := fun x hx =>
      update_of_ne (by rintro rfl; exact hx hnew) _ _
    split
    · refine hstep _ ⟨hw.retire hc hr rfl hheap rfl (by simp [hnew]) rfl (fun k' hk => by simp [hk])
        (fun k' hk => by simp [hk]) (.inr ⟨by simp, by simp⟩), hweak _ rfl⟩ h.fresh
        (fun k' hk => by simp [hk]) (fun _ => hw.row_of_removed hc hrows rfl rfl) ?_ (by simp)
      rw [← h.refs]
      simp [refs, hr]
    · next hold =>
      rw [Option.not_isSome_iff_eq_none] at hold
      refine hstep _ ⟨hw.retire hc hr rfl hheap rfl (by simp [hnew]) rfl (fun k' hk => by simp [hk])
        (fun k' hk => by simp [hk]) (.inl ⟨by simp, by simp [hold]⟩), hweak _ rfl⟩ h.fresh
        (fun k' hk => by simp [hk]) (fun _ => hw.row_of_removed hc hrows rfl rfl) ?_ (by simp)
      rw [hc.refs_of_none (by rw [← (hw.rows k).old r hr, hold])]
      simp [refs, Db.row]

end

end Ops

/-- **A row is modified**: it gets a new version, if it has none, and then its columns. -/
lemma Op.run_modify (hc : Committed c) {F : Db n → Prop} (hF : Pullable gen c F)
    {writes : List (ℕ × Datum)}
    (hwrite : ∀ s r b row, F s → s.txnRows.lookup k = some r → r.new = some b →
      s.heap b = some row → ∀ w ∈ writes, F (s.setRow b (row.setField w.1 w.2))) :
    Spec F ((Op.modify k writes).run gen)
      (fun _ s => F s ∧ ∃ r b, s.txnRows.lookup k = some r ∧ r.new = some b)
      (fun st s => st = .crash ∧ F s) := by
  refine Spec.get_bind fun s hs => ?_
  split
  · exact Spec.throw fun s1 hs1 => ⟨rfl, hs1 ▸ hs⟩
  · next a ha =>
    refine Spec.bind ((txnRowModify_spec hc hF (k := k)).pre fun s1 hs1 => ?_) fun b => ?_
    · rw [hs1]
      exact ⟨hs, ha⟩
    refine (Spec.each_inv (I := fun s => F s ∧
      ∃ r, s.txnRows.lookup k = some r ∧ r.new = some b) fun w hw => ?_).conseq
      (fun s hs => ⟨hs.1, hs.2.2⟩) (fun _ s hs => ⟨hs.1, hs.2.imp fun _ hr => ⟨b, hr⟩⟩)
      fun _ _ h => h
    refine deref_reads.bind_such (T := (·.key = k)) (fun s hs => ?_) fun row _ => Spec.modify ?_
    · obtain ⟨hFs, r, hr, hnew⟩ := hs
      exact (((hF.within s hFs).rows k).cell r b hr hnew).2
    · rintro s ⟨⟨hFs, r, hr, hnew⟩, hrow⟩
      exact ⟨hwrite s r b row hFs hr hnew hrow w hw, r, hr, hnew⟩

/-- **What clients do** keeps a transaction in a state before its commit.  It fails only where the
caller has broken the rules, with an assertion. -/
lemma Op.run_spec (hc : Committed c) {op : Op n} (hop : op.Writes σ Q) :
    Spec (Begun σ Q c) (op.run gen) (fun _ => Begun σ Q c)
      (fun st s => st = .crash ∧ Begun σ Q c s) := by
  cases op with
  | insert k data =>
    refine Spec.get_bind fun s hs => Spec.ite (fun hnone => ?_) fun _ =>
      Spec.throw fun s1 hs1 => ⟨rfl, hs1 ▸ hs⟩
    simp only [Option.isNone_iff_eq_none] at hnone
    refine (txnRowInsert_spec hc hop).pre fun s1 hs1 => ?_
    rw [hs1]
    exact ⟨hs, hnone⟩
  | modify k writes =>
    refine (Op.run_modify hc (Begun.pullable hc) fun s r b row hs hr hnew hrow w hw => ?_).post
      fun _ s hs => hs.1
    exact hs.write hc hr hnew hrow (hop w hw)
  | delete k =>
    refine Spec.get_bind fun s hs => ?_
    split
    · exact Spec.throw fun s1 hs1 => ⟨rfl, hs1 ▸ hs⟩
    · next a ha =>
      refine (txnRowDelete_spec hc (k := k)).pre fun s1 hs1 => ?_
      rw [hs1]
      exact ⟨hs, ha⟩

/-! ## Determining changes -/

/-- All columns of two rows have the same values. -/
def SameColumns (σ : Schema n) (t : Fin n) (a b : Row n) : Prop :=
  ∀ col ∈ (σ.table t).columns, (a.field col.index).canon = (b.field col.index).canon

/-- Columns that are not marked have their committed values. -/
def Marks (σ : Schema n) (c : Db n) (changed : ℕ → Bool) (k : Key n) (s : Db n) : Prop :=
  ∀ a b, c.row k = some a → s.row k = some b → ∀ col ∈ (σ.table k.1).columns,
    changed col.index = false → (a.field col.index).canon = (b.field col.index).canon

/-- **`determine_changes()`** drops a row that has not changed, or marks its changed columns. -/
lemma determineChanges_spec (hc : Committed c) (hw : Within c s₀)
    (hr : s₀.txnRows.lookup k = some r) : Spec (· = s₀) (determineChanges σ k)
      (fun _ s => (s = abortRow s₀ k r ∧ ∃ a b, c.row k = some a ∧ s₀.row k = some b ∧
          SameColumns σ k.1 a b) ∨
        ∃ changed, s = s₀.putTxnRow k { r with changed := changed } ∧ Marks σ c changed k s₀)
      E := by
  refine txnRow_reads.bind_of (fun s hs => hs ▸ hr) (Spec.intro fun s hs => ?_)
  subst hs
  have hold := (hw.rows k).old r hr
  have hnew := (hw.rows k).new r hr
  split
  · next old new heq1 heq2 =>
    rw [heq1] at hold
    rw [heq2] at hnew
    obtain ⟨a, ha, -⟩ := hc.row k old hold.symm
    obtain ⟨b, hb, -⟩ := hw.row hc hnew.symm
    have harow : c.row k = some a := by rw [row_of_lookup hold.symm, ha]
    have hbrow : s.row k = some b := by rw [row_of_lookup hnew.symm, hb]
    have haheap : s.heap old = some a := by rw [hw.heap old (hc.lt_next ha), ha]
    refine deref_reads.bind_of (fun _ hs => hs ▸ haheap) (deref_reads.bind_of (fun _ hs => hs ▸ hb)
      (Spec.ite (fun hany => Spec.modify fun s2 hs2 => ?_) fun hnone => ?_))
    · refine .inr ⟨_, by rw [hs2], fun a1 b1 ha1 hb1 col hcol hfalse => ?_⟩
      rw [harow] at ha1
      rw [hbrow] at hb1
      cases ha1
      cases hb1
      rw [any_eq_false] at hfalse
      have hcol' := hfalse col hcol
      rw [decide_eq_true rfl, Bool.true_and, Bool.not_eq_true, Bool.not_eq_false'] at hcol'
      exact Datum.equals_iff.1 hcol'
    · refine (txnRowAbort_spec hr).post fun _ s2 hs2 => .inl ⟨hs2, a, b, harow, hbrow, ?_⟩
      intro col hcol
      rw [Bool.not_eq_true, any_eq_false] at hnone
      have hcol' := hnone col hcol
      rw [Bool.not_eq_true, Bool.not_eq_false'] at hcol'
      exact Datum.equals_iff.1 hcol'
  · refine Spec.modify fun s2 hs2 => ?_
    rw [hs2]
    refine .inr ⟨fun _ => true, rfl, fun _ _ _ _ _ _ h => ?_⟩
    cases h

/-- A row that is still the one the client has left, or the committed one with the same columns. -/
def Kept (σ : Schema n) (c s₀ s : Db n) (k : Key n) : Prop :=
  s.row k = s₀.row k ∨ s.row k = c.row k ∧
    ∃ a b, c.row k = some a ∧ s₀.row k = some b ∧ SameColumns σ k.1 a b

/-- What holds when `determine_changes()` has been called for the rows in `done`. -/
structure Determining (σ : Schema n) (Q : Key n → Column n → Datum → Prop) (c s₀ : Db n)
    (done : List (Key n)) (s : Db n) : Prop where
  begun : Begun σ Q c s
  keys : ∀ k r, s.txnRows.lookup k = some r → s₀.Has k
  kept : ∀ k, Kept σ c s₀ s k
  rest : ∀ k ∉ done, s.row k = s₀.row k
  marks : ∀ k ∈ done, ∀ r, s.txnRows.lookup k = some r → Marks σ c r.changed k s

section Determining

variable {done : List (Key n)} (h : Determining σ Q c s₀ done s)
  (hr : s.txnRows.lookup k = some r)
include h hr

/-- A row that has not changed is taken out of the transaction. -/
lemma Determining.drop (hc : Committed c) (hQ : AllColumns σ Q c.contents) (hk : k ∉ done)
    {a b : Row n} (ha : c.row k = some a) (hb : s.row k = some b)
    (hsame : SameColumns σ k.1 a b) : Determining σ Q c s₀ (k :: done) (abortRow s k r) := by
  have hw := h.begun.early.1
  obtain ⟨-, -, htables, hindexes, hweak⟩ := abortRow_fields s k r
  have hrow_ne : ∀ k' ≠ k, (abortRow s k r).row k' = s.row k' := by
    intro k' hk
    rw [Db.row, Db.row, abortRow_lookup_of_ne s r hk]
    cases hb' : s.rows.lookup k' with
    | none => rfl
    | some b =>
      refine abortRow_heap fun hnew => hk (hw.cell_inj hc hb' ?_)
      rw [← (hw.rows k).new r hr, hnew]
  have htxn : ∀ k' ≠ k, (abortRow s k r).txnRows.lookup k' = s.txnRows.lookup k' :=
    fun k' hk' => by rw [abortRow_txnRows, lookup_erase, if_neg hk']
  have htxn_self : (abortRow s k r).txnRows.lookup k = none := by
    rw [abortRow_txnRows, lookup_erase, if_pos rfl]
  have hrow_self : (abortRow s k r).row k = c.row k := (hw.abort hc hr).row_of_none hc htxn_self
  have hne : ∀ {k' r'}, (abortRow s k r).txnRows.lookup k' = some r' → k' ≠ k := by
    rintro k' r' hr' rfl
    rw [htxn_self] at hr'
    cases hr'
  refine ⟨h.begun.step k ⟨hw.abort hc hr, ?_⟩ ?_ htxn hrow_ne ?_ ?_, fun k' r' hr' => ?_,
    fun k' => ?_, fun k' hk' => ?_, fun k' hk' r' hr' => ?_⟩
  · rw [hweak, h.begun.early.2]
    cases hnew : r.new with
    | none => rfl
    | some a => exact Within.filter_weak hc ((hw.rows k).cell r a hr hnew).1
  · unfold Fresh
    rw [htables, hindexes]
    exact h.begun.fresh
  · rw [refs, refs, htxn_self, hrow_self, hc.txnRows k]
  · intro data hdata
    rw [contents, hrow_self] at hdata
    exact hQ k data hdata
  · exact h.keys k' r' (by rw [← htxn k' (hne hr'), hr'])
  · by_cases hkk : k' = k
    · subst hkk
      exact .inr ⟨hrow_self, a, b, ha, by rw [← h.rest k' hk, hb], hsame⟩
    · exact (h.kept k').imp (fun h => (hrow_ne k' hkk).trans h)
        fun h => ⟨(hrow_ne k' hkk).trans h.1, h.2⟩
  · have hkk : k' ≠ k := fun h => hk' (h ▸ mem_cons_self)
    rw [hrow_ne k' hkk, h.rest k' fun h => hk' (mem_cons_of_mem k h)]
  · have hkk := hne hr'
    intro a1 b1 ha1 hb1
    rw [hrow_ne k' hkk] at hb1
    rw [htxn k' hkk] at hr'
    exact h.marks k' ((mem_cons.1 hk').resolve_left hkk) r' hr' a1 b1 ha1 hb1

/-- The columns of a row that have changed are marked. -/
lemma Determining.mark {changed : ℕ → Bool} (hchanged : Marks σ c changed k s) :
    Determining σ Q c s₀ (k :: done) (s.putTxnRow k { r with changed := changed }) := by
  have htxn : ∀ k' ≠ k, (s.putTxnRow k { r with changed := changed }).txnRows.lookup k' =
      s.txnRows.lookup k' := fun k' hk' => by simp [hk']
  refine ⟨h.begun.step k ⟨h.begun.early.1.putTxnRow hr rfl rfl, h.begun.early.2⟩ h.begun.fresh
    htxn (fun _ _ => rfl) ?_ (fun data hdata => h.begun.columns k data hdata),
    fun k' r' hr' => ?_, h.kept, fun k' hk' => h.rest k' fun h => hk' (mem_cons_of_mem k h),
    fun k' hk' r' hr' => ?_⟩
  · rw [← h.begun.refs, refs_of_txnRow hr]
    simp [refs]
  · by_cases hkk : k' = k
    · exact h.keys k' r (hkk ▸ hr)
    · exact h.keys k' r' (by rw [← htxn k' hkk, hr'])
  · by_cases hkk : k' = k
    · subst hkk
      rw [putTxnRow_txnRows, lookup_insert, if_pos rfl] at hr'
      cases hr'
      exact hchanged
    · rw [htxn k' hkk] at hr'
      exact h.marks k' ((mem_cons.1 hk').resolve_left hkk) r' hr'

end Determining

/-- **`determine_changes()`** for all rows of the transaction. -/
lemma forEach_determineChanges (hc : Committed c) (hQ : AllColumns σ Q c.contents)
    (hs0 : Begun σ Q c s₀) (order : ℕ → ℕ) :
    Spec (· = s₀) (forEachTxnRow order (determineChanges σ))
      (fun _ s => Begun σ Q c s ∧ (∀ k, Kept σ c s₀ s k) ∧
        ∀ k r, s.txnRows.lookup k = some r → Marks σ c r.changed k s) E := by
  refine forEachTxnRow_total (Determining σ Q c s₀) ?_ ?_ ?_ ?_
  · exact ⟨hs0, fun k r hr => .inr (by simp [hr]), fun k => .inl rfl, fun k _ => rfl,
      fun k hk => absurd hk not_mem_nil⟩
  · exact fun done s hs => hs.keys
  · intro done s k r h hr hk
    refine (determineChanges_spec hc h.begun.early.1 hr).post fun _ s' hs' => ?_
    rcases hs' with ⟨rfl, a, b, ha, hb, hsame⟩ | ⟨changed, rfl, hchanged⟩
    · exact h.drop hr hc hQ hk ha hb hsame
    · exact h.mark hr hchanged
  · intro done s h hall
    exact ⟨⟨⟨h.begun.early.1.dropEmptyTxnTables, h.begun.early.2⟩, h.begun.refs,
      h.begun.fresh.dropEmptyTxnTables, h.begun.columns⟩, h.kept,
      fun k r hr => h.marks k (hall k r hr) r hr⟩

end Ovsdb

end OVS
