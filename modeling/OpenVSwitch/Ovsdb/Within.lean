import OpenVSwitch.Ovsdb.State

/-!
# The states of a transaction

`Committed` is what holds of a database between transactions; `Within c s` says that the state
`s` belongs to a transaction that began in `c`.  It lists what the code leaves alone (the cells
that were in use, the indexes, the weak references, the rows without a row of the transaction)
and what it remembers of the rest: the committed version of every row of the transaction.

The lemmas `Within.*` say that the steps of a transaction keep it.  `Pullable` and `Stable` are
closure conditions on further properties of such states: what holds whichever rows get pulled
into the transaction, and whatever happens to the counters and flags of its rows.
-/

namespace OVS

namespace Ovsdb

open List Function Prog Db

variable {n a : ℕ} {k : Key n}

/-- A database between two transactions. -/
structure Committed (c : Db n) : Prop where
  txnRows : ∀ k, c.txnRows.lookup k = none
  txnTables : c.txnTables = []
  fresh : ∀ a, c.next ≤ a → c.heap a = none
  row : ∀ k a, c.rows.lookup k = some a → ∃ row, c.heap a = some row ∧ row.key = k
  weak : ∀ w ∈ c.weakRefs, (∃ k, c.rows.lookup k = some w.src) ∧ ∃ k, c.rows.lookup k = some w.dst

lemma Committed.lt_next {c : Db n} (hc : Committed c) {a : ℕ} {row : Row n}
    (ha : c.heap a = some row) : a < c.next := by
  by_contra hlt
  rw [hc.fresh a (not_lt.1 hlt)] at ha
  cases ha

lemma Committed.cell_lt_next {c : Db n} (hc : Committed c) (ha : c.rows.lookup k = some a) :
    a < c.next := by
  obtain ⟨row, hrow, -⟩ := hc.row k a ha
  exact hc.lt_next hrow

/-- The cell `a` holds the new version of a row of the transaction. -/
def IsNew (s : Db n) (a : ℕ) : Prop := ∃ k r, s.txnRows.lookup k = some r ∧ r.new = some a

/-- What the transaction knows about the row with key `k`. -/
structure RowWithin (c s : Db n) (k : Key n) : Prop where
  untouched : s.txnRows.lookup k = none → s.rows.lookup k = c.rows.lookup k
  old : ∀ r, s.txnRows.lookup k = some r → r.old = c.rows.lookup k
  new : ∀ r, s.txnRows.lookup k = some r → r.new = s.rows.lookup k
  cell : ∀ r a, s.txnRows.lookup k = some r → r.new = some a →
    c.next ≤ a ∧ ∃ row, s.heap a = some row ∧ row.key = k
  table : ∀ r, s.txnRows.lookup k = some r → k.1 ∈ s.txnTables

/-- **A state of a transaction that began in `c`.** -/
structure Within (c s : Db n) : Prop where
  next_le : c.next ≤ s.next
  fresh : ∀ a, s.next ≤ a → s.heap a = none
  heap : ∀ a < c.next, s.heap a = c.heap a
  indexes : s.indexes = c.indexes
  rows : ∀ k, RowWithin c s k
  weak : ∃ added, s.weakRefs = c.weakRefs ++ added ∧ ∀ w ∈ added, IsNew s w.src ∧ IsNew s w.dst

variable {c s s' : Db n} {gen : ℕ → Uuid}

/-- A step that concerns other rows. -/
lemma RowWithin.congr (h : RowWithin c s k) (hrows : s'.rows.lookup k = s.rows.lookup k)
    (htxn : s'.txnRows.lookup k = s.txnRows.lookup k)
    (hcell : ∀ r a row, s.txnRows.lookup k = some r → r.new = some a → s.heap a = some row →
      row.key = k → c.next ≤ a → ∃ row', s'.heap a = some row' ∧ row'.key = k)
    (htable : ∀ r, s.txnRows.lookup k = some r → k.1 ∈ s.txnTables → k.1 ∈ s'.txnTables) :
    RowWithin c s' k := by
  refine ⟨?_, ?_, ?_, ?_, ?_⟩
  · rw [htxn, hrows]
    exact h.untouched
  · rw [htxn]
    exact h.old
  · rw [htxn, hrows]
    exact h.new
  · rw [htxn]
    intro r a hr ha
    obtain ⟨hle, row, hrow, hkey⟩ := h.cell r a hr ha
    exact ⟨hle, hcell r a row hr ha hrow hkey hle⟩
  · rw [htxn]
    exact fun r hr => htable r hr (h.table r hr)

/-- A row of the transaction, from what holds of it. -/
lemma RowWithin.of_txnRow {r : TxnRow} (hr : s.txnRows.lookup k = some r)
    (hold : r.old = c.rows.lookup k) (hnew : r.new = s.rows.lookup k)
    (hcell : ∀ a, r.new = some a → c.next ≤ a ∧ ∃ row, s.heap a = some row ∧ row.key = k)
    (htable : k.1 ∈ s.txnTables) : RowWithin c s k := by
  constructor <;> rw [hr]
  · simp
  · rintro _ ⟨⟩
    exact hold
  · rintro _ ⟨⟩
    exact hnew
  · rintro _ a ⟨⟩ ha
    exact hcell a ha
  · rintro _ ⟨⟩
    exact htable

lemma RowWithin.of_none (hr : s.txnRows.lookup k = none)
    (hrow : s.rows.lookup k = c.rows.lookup k) : RowWithin c s k := by
  constructor <;> rw [hr] <;> simp [hrow]

namespace Within

/-- A transaction begins. -/
lemma refl (hc : Committed c) : Within c c where
  next_le := le_refl _
  fresh := hc.fresh
  heap _ _ := rfl
  indexes := rfl
  rows k := .of_none (hc.txnRows k) rfl
  weak := ⟨[], by simp, by simp⟩

variable {a : ℕ} {k : Key n} {r : TxnRow}

section

variable (h : Within c s)
include h

lemma lt_next {row : Row n} (ha : s.heap a = some row) : a < s.next := by
  by_contra hlt
  rw [h.fresh a (not_lt.1 hlt)] at ha
  cases ha

omit h in
/-- The rows of the tables are allocated. -/
lemma row (hc : Committed c) (h : Within c s) (ha : s.rows.lookup k = some a) :
    ∃ row, s.heap a = some row ∧ row.key = k := by
  cases hr : s.txnRows.lookup k with
  | none =>
    rw [(h.rows k).untouched hr] at ha
    obtain ⟨row, hrow, hkey⟩ := hc.row k a ha
    exact ⟨row, by rw [h.heap a (hc.lt_next hrow), hrow], hkey⟩
  | some r => exact ((h.rows k).cell r a hr (by rw [(h.rows k).new r hr, ha])).2

/-- New versions of different rows are in different cells. -/
lemma key_unique {k' : Key n} {r' : TxnRow} (hr : s.txnRows.lookup k = some r) (ha : r.new = some a)
    (hr' : s.txnRows.lookup k' = some r') (ha' : r'.new = some a) : k = k' := by
  obtain ⟨-, row, hrow, rfl⟩ := (h.rows k).cell r a hr ha
  obtain ⟨-, row', hrow', rfl⟩ := (h.rows k').cell r' a hr' ha'
  rw [hrow] at hrow'
  cases hrow'
  rfl

/-! ## The steps -/

/-- A step that concerns one row. -/
lemma step (k : Key n) (hnext : s.next ≤ s'.next) (hfresh : ∀ a, s'.next ≤ a → s'.heap a = none)
    (hheap : ∀ a < c.next, s'.heap a = s.heap a) (hindexes : s'.indexes = s.indexes)
    (hrows : ∀ k' ≠ k, s'.rows.lookup k' = s.rows.lookup k')
    (htxn : ∀ k' ≠ k, s'.txnRows.lookup k' = s.txnRows.lookup k')
    (hcell : ∀ a row, s.heap a = some row → row.key ≠ k → c.next ≤ a → s'.heap a = some row)
    (htables : ∀ t ∈ s.txnTables, t ∈ s'.txnTables) (hk : RowWithin c s' k)
    (hweak : ∃ added, s'.weakRefs = c.weakRefs ++ added ∧
      ∀ w ∈ added, IsNew s' w.src ∧ IsNew s' w.dst) : Within c s' := by
  refine ⟨h.next_le.trans hnext, hfresh, fun a ha => (hheap a ha).trans (h.heap a ha),
    hindexes.trans h.indexes, fun k' => ?_, hweak⟩
  by_cases hkk : k' = k
  · rw [hkk]
    exact hk
  · refine (h.rows k').congr (hrows k' hkk) (htxn k' hkk) (fun _ a row _ _ ha hkey hle => ?_)
      fun _ _ => htables _
    exact ⟨row, hcell a row ha (by rw [hkey]; exact hkk) hle, hkey⟩

lemma weak_of_isNew (hw : s'.weakRefs = s.weakRefs) (hnew : ∀ a, IsNew s a → IsNew s' a) :
    ∃ added, s'.weakRefs = c.weakRefs ++ added ∧ ∀ w ∈ added, IsNew s' w.src ∧ IsNew s' w.dst := by
  obtain ⟨added, hadd, hall⟩ := h.weak
  exact ⟨added, hw.trans hadd, fun w hw => ⟨hnew _ (hall w hw).1, hnew _ (hall w hw).2⟩⟩

/-- A new version of a row that the transaction did not have yet. -/
lemma alloc {row : Row n} (hkey : row.key = k) (hr : s.txnRows.lookup k = none) {old : Option ℕ}
    (hold : s.rows.lookup k = old) (i : ℤ) :
    Within c (((s.alloc row).txnRowCreate k old (some s.next) i).putRow k s.next) := by
  have hle := h.next_le
  have hheap : ∀ x, x ≠ s.next →
      (((s.alloc row).txnRowCreate k old (some s.next) i).putRow k s.next).heap x = s.heap x :=
    fun x hx => update_of_ne hx _ _
  refine h.step k (Nat.le_succ _) (fun x hx => ?_) (fun x hx => hheap x (by omega)) rfl
    (fun k' hk => by simp [hk]) (fun k' hk => by simp [hk])
    (fun x row' hx _ _ => ?_) (fun t ht => ?_) ?_ ?_
  · have hx : s.next + 1 ≤ x := hx
    rw [hheap x (by omega)]
    exact h.fresh x (by omega)
  · rw [hheap x (h.lt_next hx).ne, hx]
  · by_cases hk : k.1 ∈ s.txnTables <;> simp [hk, ht]
  · refine .of_txnRow (r := ⟨old, some s.next, i, fun _ => false⟩) ?_ ?_ ?_ ?_ ?_
    · simp
    · rw [← hold]
      exact (h.rows k).untouched hr
    · simp
    · rintro a ⟨⟩
      exact ⟨hle, row, by simp, hkey⟩
    · by_cases ht : k.1 ∈ s.txnTables <;> simp [ht]
  · refine h.weak_of_isNew rfl ?_
    rintro a ⟨k', r, hk', ha⟩
    exact ⟨k', r, by simp [ne_of_txnRow ⟨r, hk'⟩ hr, hk'], ha⟩

/-- A row is pulled into the transaction. -/
lemma pull {row : Row n} (hrows : s.rows.lookup row.key = some a)
    (hr : s.txnRows.lookup row.key = none) : Within c (cloneRow gen s a row) := by
  have hkey : ({ row with version := gen s.next } : Row n).key = row.key := rfl
  exact h.alloc hkey hr hrows row.nRefs

/-- A change of the other members of a row of the transaction. -/
lemma putTxnRow {r' : TxnRow} (hr : s.txnRows.lookup k = some r) (hold : r'.old = r.old)
    (hnew : r'.new = r.new) : Within c (s.putTxnRow k r') := by
  have hk := h.rows k
  refine h.step k (le_refl _) h.fresh (fun _ _ => rfl) rfl (fun _ _ => rfl)
    (fun k' hkk => by simp [hkk]) (fun _ _ hx _ _ => hx) (fun _ ht => ht) ?_ ?_
  · refine .of_txnRow (r := r') (by simp) ?_ ?_ ?_ (hk.table r hr)
    · rw [hold, hk.old r hr]
    · rw [hnew, hk.new r hr]
      rfl
    · rw [hnew]
      exact fun a ha => hk.cell r a hr ha
  · refine h.weak_of_isNew rfl ?_
    rintro a ⟨k', r1, hk', ha⟩
    by_cases hkk : k' = k
    · rw [hkk, hr] at hk'
      cases hk'
      exact ⟨k, r', by simp, hnew.trans ha⟩
    · exact ⟨k', r1, by simp [hkk, hk'], ha⟩

/-- A write to a new version. -/
lemma setRow {row : Row n} (hr : s.txnRows.lookup k = some r) (ha : r.new = some a)
    (hkey : row.key = k) : Within c (s.setRow a row) := by
  have hk := h.rows k
  obtain ⟨hle, row0, hrow0, hkey0⟩ := hk.cell r a hr ha
  have hheap : ∀ x, x ≠ a → (s.setRow a row).heap x = s.heap x :=
    fun x hx => update_of_ne hx _ _
  refine h.step k (le_refl _) (fun x hx => ?_) (fun x hx => hheap x (by omega)) rfl
    (fun _ _ => rfl) (fun _ _ => rfl) (fun x row' hx hne _ => ?_) (fun _ ht => ht) ?_
    (h.weak_of_isNew rfl fun _ hx => hx)
  · have hx : s.next ≤ x := hx
    rw [hheap x (by have := h.lt_next hrow0; omega)]
    exact h.fresh x hx
  · rw [hheap x, hx]
    rintro rfl
    rw [hrow0] at hx
    cases hx
    exact hne hkey0
  · refine .of_txnRow hr (hk.old r hr) (hk.new r hr) ?_ (hk.table r hr)
    intro x hx
    rw [ha] at hx
    cases hx
    exact ⟨hle, row, by simp, hkey⟩

/-- The committed version of a row is taken out of its table. -/
lemma deleteOld (hr : s.txnRows.lookup k = none) (ha : s.rows.lookup k = some a) (i : ℤ) :
    Within c ((s.removeRow k).txnRowCreate k (some a) none i) := by
  refine h.step k (le_refl _) h.fresh (fun _ _ => rfl) rfl
    (fun k' hk => by simp [hk]) (fun k' hk => by simp [hk])
    (fun _ _ hx _ _ => hx) (fun t ht => ?_) ?_ (h.weak_of_isNew rfl ?_)
  · by_cases hk : k.1 ∈ s.txnTables <;> simp [hk, ht]
  · refine .of_txnRow (r := ⟨some a, none, i, fun _ => false⟩) ?_ ?_ ?_ (by simp) ?_
    · simp
    · rw [← ha]
      exact (h.rows k).untouched hr
    · simp
    · by_cases ht : k.1 ∈ s.txnTables <;> simp [ht]
  · rintro x ⟨k', r, hk', hx⟩
    exact ⟨k', r, by simp [ne_of_txnRow ⟨r, hk'⟩ hr, hk'], hx⟩

end

/-- The weak references of a committed database do not involve cells allocated later. -/
lemma filter_weak (hc : Committed c) (ha : c.next ≤ a) :
    (c.weakRefs.filter fun w => w.src ≠ a ∧ w.dst ≠ a) = c.weakRefs := by
  refine filter_eq_self.2 fun w hw => decide_eq_true ?_
  obtain ⟨⟨k, hk⟩, k', hk'⟩ := hc.weak w hw
  have := hc.cell_lt_next hk
  have := hc.cell_lt_next hk'
  omega

/-- The new version of a row, if any, is destroyed: the row leaves the transaction, or only its new
version does. -/
lemma retire (hc : Committed c) (h : Within c s) (hr : s.txnRows.lookup k = some r)
    (hnext : s'.next = s.next) (hheap : ∀ x, r.new ≠ some x → s'.heap x = s.heap x)
    (hindexes : s'.indexes = s.indexes)
    (hweak : s'.weakRefs =
      r.new.elim s.weakRefs fun a => s.weakRefs.filter fun w => w.src ≠ a ∧ w.dst ≠ a)
    (htables : s'.txnTables = s.txnTables) (hrows : ∀ k' ≠ k, s'.rows.lookup k' = s.rows.lookup k')
    (htxn : ∀ k' ≠ k, s'.txnRows.lookup k' = s.txnRows.lookup k')
    (hk : s'.txnRows.lookup k = none ∧ s'.rows.lookup k = r.old ∨
      s'.txnRows.lookup k = some { r with new := none } ∧ s'.rows.lookup k = none) :
    Within c s' := by
  have hcell := fun x => (h.rows k).cell r x hr
  refine h.step k hnext.ge (fun x hx => ?_) (fun x hx => hheap x fun hnew => ?_) hindexes hrows htxn
    (fun x row' hx hne _ => ?_) (fun _ ht => htables ▸ ht) ?_ ?_
  · rw [hnext] at hx
    rw [hheap x fun hnew => ?_, h.fresh x hx]
    obtain ⟨-, row, hrow, -⟩ := hcell x hnew
    exact (h.lt_next hrow).not_ge hx
  · exact (hcell x hnew).1.not_gt hx
  · rw [hheap x fun hnew => ?_, hx]
    obtain ⟨-, row, hrow, hkey⟩ := hcell x hnew
    rw [hx] at hrow
    cases hrow
    exact hne hkey
  · rcases hk with ⟨ht, hro⟩ | ⟨ht, hro⟩
    · exact .of_none ht (hro.trans ((h.rows k).old r hr))
    · exact .of_txnRow ht ((h.rows k).old r hr) hro.symm (by simp) (htables ▸ (h.rows k).table r hr)
  · -- a new version in another cell belongs to another row
    have hstay : ∀ x, r.new ≠ some x → IsNew s x → IsNew s' x := by
      rintro x hx ⟨k', r', hk', hx'⟩
      have hne : k' ≠ k := by
        rintro rfl
        rw [hr] at hk'
        cases hk'
        exact hx hx'
      exact ⟨k', r', (htxn k' hne).trans hk', hx'⟩
    cases hnew : r.new with
    | none =>
      rw [hnew] at hweak
      exact h.weak_of_isNew hweak fun x => hstay x (by simp [hnew])
    | some a =>
      obtain ⟨added, hadd, hall⟩ := h.weak
      refine ⟨added.filter fun w => w.src ≠ a ∧ w.dst ≠ a, ?_, fun w hw => ?_⟩
      · rw [hweak, hnew, Option.elim_some, hadd, filter_append, filter_weak hc (hcell a hnew).1]
      · simp only [hnew, ne_eq, Option.some_inj, eq_comm (a := a)] at hstay
        simp only [mem_filter, decide_eq_true_eq] at hw
        exact ⟨hstay _ hw.2.1 (hall w hw.1).1, hstay _ hw.2.2 (hall w hw.1).2⟩

/-- The collector takes the new version of a row out of its table. -/
lemma unlink (h : Within c s) (hw : s.weakRefs = c.weakRefs) (hr : s.txnRows.lookup k = some r) :
    Within c ((s.putTxnRow k { r with new := none }).removeRow k) := by
  refine h.step k (le_refl _) h.fresh (fun _ _ => rfl) rfl (fun k' hk => by simp [hk])
    (fun k' hk => by simp [hk]) (fun _ _ hx _ _ => hx) (fun _ ht => ht) ?_
    ⟨[], by simp [hw], by simp⟩
  exact .of_txnRow (r := { r with new := none }) (by simp) ((h.rows k).old r hr) (by simp) (by simp)
    ((h.rows k).table r hr)

/-- The collector destroys a row that it has taken out of its table. -/
lemma rowDestroy (hc : Committed c) (h : Within c s) (hw : s.weakRefs = c.weakRefs)
    (ha : c.next ≤ a) (hnew : ¬ IsNew s a) : Within c (s.rowDestroy a) := by
  have hheap : ∀ x, x ≠ a → (s.rowDestroy a).heap x = s.heap x :=
    fun x hx => update_of_ne hx _ _
  refine ⟨h.next_le, fun x hx => ?_, fun x hx => ?_, h.indexes, fun k => ?_, [], ?_, by simp⟩
  · by_cases hx' : x = a
    · simp [hx']
    · rw [hheap x hx']
      exact h.fresh x hx
  · rw [hheap x (by omega)]
    exact h.heap x hx
  · refine (h.rows k).congr rfl rfl (fun r x row hr hx hrow hkey _ => ⟨row, ?_, hkey⟩)
      fun _ _ ht => ht
    rw [hheap x (by rintro rfl; exact hnew ⟨k, r, hr, hx⟩), hrow]
  · rw [rowDestroy_weakRefs, hw, filter_weak hc ha, append_nil]

/-- A weak reference between new versions. -/
lemma addWeak (h : Within c s) {src dst : ℕ} (hsrc : IsNew s src) (hdst : IsNew s dst) :
    Within c { s with weakRefs := s.weakRefs ++ [⟨src, dst⟩] } := by
  obtain ⟨added, hadd, hall⟩ := h.weak
  refine ⟨h.next_le, h.fresh, h.heap, h.indexes, fun k => (h.rows k).congr rfl rfl
    (fun _ _ row _ _ ha hkey _ => ⟨row, ha, hkey⟩) fun _ _ ht => ht,
    added ++ [⟨src, dst⟩], by simp [hadd], fun w hw => ?_⟩
  rcases mem_append.1 hw with hw | hw
  · exact hall w hw
  · rw [mem_singleton.1 hw]
    exact ⟨hsrc, hdst⟩

lemma dropEmptyTxnTables (h : Within c s) : Within c s.dropEmptyTxnTables := by
  refine ⟨h.next_le, h.fresh, h.heap, h.indexes, fun k => (h.rows k).congr rfl rfl
    (fun _ _ row _ _ ha hkey _ => ⟨row, ha, hkey⟩) fun r hr ht => ?_, h.weak⟩
  simp only [dropEmptyTxnTables_txnTables, mem_filter, any_eq_true, decide_eq_true_eq]
  exact ⟨ht, k, (mem_keys_iff _ _).2 ⟨r, hr⟩, rfl⟩

end Within

/-- A property of the states of a transaction that pulling rows into it does not affect. -/
structure Pullable (gen : ℕ → Uuid) (c : Db n) (F : Db n → Prop) : Prop where
  within : ∀ s, F s → Within c s
  clone : ∀ s a row, F s → s.heap a = some row → s.rows.lookup row.key = some a →
    s.txnRows.lookup row.key = none → F (cloneRow gen s a row)

/-- A property that changes of flags and, unless `keep` holds, of counters do not affect,
either. -/
structure Stable (gen : ℕ → Uuid) (c : Db n) (keep : Prop) (F : Db n → Prop) : Prop extends
    Pullable gen c F where
  put : ∀ s k r r', F s → s.txnRows.lookup k = some r → r'.old = r.old → r'.new = r.new →
    (keep → r'.nRefs = r.nRefs) → F (s.putTxnRow k r')
  drop : ∀ s, F s → F s.dropEmptyTxnTables

section Pulling

variable {F : Db n → Prop} {E : Stop n → Db n → Prop}

/-- **`ovsdb_txn_row_modify()`** of a row that is in a table: the assertion holds, and the result is
the new version of the row. -/
lemma txnRowModify_spec (hc : Committed c) (hF : Pullable gen c F) :
    Spec (fun s => F s ∧ s.rows.lookup k = some a) (txnRowModify gen a)
      (fun b s => F s ∧ s.rows.lookup k = some b ∧
        ∃ r, s.txnRows.lookup k = some r ∧ r.new = some b)
      E := by
  refine deref_reads.bind_such (fun s hs => (hF.within s hs.1).row hc hs.2) fun row hkey =>
    Spec.get_bind fun s hs => ?_
  · obtain ⟨⟨hFs, hrows⟩, hrow⟩ := hs
    have hwithin := hF.within s hFs
    subst hkey
    split
    · next r hr =>
      have hnew : r.new = some a := by rw [(hwithin.rows _).new r hr, hrows]
      rw [if_pos hnew]
      rintro _ rfl
      exact ⟨hFs, hrows, r, hr, hnew⟩
    · next hr =>
      refine Spec.bind (Spec.modify (Q := fun _ s' => s' = cloneRow gen s a row) ?_)
        fun _ => Spec.pure ?_
      · rintro _ rfl
        rfl
      · rintro _ rfl
        refine ⟨hF.clone s a row hFs hrow hrows hr, by simp [cloneRow],
          ⟨some a, some s.next, row.nRefs, fun _ => false⟩, ?_, rfl⟩
        simp [cloneRow]

/-- **`find_or_make_txn_row()`**: there is a row of the transaction unless the table has no such
row and had none. -/
lemma findOrMakeTxnRow_spec (hc : Committed c) (hF : Pullable gen c F) :
    Spec F (findOrMakeTxnRow gen k)
      (fun found s => F s ∧
        if found then ∃ r, s.txnRows.lookup k = some r
        else s.rows.lookup k = none ∧ s.txnRows.lookup k = none) E := by
  refine Spec.get_bind fun s hs => ?_
  split
  · next r hr =>
    rintro _ rfl
    exact ⟨hs, r, hr⟩
  · next hr =>
    split
    · next hrows =>
      rintro _ rfl
      exact ⟨hs, hrows, hr⟩
    · next a hrows =>
      refine Spec.bind ((txnRowModify_spec hc hF (k := k)).pre ?_) fun b => Spec.pure ?_
      · rintro _ rfl
        exact ⟨hs, hrows⟩
      · rintro s' ⟨hF', -, r, hr', -⟩
        exact ⟨hF', r, hr'⟩

end Pulling

end Ovsdb

end OVS
