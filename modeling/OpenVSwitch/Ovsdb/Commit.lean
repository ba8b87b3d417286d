import OpenVSwitch.Ovsdb.Abort

/-!
# Committing

The end of `ovsdb_txn_commit()`: once every check has passed, `ovsdb_txn_row_commit()` is called
for every row of the transaction.  It cannot fail any more.

`Finished` describes the result in terms of the state `s₀` before: the tables stay as they are,
counters move from the transaction into the rows, the committed versions disappear with their
weak references, and the indexes follow the tables.
-/

namespace OVS

namespace Ovsdb

open Function Prog List Option Db

variable {n : ℕ} {c s s' s₀ : Db n} {gen : ℕ → Uuid} {σ : Schema n} {E : Stop n → Db n → Prop}

/-- The indexes of a table when a row of the transaction is committed. -/
def committedIndex (σ : Schema n) (s : Db n) (k : Key n) (r : TxnRow) (i : ℕ) : List ℕ :=
  if i < (σ.table k.1).indexes.length then
    r.new.toList ++ r.old.elim (s.indexes k.1 i) (s.indexes k.1 i).erase
  else s.indexes k.1 i

/-- The first half of `ovsdb_txn_row_commit()`. -/
def reindex (σ : Schema n) (s : Db n) (k : Key n) (r : TxnRow) : Db n :=
  { s with
    indexes := update s.indexes k.1 (committedIndex σ s k r)
    txnRows := s.txnRows.erase k }

/-- The heap once the new version of the row has its reference count. -/
def recountNew (s : Db n) (r : TxnRow) (a : ℕ) : Option (Row n) :=
  if r.new = some a then (s.heap a).map fun row => { row with nRefs := r.nRefs } else s.heap a

/-- The state after `ovsdb_txn_row_commit()`. -/
def commitRow (σ : Schema n) (s : Db n) (k : Key n) (r : TxnRow) : Db n :=
  { reindex σ s k r with
    heap := fun a => if r.old = some a then none else recountNew s r a
    weakRefs :=
      r.old.elim s.weakRefs fun old => s.weakRefs.filter fun w => w.src ≠ old ∧ w.dst ≠ old }

lemma txnRowCommit_spec {k : Key n} {r : TxnRow} (hr : s₀.txnRows.lookup k = some r)
    (hcell : ∀ a, r.new = some a → ∃ row, s₀.heap a = some row) :
    Spec (· = s₀) (txnRowCommit σ k) (fun _ s => s = commitRow σ s₀ k r) E := by
  refine txnRow_reads.bind_of (fun s hs => hs ▸ hr) (Spec.intro fun s hs => ?_)
  subst hs
  refine Spec.bind (Spec.ifSome_modify r.old _ s) fun _ =>
    Spec.bind (Spec.ifSome_modify r.new _ _) fun _ =>
    Spec.bind (Spec.modify (Q := fun _ s' => s' = reindex σ s k r) fun s' hs' => ?_)
      fun _ => Spec.bind
        (Q := fun _ s' => s' = { reindex σ s k r with heap := recountNew s r })
      (Spec.ifSome (fun hnone s' hs' => ?_) fun new hnew => ?_) fun _ =>
    (Spec.ifSome_modify r.old _ _).post fun _ s' hs' => ?_
  · rw [hs']
    have hindexes : ∀ f : ℕ → List ℕ, f = s.indexes k.1 →
        update s.indexes k.1 f = s.indexes :=
      fun f hf => by rw [hf, update_eq_self]
    unfold reindex mapIndexes
    cases hold : r.old <;> cases hnew : r.new
    · simp only [Option.elim, removeTxnRow]
      rw [hindexes]
      funext i
      simp [committedIndex, hold, hnew]
    all_goals
      simp only [Option.elim, removeTxnRow, update_idem]
      congr 2
      funext i
      by_cases hi : i < (σ.table k.1).indexes.length <;> simp [committedIndex, hold, hnew, hi]
  · rw [hs']
    rw [show recountNew s r = s.heap from funext fun a => by simp [recountNew, hnone]]
    rfl
  · obtain ⟨row, hrow⟩ := hcell new hnew
    have hheap : (reindex σ s k r).heap new = some row := hrow
    refine deref_reads.bind_of (fun s' hs' => hs' ▸ hheap) (Spec.modify fun s' hs' => ?_)
    · subst hs'
      unfold setRow
      congr 1
      funext a
      by_cases ha : a = new
      · subst ha
        simp [recountNew, hnew, hrow]
      · rw [update_of_ne ha, recountNew, hnew, if_neg fun h => ha (some_inj.1 h).symm]
        rfl
  · rw [hs', commitRow]
    cases hold : r.old with
    | none => simp [reindex]
    | some old =>
      show rowDestroy _ old = _
      unfold rowDestroy
      congr 1
      funext a
      by_cases ha : a = old
      · subst ha
        simp
      · rw [update_of_ne ha, if_neg fun h => ha (some_inj.1 h).symm]

/-! ## All rows -/

/-- The cell is the committed version of one of the rows. -/
def Retired (s₀ : Db n) (done : List (Key n)) (a : ℕ) : Prop :=
  ∃ k ∈ done, ∃ r, s₀.txnRows.lookup k = some r ∧ r.old = some a

/-- The cell is the new version of one of the rows. -/
def Renewed (s₀ : Db n) (done : List (Key n)) (a : ℕ) : Prop :=
  ∃ k ∈ done, ∃ r, s₀.txnRows.lookup k = some r ∧ r.new = some a

/-- The state of "Finalize commit." that began in `s₀`, when the rows `done` have been
committed. -/
structure Committing (σ : Schema n) (c s₀ : Db n) (done : List (Key n)) (s : Db n) : Prop where
  rows : s.rows = s₀.rows
  next : s.next = s₀.next
  txnRows : ∀ k, s.txnRows.lookup k = if k ∈ done then none else s₀.txnRows.lookup k
  retired : ∀ a, Retired s₀ done a → s.heap a = none
  renewed : ∀ k ∈ done, ∀ r a row, s₀.txnRows.lookup k = some r → r.new = some a →
    s₀.heap a = some row → s.heap a = some { row with nRefs := r.nRefs }
  other : ∀ a, ¬ Retired s₀ done a → ¬ Renewed s₀ done a → s.heap a = s₀.heap a
  weak : ∀ w, w ∈ s.weakRefs ↔ w ∈ s₀.weakRefs ∧ ¬ Retired s₀ done w.src ∧ ¬ Retired s₀ done w.dst
  nodup : Indexes σ c → ∀ t, ∀ p ∈ (σ.table t).indexes.zipIdx, (s.indexes t p.2).Nodup
  mem : Indexes σ c → ∀ t, ∀ p ∈ (σ.table t).indexes.zipIdx, ∀ a, a ∈ s.indexes t p.2 ↔
    (∃ k, k.1 = t ∧ c.rows.lookup k = some a) ∧ ¬ Retired s₀ done a ∨
      ∃ k ∈ done, k.1 = t ∧ ∃ r, s₀.txnRows.lookup k = some r ∧ r.new = some a

section Commit

variable {done : List (Key n)} {k : Key n} {r : TxnRow}

section

variable (hr : s₀.txnRows.lookup k = some r)
include hr

lemma exists_mem_cons_txnRow (P : TxnRow → Prop) :
    (∃ k' ∈ k :: done, ∃ r', s₀.txnRows.lookup k' = some r' ∧ P r') ↔
      P r ∨ ∃ k' ∈ done, ∃ r', s₀.txnRows.lookup k' = some r' ∧ P r' := by
  simp only [mem_cons, exists_eq_or_imp, hr, some_inj, exists_eq_left']

lemma retired_cons (a : ℕ) : Retired s₀ (k :: done) a ↔ r.old = some a ∨ Retired s₀ done a :=
  exists_mem_cons_txnRow hr fun r => r.old = some a

lemma renewed_cons (a : ℕ) : Renewed s₀ (k :: done) a ↔ r.new = some a ∨ Renewed s₀ done a :=
  exists_mem_cons_txnRow hr fun r => r.new = some a

end

variable {a : ℕ}

lemma Retired.lt_next (hc : Committed c) (hw : Within c s₀) (h : Retired s₀ done a) :
    a < c.next := by
  obtain ⟨k, -, r, hr, ha⟩ := h
  rw [(hw.rows k).old r hr] at ha
  exact hc.cell_lt_next ha

lemma Within.not_retired (hc : Committed c) (hw : Within c s₀) (hr : s₀.txnRows.lookup k = some r)
    (ha : r.new = some a) : ¬ Retired s₀ done a := by
  intro h
  have hlt := h.lt_next hc hw
  have hle := ((hw.rows k).cell r a hr ha).1
  omega

lemma Within.not_renewed (hw : Within c s₀) (hk : k ∉ done) (hr : s₀.txnRows.lookup k = some r)
    (ha : r.new = some a) : ¬ Renewed s₀ done a := by
  rintro ⟨k', hk', r', hr', ha'⟩
  rw [hw.key_unique hr ha hr' ha'] at hk
  exact hk hk'

lemma Within.not_renewed_of_lt (hw : Within c s₀) (ha : a < c.next) : ¬ Renewed s₀ done a := by
  rintro ⟨k, -, r, hr, hnew⟩
  have hle := ((hw.rows k).cell r a hr hnew).1
  omega

lemma Committing.refl (hw : Within c s₀) : Committing σ c s₀ [] s₀ where
  rows := rfl
  next := rfl
  txnRows _ := by rw [if_neg not_mem_nil]
  retired a h := by
    obtain ⟨k, hk, -⟩ := h
    cases hk
  renewed k hk := by cases hk
  other _ _ _ := rfl
  weak w := by simp [Retired]
  nodup hI t p hp := by
    rw [hw.indexes]
    exact hI.nodup t p hp
  mem hI t p hp a := by
    rw [hw.indexes, hI.mem t p hp a]
    simp [Retired]

/-- The cell of the row that comes next still is as it was. -/
lemma Committing.cell (hc : Committed c) (hw : Within c s₀) (h : Committing σ c s₀ done s)
    (hk : k ∉ done) (hr : s₀.txnRows.lookup k = some r) (ha : r.new = some a) :
    s.heap a = s₀.heap a :=
  h.other a (hw.not_retired hc hr ha) (hw.not_renewed hk hr ha)

lemma mem_committedIndex {i : ℕ} (hi : i < (σ.table k.1).indexes.length)
    (hnodup : (s.indexes k.1 i).Nodup) :
    a ∈ committedIndex σ s k r i ↔ r.new = some a ∨ a ∈ s.indexes k.1 i ∧ r.old ≠ some a := by
  rw [committedIndex, if_pos hi, mem_append, mem_toList]
  cases hold : r.old with
  | none => simp
  | some old =>
    rw [elim_some, hnodup.mem_erase_iff, and_comm, ne_eq, ne_eq, some_inj,
      eq_comm (a := old)]

section

variable (hc : Committed c) (hw : Within c s₀) {p : List (Column n) × ℕ}
include hc hw

/-- The new version of the next row is in no index yet. -/
lemma Committing.not_mem (h : Committing σ c s₀ done s) (hI : Indexes σ c)
    (hk : k ∉ done) (hr : s₀.txnRows.lookup k = some r) (ha : r.new = some a) {t : Fin n}
    (hp : p ∈ (σ.table t).indexes.zipIdx) : a ∉ s.indexes t p.2 := by
  rw [h.mem hI t p hp a]
  rintro (⟨⟨k', -, hk'⟩, -⟩ | ⟨k', hk', -, r', hr', ha'⟩)
  · have hlt := hc.cell_lt_next hk'
    have hle := ((hw.rows k).cell r a hr ha).1
    omega
  · exact hw.not_renewed hk hr ha ⟨k', hk', r', hr', ha'⟩

omit hc hw in
lemma snd_lt_of_mem_zipIdx {t : Fin n} (hp : p ∈ (σ.table t).indexes.zipIdx) :
    p.2 < (σ.table t).indexes.length := by
  have hlt := List.snd_lt_of_mem_zipIdx hp
  omega

/-- An index has each row once after the next row has been committed. -/
lemma Committing.nodup_committedIndex (h : Committing σ c s₀ done s) (hI : Indexes σ c)
    (hk : k ∉ done) (hr : s₀.txnRows.lookup k = some r)
    (hp : p ∈ (σ.table k.1).indexes.zipIdx) : (committedIndex σ s k r p.2).Nodup := by
  have herase : (r.old.elim (s.indexes k.1 p.2) (s.indexes k.1 p.2).erase).Nodup := by
    cases r.old with
    | none => exact h.nodup hI _ p hp
    | some old => exact (h.nodup hI _ p hp).erase old
  rw [committedIndex, if_pos (snd_lt_of_mem_zipIdx hp)]
  cases hnew : r.new with
  | none => exact herase
  | some new =>
    refine nodup_cons.2 ⟨fun hmem => h.not_mem hc hw hI hk hr hnew hp ?_, herase⟩
    cases hold : r.old with
    | none => rwa [hold] at hmem
    | some old =>
      rw [hold] at hmem
      exact mem_of_mem_erase hmem

/-- An index has the committed rows that have not been retired, and the new versions. -/
lemma Committing.mem_index (h : Committing σ c s₀ done s) (hI : Indexes σ c)
    (hr : s₀.txnRows.lookup k = some r) {t : Fin n} (hp : p ∈ (σ.table t).indexes.zipIdx) (a : ℕ) :
    a ∈ update s.indexes k.1 (committedIndex σ s k r) t p.2 ↔
      ((∃ k', k'.1 = t ∧ c.rows.lookup k' = some a) ∧ ¬ Retired s₀ (k :: done) a) ∨
        ∃ k' ∈ k :: done, k'.1 = t ∧ ∃ r', s₀.txnRows.lookup k' = some r' ∧ r'.new = some a := by
  have hcons : (∃ k' ∈ k :: done, k'.1 = t ∧ ∃ r', s₀.txnRows.lookup k' = some r' ∧
      r'.new = some a) ↔ (k.1 = t ∧ r.new = some a) ∨
      ∃ k' ∈ done, k'.1 = t ∧ ∃ r', s₀.txnRows.lookup k' = some r' ∧ r'.new = some a := by
    simp only [mem_cons, exists_eq_or_imp, hr, some_inj, exists_eq_left']
  have hold : ∀ k', k'.1 = t → c.rows.lookup k' = some a → r.old = some a → k.1 = t := by
    intro k' ht hk' ha
    rw [(hw.rows k).old r hr] at ha
    rw [(Within.refl hc).cell_inj hc ha hk', ht]
  have hnew : ∀ k' r', s₀.txnRows.lookup k' = some r' → r'.new = some a → r.old ≠ some a :=
    fun k' r' hr' ha ho => hw.not_retired hc hr' ha ⟨k, mem_singleton_self k, r, hr, ho⟩
  rw [retired_cons hr]
  by_cases ht : t = k.1
  · subst ht
    rw [update_self, mem_committedIndex (snd_lt_of_mem_zipIdx hp) (h.nodup hI _ p hp),
      h.mem hI _ p hp a]
    grind
  · rw [update_of_ne ht, h.mem hI t p hp a]
    grind

omit hc hw in
/-- The cells after the next row has been committed. -/
lemma commitRow_heap (a : ℕ) :
    (commitRow σ s k r).heap a = if r.old = some a then none else recountNew s r a :=
  rfl

/-- `ovsdb_txn_row_commit()` of the next row. -/
lemma Committing.step (h : Committing σ c s₀ done s) (hk : k ∉ done)
    (hr : s₀.txnRows.lookup k = some r) : Committing σ c s₀ (k :: done) (commitRow σ s k r) where
  rows := h.rows
  next := h.next
  txnRows k' := by
    show (s.txnRows.erase k).lookup k' = _
    rw [lookup_erase, h.txnRows k']
    by_cases hk' : k' = k
    · rw [if_pos hk', if_pos (mem_cons.2 (.inl hk'))]
    · simp [hk']
  retired a ha := by
    rw [commitRow_heap]
    rcases (retired_cons hr a).1 ha with hold | hret
    · rw [if_pos hold]
    · have hnew : r.new ≠ some a := fun hnew => hw.not_retired hc hr hnew hret
      rw [recountNew, if_neg hnew, h.retired a hret, ite_self]
  renewed k' hk' r' a row hr' ha hrow := by
    rw [commitRow_heap,
      if_neg fun hold => hw.not_retired hc hr' ha ⟨k, mem_singleton_self k, r, hr, hold⟩,
      recountNew]
    rcases mem_cons.1 hk' with rfl | hk'
    · rw [hr] at hr'
      cases hr'
      rw [if_pos ha, h.cell hc hw hk hr ha, hrow]
      rfl
    · rw [if_neg fun hnew => hw.not_renewed hk hr hnew ⟨k', hk', r', hr', ha⟩]
      exact h.renewed k' hk' r' a row hr' ha hrow
  other a hret hren := by
    rw [retired_cons hr, not_or] at hret
    rw [renewed_cons hr, not_or] at hren
    rw [commitRow_heap, if_neg hret.1, recountNew, if_neg hren.1]
    exact h.other a hret.2 hren.2
  weak w := by
    rw [retired_cons hr, retired_cons hr]
    show w ∈ r.old.elim s.weakRefs _ ↔ _
    cases hold : r.old with
    | none => simpa using h.weak w
    | some old =>
      rw [elim_some, mem_filter, h.weak w]
      simp only [ne_eq, decide_eq_true_eq, some_inj]
      tauto
  nodup hI t p hp := by
    show (update s.indexes k.1 (committedIndex σ s k r) t p.2).Nodup
    by_cases ht : t = k.1
    · subst ht
      rw [update_self]
      exact h.nodup_committedIndex hc hw hI hk hr hp
    · rw [update_of_ne ht]
      exact h.nodup hI t p hp
  mem hI t p hp a := h.mem_index hc hw hI hr hp a

/-- The result of "Finalize commit.", in terms of the state `s₀` before it. -/
structure Finished (σ : Schema n) (c s₀ s : Db n) : Prop where
  committed : Committed s
  rows : s.rows = s₀.rows
  row : ∀ k, s.row k = (s₀.row k).map fun row => { row with nRefs := s₀.refs k }
  weak : ∀ w, w ∈ s.weakRefs ↔ w ∈ s₀.weakRefs ∧
    (∃ k, s₀.rows.lookup k = some w.src) ∧ ∃ k, s₀.rows.lookup k = some w.dst
  nodup : Indexes σ c → ∀ t, ∀ p ∈ (σ.table t).indexes.zipIdx, (s.indexes t p.2).Nodup
  mem : Indexes σ c → ∀ t, ∀ p ∈ (σ.table t).indexes.zipIdx, ∀ a,
    a ∈ s.indexes t p.2 ↔ ∃ k, k.1 = t ∧ s.rows.lookup k = some a

/-- Every row of the transaction has been committed. -/
def AllDone (s₀ : Db n) (done : List (Key n)) : Prop :=
  ∀ k r, s₀.txnRows.lookup k = some r → k ∈ done

/-- A cell of a weak reference is in a table unless it is a version that has been replaced. -/
lemma Within.live_iff (hdone : AllDone s₀ done)
    (ha : (∃ k, c.rows.lookup k = some a) ∨ IsNew s₀ a) :
    ¬ Retired s₀ done a ↔ ∃ k, s₀.rows.lookup k = some a := by
  constructor
  · intro hret
    rcases ha with ⟨k, ha⟩ | ⟨k, r, hr, ha⟩
    · refine ⟨k, ?_⟩
      cases hr : s₀.txnRows.lookup k with
      | none => rw [(hw.rows k).untouched hr, ha]
      | some r => exact absurd ⟨k, hdone k r hr, r, hr, (hw.rows k).old r hr ▸ ha⟩ hret
    · exact ⟨k, (hw.rows k).new r hr ▸ ha⟩
  · rintro ⟨k, hk⟩ ⟨k', -, r', hr', hold⟩
    rw [(hw.rows k').old r' hr'] at hold
    have hlt := hc.cell_lt_next hold
    cases hr : s₀.txnRows.lookup k with
    | none =>
      rw [(hw.rows k).untouched hr] at hk
      rw [(Within.refl hc).cell_inj hc hk hold, hr'] at hr
      cases hr
    | some r =>
      have hle := ((hw.rows k).cell r a hr ((hw.rows k).new r hr ▸ hk)).1
      omega

lemma Within.weak_ends {w : WeakRef} (hmem : w ∈ s₀.weakRefs) :
    ((∃ k, c.rows.lookup k = some w.src) ∨ IsNew s₀ w.src) ∧
      ((∃ k, c.rows.lookup k = some w.dst) ∨ IsNew s₀ w.dst) := by
  obtain ⟨added, heq, hadded⟩ := hw.weak
  rw [heq, mem_append] at hmem
  rcases hmem with hmem | hmem
  · exact ⟨.inl (hc.weak w hmem).1, .inl (hc.weak w hmem).2⟩
  · exact ⟨.inr (hadded w hmem).1, .inr (hadded w hmem).2⟩

/-- A row after the commit: the counter of the transaction has moved into it. -/
lemma Committing.row (h : Committing σ c s₀ done s) (hdone : AllDone s₀ done)
    (k : Key n) : s.row k = (s₀.row k).map fun row => { row with nRefs := s₀.refs k } := by
  cases ha : s₀.rows.lookup k with
  | none => rw [row_of_none ha, row_of_none (h.rows ▸ ha)]; rfl
  | some a =>
    obtain ⟨row, hrow, hkey⟩ := hw.row hc ha
    rw [row_of_lookup ha, row_of_lookup (h.rows ▸ ha), hrow]
    cases hr : s₀.txnRows.lookup k with
    | none =>
      have hlt := hc.cell_lt_next ((hw.rows k).untouched hr ▸ ha)
      rw [h.other a ((hw.live_iff hc hdone (.inl ⟨k, (hw.rows k).untouched hr ▸ ha⟩)).2 ⟨k, ha⟩)
        (hw.not_renewed_of_lt hlt), refs, hr, row_of_lookup ha, hrow]
      rfl
    | some r =>
      rw [h.renewed k (hdone k r hr) r a row hr ((hw.rows k).new r hr ▸ ha) hrow,
        refs_of_txnRow hr]
      rfl

lemma Committing.committed (h : Committing σ c s₀ done s)
    (hdone : AllDone s₀ done) (htables : s.txnTables = []) : Committed s where
  txnRows k := by
    rw [h.txnRows k]
    cases hr : s₀.txnRows.lookup k with
    | none => exact ite_self _
    | some r => rw [if_pos (hdone k r hr)]
  txnTables := htables
  fresh a ha := by
    rw [h.next] at ha
    by_cases hret : Retired s₀ done a
    · exact h.retired a hret
    · rw [h.other a hret, hw.fresh a ha]
      rintro ⟨k, -, r, hr, hnew⟩
      obtain ⟨-, row, hrow, -⟩ := (hw.rows k).cell r a hr hnew
      rw [hw.fresh a ha] at hrow
      cases hrow
  row k a ha := by
    rw [h.rows] at ha
    obtain ⟨row, hrow, hkey⟩ := hw.row hc ha
    have hrow' := h.row hc hw hdone k
    rw [row_of_lookup ha, row_of_lookup (h.rows ▸ ha), hrow] at hrow'
    exact ⟨_, hrow', hkey⟩
  weak w hmem := by
    obtain ⟨hmem, hsrc, hdst⟩ := (h.weak w).1 hmem
    obtain ⟨hsrc', hdst'⟩ := hw.weak_ends hc hmem
    rw [h.rows]
    exact ⟨(hw.live_iff hc hdone hsrc').1 hsrc, (hw.live_iff hc hdone hdst').1 hdst⟩

lemma Committing.finished (h : Committing σ c s₀ done s)
    (hdone : AllDone s₀ done) (htables : s.txnTables = []) : Finished σ c s₀ s where
  committed := h.committed hc hw hdone htables
  rows := h.rows
  row := h.row hc hw hdone
  weak w := by
    rw [h.weak w]
    refine and_congr_right fun hmem => ?_
    obtain ⟨hsrc, hdst⟩ := hw.weak_ends hc hmem
    rw [hw.live_iff hc hdone hsrc, hw.live_iff hc hdone hdst]
  nodup := h.nodup
  mem hI t p hp a := by
    rw [h.mem hI t p hp a, h.rows]
    constructor
    · rintro (⟨⟨k, ht, hk⟩, hret⟩ | ⟨k, -, ht, r, hr, ha⟩)
      · refine ⟨k, ht, ?_⟩
        cases hr : s₀.txnRows.lookup k with
        | none => rw [(hw.rows k).untouched hr, hk]
        | some r => exact absurd ⟨k, hdone k r hr, r, hr, (hw.rows k).old r hr ▸ hk⟩ hret
      · exact ⟨k, ht, (hw.rows k).new r hr ▸ ha⟩
    · rintro ⟨k, ht, hk⟩
      cases hr : s₀.txnRows.lookup k with
      | none =>
        have hk' := (hw.rows k).untouched hr ▸ hk
        exact .inl ⟨⟨k, ht, hk'⟩, (hw.live_iff hc hdone (.inl ⟨k, hk'⟩)).2 ⟨k, hk⟩⟩
      | some r => exact .inr ⟨k, hdone k r hr, ht, r, hr, (hw.rows k).new r hr ▸ hk⟩

end

end Commit

/-- **Finalizing a commit cannot fail.** -/
lemma txnFinish_spec (hc : Committed c) (hw : Within c s₀) (order : ℕ → ℕ) :
    Spec (· = s₀) (txnFinish σ order) (fun _ => Finished σ c s₀) E := by
  refine Spec.bind (Q := fun _ => Finished σ c s₀)
    (forEachTxnRow_total (Committing σ c s₀) (.refl hw) ?_ ?_ ?_)
    fun _ => Spec.get_bind fun s hs => Spec.ite (fun _ => Spec.pure ?_) fun hne => ?_
  · intro done s hs k r hr
    rw [hs.txnRows k] at hr
    split at hr
    · cases hr
    · exact .inr (hr ▸ some_ne_none r)
  · intro done s k r hs hr hk
    have hr0 := hr
    rw [hs.txnRows k, if_neg hk] at hr0
    refine (txnRowCommit_spec hr fun a ha => ?_).post fun _ s' hs' => ?_
    · obtain ⟨-, row, hrow, -⟩ := (hw.rows k).cell r a hr0 ha
      exact ⟨row, by rw [hs.cell hc hw hk hr0 ha, hrow]⟩
    · rw [hs']
      exact hs.step hc hw hk hr0
  · intro done s hs hall
    have hnone : ∀ k, s.txnRows.lookup k = none := by
      intro k
      cases hr : s.txnRows.lookup k with
      | none => rfl
      | some r => rw [← hr, hs.txnRows k, if_pos (hall k r hr)]
    have hdone : AllDone s₀ done := by
      intro k r hr
      have hk := hs.txnRows k
      rw [hnone k, hr] at hk
      by_contra hnot
      rw [if_neg hnot] at hk
      cases hk
    have hs' : Committing σ c s₀ done s.dropEmptyTxnTables := { hs with }
    exact hs'.finished hc hw hdone (dropEmptyTxnTables_eq_nil hnone)
  · intro s' hs'
    rw [hs']
    exact hs
  · rw [hs.committed.txnTables] at hne
    exact absurd rfl hne

end Ovsdb

end OVS
