import OpenVSwitch.Ovsdb.Commit

/-!
# The checks of a commit

`ovsdb_txn_commit()` settles the rows of a transaction in four phases: reference counts, garbage,
the limit of rows, weak references.  The modules before this one say what each phase does; here
they are put together.

* `Checking` is what all states of the first three phases have in common, `Assessing` what those of
  the fourth have.
* `Sound` says that the counters count the strong references, that no reference dangles, and that
  there is no garbage.  `txnSettle_spec` shows that the phases keep it when no column mixes strong
  and weak references (`Unmixed`): otherwise the fourth phase removes strong references that the
  first has counted.
-/

namespace OVS

namespace Ovsdb

open List Function Prog Db

variable {n : ℕ} {c s s' s0 : Db n} {gen : ℕ → Uuid} {σ : Schema n} {k : Key n}
  {Q : Key n → Column n → Datum → Prop}

/-! ## Conditions on a database -/

/-- The condition survives the removal of elements from a datum. -/
def Hereditary (Q : Key n → Column n → Datum → Prop) : Prop :=
  ∀ k col d d', (∀ p ∈ d'.pairs, p ∈ d.pairs) → Q k col d → Q k col d'

/-- No column has strong as well as weak references. -/
def Unmixed (σ : Schema n) : Prop :=
  ∀ t, ∀ col ∈ (σ.table t).columns, col.type.key.weakRef ≠ none ∨ col.type.value.weakRef ≠ none →
      col.type.key.strongRef = none ∧ col.type.value.strongRef = none

/-- No table has too many rows. -/
def MaxRows (σ : Schema n) (s : Db n) : Prop := ∀ t, s.countRows t ≤ (σ.table t).maxRows

/-- The counters are right, and there is no garbage. -/
structure Sound (σ : Schema n) (s : Db n) : Prop extends Accounted σ s where
  clean : ∀ k, (σ.table k.1).isRoot = false → s.contents k ≠ none → s.refs k ≠ 0

/-- Every weak reference leads to a row that knows about it. -/
def WeakLinked (σ : Schema n) (s : Db n) : Prop :=
  ∀ k a row, s.rows.lookup k = some a → s.heap a = some row → ∀ x ∈ weakTargets σ k row.data,
    ∃ b, s.rows.lookup x = some b ∧ (b = a ∨ ⟨a, b⟩ ∈ s.weakRefs)

lemma countRows_congr {t : Fin n}
    (h : ∀ k : Key n, k.1 = t → (s.rows.lookup k = none ↔ s'.rows.lookup k = none)) :
    s.countRows t = s'.countRows t := by
  refine Perm.length_eq ((perm_ext_iff_of_nodup (s.rows.keys_nodup.filter _)
    (s'.rows.keys_nodup.filter _)).2 fun k => ?_)
  rw [mem_filter, mem_filter, decide_eq_true_eq, mem_keys_iff, mem_keys_iff,
    ← Option.ne_none_iff_exists', ← Option.ne_none_iff_exists']
  refine and_congr_left fun ht => ?_
  rw [ne_eq, h k ht]

/-- Tables outside the transaction have the rows that they had. -/
lemma Within.maxRows (h : Within c s) (hmax : MaxRows σ c)
    (hchecked : ∀ t ∈ s.txnTables, s.countRows t ≤ (σ.table t).maxRows) : MaxRows σ s := by
  intro t
  by_cases ht : t ∈ s.txnTables
  · exact hchecked t ht
  refine (countRows_congr fun k hk => ?_).trans_le (hmax t)
  cases hr : s.txnRows.lookup k with
  | none => rw [(h.rows k).untouched hr]
  | some r => exact absurd (hk ▸ (h.rows k).table r hr) ht

/-! ## The first three phases -/

/-- A state of the first phases. -/
structure Checking (σ : Schema n) (Q : Key n → Column n → Datum → Prop) (c s : Db n) : Prop where
  early : Early c s
  fresh : Fresh s
  columns : AllColumns σ Q s.contents

lemma Begun.checking (h : Begun σ Q c s) : Checking σ Q c s := { h with }

section

variable (hc : Committed c) {K : Finset (Key n)}
include hc

lemma Checking.collectable : Collectable gen c (Checking σ Q c) :=
  have hE : Collectable gen c (Early c) := Early.collectable hc
  { within s h := h.early.1
    clone s a row h hrow hrows hr := by
      refine ⟨hE.clone s a row h.early hrow hrows hr, h.fresh.createTxnTable row.key.1, ?_⟩
      rw [h.early.1.contents_cloneRow hc hrow hrows]
      exact h.columns
    put s k r r' h hr hold hnew hkeep :=
      ⟨hE.put s k r r' h.early hr hold hnew hkeep, h.fresh, h.columns⟩
    drop s h := ⟨hE.drop s h.early, h.fresh.dropEmptyTxnTables, h.columns⟩
    weak s h := h.early.2
    unlink s k r h hr := by
      refine ⟨hE.unlink s k r h.early hr, h.fresh, ?_⟩
      rw [contents_unlink]
      refine h.columns.update k ?_
      rintro data ⟨⟩
    destroy s a h ha hdead := by
      refine ⟨hE.destroy s a h.early ha hdead, h.fresh, ?_⟩
      rw [h.early.1.contents_rowDestroy hc ha hdead.2]
      exact h.columns }

/-- The keys of the transaction and the tables. -/
def Db.keySet (s : Db n) : Finset (Key n) := (s.rows.keys ++ s.txnRows.keys).toFinset

omit hc in
lemma Db.mem_keySet (h : s.Has k) : k ∈ s.keySet := by
  rw [keySet, mem_toFinset, mem_append, mem_keys_iff, mem_keys_iff,
    ← Option.ne_none_iff_exists', ← Option.ne_none_iff_exists']
  exact h

/-- What the collector starts from. -/
lemma Recounted.pending (hw : Within c s) (hK : ∀ k, s0.Has k → k ∈ K) (hw0 : Within c s0)
    (hcontents : s.contents = s0.contents) (h : Recounted σ c s K s0.contents)
    (hzero : ∀ k r, s.txnRows.lookup k = some r → r.new = none → r.nRefs = 0)
    (hacc : Accounted σ c) : Pending σ K [] (fun _ => False) s.contents s.refs where
  refs x := by
    have hrefs := hacc.refs_eq (fun k hk => hK k ?_) x
    · rw [h x, hcontents, count_nil]
      omega
    · obtain ⟨a, ha⟩ := Option.ne_none_iff_exists'.1 hk
      exact hw0.has_of_lookup ha
  exist x hx hnone := by
    refine hx ?_
    have hlookup := (hw.contents_eq_none_iff hc x).1 hnone
    cases hr : s.txnRows.lookup x with
    | none => rw [refs, hr, row_of_none hlookup]; rfl
    | some r =>
      rw [refs_of_txnRow hr]
      exact hzero x r hr ((hw.rows x).new r hr ▸ hlookup)
  clean _ h := h.elim

/-- The state after the first three phases. -/
structure Collected (σ : Schema n) (Q : Key n → Column n → Datum → Prop) (c s : Db n) : Prop
    extends Checking σ Q c s where
  maxRows : MaxRows σ c → MaxRows σ s
  sound : Sound σ c → Sound σ s

/-- Rows outside the transaction are as they were, and so are their counters. -/
lemma Within.refs_of_none (h : Within c s) (hr : s.txnRows.lookup k = none) :
    s.refs k = c.refs k := by
  rw [refs, refs, hr, hc.txnRows k, h.row_of_none hc hr]

lemma Pending.sound (hw : Within c s) (hK : ∀ k, s.Has k → k ∈ K)
    (h : Pending σ K [] (fun k => ∃ r, s.txnRows.lookup k = some r) s.contents s.refs)
    (hs : Sound σ c) : Sound σ s where
  toAccounted := Accounted.of_refs (fun k hk => hK k (.inl hk))
    (fun x => by rw [h.refs x, count_nil]; omega) h.exist
  clean k hroot hk := by
    cases hr : s.txnRows.lookup k with
    | none =>
      rw [hw.refs_of_none hc hr]
      exact hs.clean k hroot (hw.contents_of_none hc hr ▸ hk)
    | some r => exact h.clean k ⟨r, hr⟩ hroot hk

/-- An error has left the transaction in a state that can be undone. -/
def Undoable (c : Db n) (st : Stop n) (s : Db n) : Prop := Within c s ∧ ∃ e, st = .error e

/-- The state between the first two phases. -/
structure Counted (σ : Schema n) (Q : Key n → Column n → Datum → Prop) (c s : Db n) : Prop
    extends Checking σ Q c s where
  pending : Accounted σ c → ∃ K : Finset (Key n), (∀ k, s.Has k → k ∈ K) ∧
    Pending σ K [] (fun _ => False) s.contents s.refs

lemma updateRefCounts_counted (hs0 : Begun σ Q c s0) (order : ℕ → ℕ → ℕ) :
    Spec (· = s0) (updateRefCounts σ gen order) (fun _ => Counted σ Q c) (Undoable c) := by
  have hF : Collectable gen c (Checking σ Q c) := Checking.collectable hc
  refine (updateRefCounts_spec hc hF.toStable hs0.checking (fun k => mem_keySet) hs0.refs
    order).conseq (fun _ hs => hs) ?_ ?_
  · rintro - s ⟨⟨hs, hhas⟩, hcontents, hcount, hzero⟩
    exact ⟨hs, fun hacc => ⟨s0.keySet, fun k hk => mem_keySet (hhas k hk),
      hcount.pending hc hs.early.1 (fun _ => mem_keySet) hs0.early.1 hcontents hzero hacc⟩⟩
  · rintro st s ⟨hs, e, rfl, -⟩
    exact ⟨hs.early.1, e, rfl⟩

lemma collectGarbage_sound (order : ℕ → ℕ) :
    Spec (Counted σ Q c) (wrapBug (forEachTxnRow order (collectGarbage σ gen)))
      (fun _ s => Checking σ Q c s ∧ (Sound σ c → Sound σ s)) (Undoable c) := by
  refine Spec.intro fun s0 hs0 => ?_
  -- the set of keys matters only if the counters are right
  obtain ⟨K, hK, hpending⟩ : ∃ K : Finset (Key n), (∀ k, s0.Has k → k ∈ K) ∧
      (Accounted σ c → Pending σ K [] (fun _ => False) s0.contents s0.refs) := by
    by_cases hacc : Accounted σ c
    · obtain ⟨K, hK, hpending⟩ := hs0.pending hacc
      exact ⟨K, hK, fun _ => hpending⟩
    · exact ⟨s0.keySet, fun _ => mem_keySet, fun h => absurd h hacc⟩
  have hF : Collectable gen c (Checking σ Q c) := Checking.collectable hc
  refine wrapBug_spec ((forEach_collectGarbage (H := Accounted σ c) hc hF
    ⟨hs0.toChecking, hpending⟩ hK order).post fun _ s hs => ?_) ?_ ?_
  · obtain ⟨hhas, hs, hpending⟩ := hs
    exact ⟨hs, fun hsound => (hpending hsound.toAccounted).sound hc hs.early.1
      (fun k hk => hK k (hhas k hk)) hsound⟩
  · rintro e s ⟨hs, -⟩
    exact ⟨hs.early.1, _, rfl⟩
  · rintro s ⟨hs, e, ⟨⟩, -⟩

omit hc in
lemma checkMaxRows_collected :
    Spec (fun s => Checking σ Q c s ∧ (Sound σ c → Sound σ s)) (checkMaxRows σ)
      (fun _ => Collected σ Q c) (Undoable c) := by
  refine Spec.intro fun s0 hs0 => (checkMaxRows_spec s0).conseq (fun _ hs => hs) ?_ ?_
  · rintro - s ⟨rfl, hmax⟩
    exact ⟨hs0.1, fun hc => hs0.1.early.1.maxRows hc hmax, hs0.2⟩
  · rintro st s ⟨rfl, e, rfl, -⟩
    exact ⟨hs0.1.early.1, e, rfl⟩

/-! ## Weak references -/

/-- A state of the fourth phase.  `ρ` are the counters, `held` are the references that they
count. -/
structure Assessing (σ : Schema n) (Q : Key n → Column n → Datum → Prop) (c : Db n)
    (ρ : Key n → ℤ) (held : Key n → List (Key n)) (s : Db n) : Prop where
  within : Within c s
  fresh : Fresh s
  columns : AllColumns σ Q s.contents
  refs : s.refs = ρ
  held : Unmixed σ → heldBy σ s.contents = held

lemma refs_setRow {a : ℕ} {row' : Row n} (hw : Within c s) (ha : s.rows.lookup k = some a)
    (hr : ∃ r, s.txnRows.lookup k = some r) : (s.setRow a row').refs = s.refs := by
  funext x
  by_cases hx : x = k
  · subst hx
    obtain ⟨r, hr⟩ := hr
    rw [refs_of_txnRow hr]
    exact refs_of_txnRow hr
  · exact refs_congr rfl (hw.row_setRow_of_ne hc row' ha hx)

lemma Within.contents_setField (hw : Within c s) {a : ℕ} (row : Row n)
    (ha : s.rows.lookup k = some a) (i : ℕ) (d : Datum) : (s.setRow a (row.setField i d)).contents =
      update s.contents k (some (update row.data i d)) := by
  funext x
  by_cases hx : x = k
  · subst hx
    rw [update_self, contents, row_of_lookup (s := s.setRow a _) ha]
    show Option.map Row.data (update s.heap a _ a) = _
    rw [update_self]
    rfl
  · rw [update_of_ne hx, contents, contents, hw.row_setRow_of_ne hc _ ha hx]

end

lemma Assessing.stable (hc : Committed c) (ρ : Key n → ℤ) (held : Key n → List (Key n)) :
    Stable gen c True (Assessing σ Q c ρ held) where
  within s h := h.within
  clone s a row h hrow hrows hr := by
    refine ⟨h.within.pull hrows hr, h.fresh.createTxnTable row.key.1, ?_, ?_, ?_⟩
    · rw [h.within.contents_cloneRow hc hrow hrows]
      exact h.columns
    · rw [h.within.refs_cloneRow hc hrow hrows hr, h.refs]
    · rw [h.within.contents_cloneRow hc hrow hrows]
      exact h.held
  put s k r r' h hr hold hnew hkeep := by
    refine ⟨h.within.putTxnRow hr hold hnew, h.fresh, h.columns, ?_, h.held⟩
    rw [refs_putTxnRow, hkeep trivial, ← refs_of_txnRow hr, update_eq_self, h.refs]
  drop s h := ⟨h.within.dropEmptyTxnTables, h.fresh.dropEmptyTxnTables, h.columns, h.refs, h.held⟩

lemma Assessing.assessable (hc : Committed c) (hQ : Hereditary Q) (ρ : Key n → ℤ)
    (held : Key n → List (Key n)) (k : Key n) :
    Assessable gen σ c k (Assessing σ Q c ρ held) where
  toStable := Assessing.stable hc ρ held
  addWeak s src dst h hsrc hdst := ⟨h.within.addWeak hsrc hdst, h.fresh, h.columns, h.refs, h.held⟩
  prune s a row col d h ha hrow hr hcol hweak hsub := by
    have hcontents := h.within.contents_setField hc row ha col.index d
    have hdata := contents_of_lookup ha hrow
    have hkey := h.within.key_eq hc ha hrow
    obtain ⟨r, hr⟩ := hr
    have hnew := (h.within.rows k).new r hr
    refine ⟨h.within.setRow hr (hnew.trans ha) hkey, h.fresh, ?_, ?_, fun hσ => ?_⟩
    · rw [hcontents]
      refine h.columns.update k fun data hd col' hcol' => ?_
      cases hd
      by_cases hi : col'.index = col.index
      · rw [(σ.table k.1).index_inj hcol' hcol hi, update_self]
        refine hQ k col _ d hsub ?_
        rw [row.field_of_weak hcol hweak]
        exact h.columns k _ hdata col hcol
      · rw [update_of_ne hi]
        exact h.columns k _ hdata col' hcol'
    · rw [refs_setRow hc h.within ha ⟨r, hr⟩, h.refs]
    · -- where nothing is mixed, a column with weak references does not count
      have hnone : ∀ d, col.strongRefs d = [] := by
        intro d
        obtain ⟨hkey, hvalue⟩ := hσ k.1 col hcol hweak
        rw [Column.strongRefs, hkey, hvalue, refKeys_none, refKeys_none, append_nil]
      rw [hcontents, heldBy_update, ← h.held hσ, update_eq_self_iff, heldBy_of_some hdata,
        Option.elim_some, countedRefs, countedRefs]
      congr 1
      refine flatMap_congr fun col' hcol' => ?_
      by_cases hi : col'.index = col.index
      · rw [(σ.table k.1).index_inj hcol' hcol hi, hnone, hnone]
      · rw [update_of_ne hi]

/-- The state of a transaction before its indexes are checked. -/
structure Settling (σ : Schema n) (Q : Key n → Column n → Datum → Prop) (c s : Db n) : Prop where
  within : Within c s
  fresh : Fresh s
  columns : AllColumns σ Q s.contents
  settled : ∀ k r, s.txnRows.lookup k = some r → Settled σ c k s
  maxRows : MaxRows σ c → MaxRows σ s
  sound : Unmixed σ → Sound σ c → Sound σ s

lemma Sound.congr (h : Sound σ s) (hrows : SameRows s s') (hcontents : ∀ x,
      s'.contents x = none ↔ s.contents x = none) (hrefs : s'.refs = s.refs)
    (hheld : heldBy σ s'.contents = heldBy σ s.contents) : Sound σ s' where
  toAccounted := by
    refine Accounted.of_refs (K := s.rows.keys.toFinset) (fun k hk => ?_) (fun x => ?_)
      fun x hx hnone => ?_
    · rw [mem_toFinset, mem_keys_iff, ← Option.ne_none_iff_exists']
      exact fun hnone => hk ((hrows k).2 hnone)
    · rw [hrefs, hheld]
      exact h.refs x
    · rw [hrefs] at hx
      exact h.exist hx ((hcontents x).1 hnone)
  clean k hroot hk := by
    rw [hrefs]
    exact h.clean k hroot fun hnone => hk ((hcontents k).2 hnone)

lemma assessWeakRefs_settling (hc : Committed c) (hQ : Hereditary Q) (order : ℕ → ℕ) :
    Spec (Collected σ Q c) (forEachTxnRow order (assessWeakRefs σ gen))
      (fun _ => Settling σ Q c) (fun _ => Within c) := by
  refine Spec.intro fun s0 hs0 => ?_
  have hstart : Assessing σ Q c s0.refs (heldBy σ s0.contents) s0 :=
    ⟨hs0.early.1, hs0.fresh, hs0.columns, rfl, fun _ => rfl⟩
  refine (forEach_assessWeakRefs hc (Assessing.stable hc s0.refs _)
    (Assessing.assessable hc hQ s0.refs _) hstart order).conseq (fun _ hs => hs) ?_ fun _ s hs =>
    hs.1.within
  rintro - s ⟨hs, hrows, -, hsettled⟩
  refine ⟨hs.within, hs.fresh, hs.columns, hsettled, fun hmax t => ?_, fun hσ hsound => ?_⟩
  · rw [← countRows_congr fun k _ => (hrows k).symm]
    exact hs0.maxRows hmax t
  · refine (hs0.sound hsound).congr hrows (fun x => ?_) hs.refs (hs.held hσ)
    rw [hs.within.contents_eq_none_iff hc, hs0.early.1.contents_eq_none_iff hc, hrows x]

/-- **The phases before the check of the indexes** keep a sound database sound. -/
lemma txnSettle_spec (hc : Committed c) (hQ : Hereditary Q) (hs0 : Begun σ Q c s0)
    (order : ℕ → ℕ → ℕ) :
    Spec (· = s0) (txnSettle σ gen order) (fun _ => Settling σ Q c) (fun _ => Within c) := by
  have hE : ∀ st (s : Db n), Undoable c st s → Within c s := fun _ _ h => h.1
  exact Spec.bind ((updateRefCounts_counted hc hs0 order).conseq (fun _ h => h)
    (fun _ _ h => h) hE) fun _ => Spec.bind ((collectGarbage_sound hc (order 3)).conseq
    (fun _ h => h) (fun _ _ h => h) hE) fun _ => Spec.bind (checkMaxRows_collected.conseq
    (fun _ h => h) (fun _ _ h => h) hE) fun _ => assessWeakRefs_settling hc hQ (order 4)

/-- The state of a transaction that has passed every check. -/
structure Passed (σ : Schema n) (Q : Key n → Column n → Datum → Prop) (c s : Db n) : Prop where
  within : Within c s
  columns : AllColumns σ Q s.contents
  settled : ∀ k r, s.txnRows.lookup k = some r → Settled σ c k s
  maxRows : MaxRows σ c → MaxRows σ s
  sound : Unmixed σ → Sound σ c → Sound σ s
  hash : ∀ k row, s.row k = some row → (∃ r, s.txnRows.lookup k = some r) →
    ∀ p ∈ (σ.table k.1).indexes.zipIdx, row.indexHash p.2 = row.hashColumns p.1 0
  unique : Indexes σ c → ∀ k k' row row', s.row k = some row → s.row k' = some row' →
    k.1 = k'.1 → ∀ p ∈ (σ.table k.1).indexes.zipIdx, Row.Clash p.1 row row' → k = k'

lemma Stamped.settled (h : Stamped s0 s) (hk : Settled σ c k s0) : Settled σ c k s where
  txnRow := h.txnRows ▸ hk.txnRow
  assessed a ha row hrow col hcol x hx := by
    obtain ⟨row0, i, hrow0, rfl⟩ := h.cell hrow
    obtain ⟨b, hb, hr, hw⟩ := hk.assessed a (h.rows ▸ ha) row0 hrow0 col hcol x hx
    exact ⟨b, h.rows ▸ hb, h.txnRows ▸ hr, h.weakRefs ▸ hw⟩
  sources ks hks := h.txnRows ▸ hk.sources ks hks

lemma Settling.passed (h : Settling σ Q c s0) (hs : Checked σ c s0 s) :
    Passed σ Q c s.dropEmptyTxnTables where
  within := (hs.stamped.within h.within).dropEmptyTxnTables
  columns := by
    show AllColumns σ Q s.contents
    rw [hs.stamped.contents]
    exact h.columns
  settled k r hr := by
    have hk := hs.stamped.settled (h.settled k r (hs.stamped.txnRows ▸ hr))
    exact { hk with }
  maxRows hc t := by
    show (s.rows.keys.filter _).length ≤ _
    rw [hs.stamped.rows]
    exact h.maxRows hc t
  sound hσ hc := by
    have hcontents : s.dropEmptyTxnTables.contents = s0.contents := hs.stamped.contents
    refine (h.sound hσ hc).congr (fun x => ?_) (fun x => by rw [hcontents]) hs.stamped.refs
      (by rw [hcontents])
    show s.rows.lookup x = none ↔ _
    rw [hs.stamped.rows]
  hash k row hrow hr p hp := by
    obtain ⟨r, hr⟩ := hr
    exact hs.hash k row hrow ⟨r, hs.stamped.txnRows ▸ hr⟩ p hp
  unique hI k k' row row' hrow hrow' hkk p hp hclash := by
    obtain ⟨row0, i, hrow0, rfl⟩ := hs.stamped.row_cases hrow
    obtain ⟨row0', i', hrow0', rfl⟩ := hs.stamped.row_cases hrow'
    exact hs.unique hI k k' row0 row0' hrow0 hrow0' hkk p hp hclash

/-- **All checks of a commit.** -/
lemma txnCheck_spec (hc : Committed c) (hQ : Hereditary Q) (hs0 : Begun σ Q c s0)
    (order : ℕ → ℕ → ℕ) :
    Spec (· = s0) (txnCheck σ gen order) (fun _ => Passed σ Q c) (fun _ => Within c) := by
  refine Spec.bind (txnSettle_spec hc hQ hs0 order) fun _ => Spec.intro fun s1 hs1 => ?_
  refine (forEach_checkIndexUniqueness hc hs1.within hs1.fresh (order 5)).conseq (fun _ h => h)
    ?_ fun st s hs => hs.1.within hs1.within
  rintro - s ⟨s2, rfl, hs2⟩
  exact hs1.passed hs2

end Ovsdb

end OVS
