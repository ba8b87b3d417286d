import OpenVSwitch.Ovsdb.Assess

/-!
# Row limits and indexes

`check_max_rows()` and `check_index_uniqueness()`.

The latter searches, for every new version of a row, two hash tables: the one of the transaction,
which holds the new versions already checked, and the committed one, in which rows of the
transaction are stale.  A search compares hashes before it compares columns, so that what it
excludes is a *clash*: equal columns and equal hashes.

`Indexes` is what the committed hash tables satisfy.  Given that, the search of the committed
table may look at one match only: two matches would clash with each other.
-/

namespace OVS

namespace Ovsdb

open List Function Prog Option

variable {n : ℕ} {c s s' s₀ : Db n} {gen : ℕ → Uuid} {σ : Schema n} {cols : List (Column n)}

/-- **`check_max_rows()`** looks at the tables of the transaction. -/
lemma checkMaxRows_spec (s₀ : Db n) :
    Spec (· = s₀) (checkMaxRows σ)
      (fun _ s => s = s₀ ∧ ∀ t ∈ s₀.txnTables, s₀.countRows t ≤ (σ.table t).maxRows)
      (fun st s => s = s₀ ∧ ∃ e, st = .error e ∧ ∃ t, (σ.table t).maxRows < s₀.countRows t) := by
  refine Spec.get_bind fun s hs => ?_
  subst hs
  refine (Spec.each (fun pre s' => s' = s ∧ ∀ t ∈ pre, s.countRows t ≤ (σ.table t).maxRows)
    ?_).pre ?_
  · intro pre t post _
    refine Spec.ite (fun hmany => Spec.throw fun s' hs' => ?_) fun hfew =>
      Spec.pure fun s' hs' => ⟨hs'.1, fun t' ht' => ?_⟩
    · exact ⟨hs'.1, _, rfl, t, hmany⟩
    · rcases mem_append.1 ht' with ht' | ht'
      · exact hs'.2 t' ht'
      · rw [mem_singleton.1 ht']
        exact not_lt.1 hfew
  · rintro _ rfl
    exact ⟨rfl, by simp⟩

namespace Row

variable {cols : List (Column n)}

lemma equalColumns_iff {a b : Row n} : a.equalColumns b cols = true ↔
      ∀ col ∈ cols, (a.field col.index).canon = (b.field col.index).canon := by
  simp [equalColumns, Datum.equals_iff]

/-- What a search finds: equal hashes and equal columns. -/
def Clash (cols : List (Column n)) (a b : Row n) : Prop :=
  a.hashColumns cols 0 = b.hashColumns cols 0 ∧ a.equalColumns b cols = true

lemma Clash.symm {a b : Row n} (h : Clash cols a b) : Clash cols b a := by
  refine ⟨h.1.symm, equalColumns_iff.2 fun col hcol => ?_⟩
  exact (equalColumns_iff.1 h.2 col hcol).symm

lemma Clash.trans {a b d : Row n} (h : Clash cols a b) (h' : Clash cols b d) : Clash cols a d := by
  refine ⟨h.1.trans h'.1, equalColumns_iff.2 fun col hcol => ?_⟩
  exact (equalColumns_iff.1 h.2 col hcol).trans (equalColumns_iff.1 h'.2 col hcol)

/-- The row, with other hashes in its index nodes. -/
def stamp (row : Row n) (h : ℕ → BitVec 32) : Row n := { row with indexHash := h }

end Row

/-- What holds of the committed indexes. -/
structure Indexes (σ : Schema n) (c : Db n) : Prop where
  nodup : ∀ t, ∀ p ∈ (σ.table t).indexes.zipIdx, (c.indexes t p.2).Nodup
  mem : ∀ t, ∀ p ∈ (σ.table t).indexes.zipIdx, ∀ a,
    a ∈ c.indexes t p.2 ↔ ∃ k, k.1 = t ∧ c.rows.lookup k = some a
  hash : ∀ k row, c.row k = some row → ∀ p ∈ (σ.table k.1).indexes.zipIdx,
    row.indexHash p.2 = row.hashColumns p.1 0
  unique : ∀ k k' row row', c.row k = some row → c.row k' = some row' → k.1 = k'.1 →
    ∀ p ∈ (σ.table k.1).indexes.zipIdx, Row.Clash p.1 row row' → k = k'

/-! ## States of the check -/

/-- The check changes nothing but the hashes in the index nodes of new versions, and the indexes of
the transaction. -/
structure Stamped (s₀ s : Db n) : Prop where
  rows : s.rows = s₀.rows
  txnRows : s.txnRows = s₀.txnRows
  txnTables : s.txnTables = s₀.txnTables
  weakRefs : s.weakRefs = s₀.weakRefs
  next : s.next = s₀.next
  indexes : s.indexes = s₀.indexes
  isSome : ∀ a row, s₀.heap a = some row → ∃ h, s.heap a = some (row.stamp h)
  isNone : ∀ a, s₀.heap a = none → s.heap a = none
  old : ∀ a, ¬ IsNew s₀ a → s.heap a = s₀.heap a

namespace Stamped

lemma refl (s : Db n) : Stamped s s :=
  ⟨rfl, rfl, rfl, rfl, rfl, rfl, fun _ row hrow => ⟨row.indexHash, hrow⟩, fun _ h => h,
    fun _ _ => rfl⟩

variable {row : Row n}

section

variable (h : Stamped s₀ s) {k : Key n}
include h

lemma heap_eq (a : ℕ) : ∃ i, s.heap a = (s₀.heap a).map (·.stamp i) := by
  cases hrow : s₀.heap a with
  | none => exact ⟨fun _ => 0, h.isNone a hrow⟩
  | some row => exact h.isSome a row hrow

lemma row_eq (k : Key n) : ∃ i, s.row k = (s₀.row k).map (·.stamp i) := by
  rw [Db.row, Db.row, h.rows]
  cases s₀.rows.lookup k with
  | none => exact ⟨fun _ => 0, rfl⟩
  | some a => exact h.heap_eq a

lemma cell {a : ℕ} (hrow : s.heap a = some row) :
    ∃ row0 i, s₀.heap a = some row0 ∧ row = row0.stamp i := by
  obtain ⟨i, hi⟩ := h.heap_eq a
  obtain ⟨row0, hrow0, rfl⟩ := map_eq_some_iff.1 (hi.symm.trans hrow)
  exact ⟨row0, i, hrow0, rfl⟩

lemma row_some (hrow : s₀.row k = some row) : ∃ i, s.row k = some (row.stamp i) := by
  obtain ⟨i, hi⟩ := h.row_eq k
  exact ⟨i, by rw [hi, hrow]; rfl⟩

lemma row_cases (hrow : s.row k = some row) :
    ∃ row0 i, s₀.row k = some row0 ∧ row = row0.stamp i := by
  obtain ⟨i, hi⟩ := h.row_eq k
  obtain ⟨row0, hrow0, rfl⟩ := map_eq_some_iff.1 (hi.symm.trans hrow)
  exact ⟨row0, i, hrow0, rfl⟩

lemma contents : s.contents = s₀.contents := by
  funext k
  obtain ⟨i, hi⟩ := h.row_eq k
  rw [Db.contents, Db.contents, hi, Option.map_map]
  rfl

lemma refs : s.refs = s₀.refs := by
  funext k
  obtain ⟨i, hi⟩ := h.row_eq k
  rw [Db.refs, Db.refs, h.txnRows, hi]
  cases s₀.txnRows.lookup k <;> cases s₀.row k <;> rfl

lemma isNew (a : ℕ) : IsNew s a ↔ IsNew s₀ a := by
  unfold IsNew
  rw [h.txnRows]

/-- The state stays one of the transaction. -/
lemma within (hw : Within c s₀) : Within c s := by
  refine ⟨?_, fun a ha => ?_, fun a ha => ?_, h.indexes.trans hw.indexes, fun k => ?_, ?_⟩
  · rw [h.next]
    exact hw.next_le
  · rw [h.next] at ha
    exact h.isNone a (hw.fresh a ha)
  · rw [h.old a, hw.heap a ha]
    rintro ⟨k, r, hr, hnew⟩
    exact absurd ha (not_lt.2 ((hw.rows k).cell r a hr hnew).1)
  · refine (hw.rows k).congr (by rw [h.rows]) (by rw [h.txnRows])
      (fun _ a row _ _ ha hkey _ => ?_) (by rw [h.txnTables]; exact fun _ _ ht => ht)
    obtain ⟨i, hi⟩ := h.isSome a row ha
    exact ⟨_, hi, hkey⟩
  · obtain ⟨added, hadd, hall⟩ := hw.weak
    refine ⟨added, h.weakRefs.trans hadd, fun w hw => ?_⟩
    rw [h.isNew, h.isNew]
    exact hall w hw

/-- A new version gets another hash. -/
lemma setRow {a : ℕ} (hrow : s.heap a = some row) (hnew : IsNew s₀ a) (i : ℕ → BitVec 32)
    (x : Fin n → ℕ → List ℕ) : Stamped s₀ { s.setRow a (row.stamp i) with txnIndexes := x } := by
  obtain ⟨row0, i0, hrow0, rfl⟩ := h.cell hrow
  refine ⟨h.rows, h.txnRows, h.txnTables, h.weakRefs, h.next, h.indexes, fun b row' hb => ?_,
    fun b hb => ?_, fun b hb => ?_⟩
  · by_cases hba : b = a
    · subst hba
      rw [hrow0] at hb
      cases hb
      exact ⟨i, by simp [Row.stamp]⟩
    · obtain ⟨j, hj⟩ := h.isSome b row' hb
      exact ⟨j, by rw [← hj]; exact update_of_ne hba _ _⟩
  · have hba : b ≠ a := by
      rintro rfl
      rw [hrow0] at hb
      cases hb
    exact (update_of_ne hba _ _).trans (h.isNone b hb)
  · have hba : b ≠ a := by
      rintro rfl
      exact hb hnew
    exact (update_of_ne hba _ _).trans (h.old b hb)

end

end Stamped

/-! ## Searches -/

/-- What a search finds is in the index. -/
lemma indexSearch_some {index : List ℕ} {row irow : Row n} {i : ℕ} {hash : BitVec 32}
    (h : indexSearch s index row i cols hash = some irow) :
    (∃ b ∈ index, s.heap b = some irow) ∧ irow.indexHash i = hash ∧
      row.equalColumns irow cols = true := by
  have hmem := mem_of_find?_eq_some h
  have hprop := find?_some h
  rw [mem_filterMap] at hmem
  rw [Bool.and_eq_true, decide_eq_true_eq] at hprop
  exact ⟨hmem, hprop⟩

/-- A search that finds nothing excludes every row in the index. -/
lemma indexSearch_none {index : List ℕ} {row irow : Row n} {i : ℕ} {hash : BitVec 32}
    (h : indexSearch s index row i cols hash = none) {b : ℕ} (hb : b ∈ index)
    (hrow : s.heap b = some irow) (hhash : irow.indexHash i = hash) :
    ¬ row.equalColumns irow cols = true := by
  intro heq
  have hnone := find?_eq_none.1 h irow (mem_filterMap.2 ⟨b, hb, hrow⟩)
  rw [Bool.and_eq_true, decide_eq_true_eq] at hnone
  exact hnone ⟨hhash, heq⟩

/-- Two rows of a table with equal values for an index. -/
def Duplicate (σ : Schema n) (s : Db n) : Prop :=
  ∃ k k' row row', k ≠ k' ∧ k.1 = k'.1 ∧ s.row k = some row ∧ s.row k' = some row' ∧
    ∃ cols ∈ (σ.table k.1).indexes, row.equalColumns row' cols = true

/-- The rows `P i` have been checked for index `i`, and are in the index of the transaction. -/
structure Filed (σ : Schema n) (c s₀ : Db n) (P : ℕ → Key n → Prop) (s : Db n) : Prop where
  mem : ∀ t ∈ s₀.txnTables, ∀ p ∈ (σ.table t).indexes.zipIdx, ∀ a,
    a ∈ s.txnIndexes t p.2 ↔ ∃ k, k.1 = t ∧ P p.2 k ∧ s₀.rows.lookup k = some a
  hash : ∀ k row, s.row k = some row → ∀ p ∈ (σ.table k.1).indexes.zipIdx, P p.2 k →
    row.indexHash p.2 = row.hashColumns p.1 0
  unique : ∀ k k' row row', s₀.row k = some row → s₀.row k' = some row' → k.1 = k'.1 →
    ∀ p ∈ (σ.table k.1).indexes.zipIdx, P p.2 k → P p.2 k' → Row.Clash p.1 row row' → k = k'
  committed : Indexes σ c → ∀ k k' row row', s₀.row k = some row → s₀.row k' = some row' →
    k.1 = k'.1 → ∀ p ∈ (σ.table k.1).indexes.zipIdx, P p.2 k → s₀.txnRows.lookup k' = none →
    ¬ Row.Clash p.1 row row'

/-- How the check fails. -/
def IndexFailed (σ : Schema n) (c s₀ : Db n) (st : Stop n) (s : Db n) : Prop :=
  Stamped s₀ s ∧ ∃ e, st = .error e ∧ (Indexes σ c → Duplicate σ s₀)

lemma zipIdx_split {α : Type} {l : List α} {pre post : List (α × ℕ)} {p : α × ℕ}
    (h : l.zipIdx = pre ++ p :: post) : p.2 = pre.length := by
  have hget := congrArg (fun l' => l'[pre.length]?) h
  simp only [getElem?_zipIdx, getElem?_append_right (le_refl pre.length), Nat.sub_self,
    getElem?_cons_zero, map_eq_some_iff] at hget
  obtain ⟨x, -, rfl⟩ := hget
  exact Nat.zero_add _

/-- Only rows that there are, and indexes that their table has, matter. -/
lemma Filed.congr {P P' : ℕ → Key n → Prop} (h : Filed σ c s₀ P s) (hs : Stamped s₀ s)
    (hP : ∀ x a, s₀.rows.lookup x = some a →
      ∀ p ∈ (σ.table x.1).indexes.zipIdx, P' p.2 x ↔ P p.2 x) : Filed σ c s₀ P' s := by
  have hrow {x : Key n} {row : Row n} (hx : s₀.row x = some row) :
      ∀ p ∈ (σ.table x.1).indexes.zipIdx, P' p.2 x → P p.2 x := by
    obtain ⟨a, ha, -⟩ := bind_eq_some_iff.1 hx
    exact fun p hp => (hP x a ha p hp).1
  refine ⟨fun t ht p hp a => ?_, fun k row hk p hp hk' => ?_,
    fun k k' row row' hk hk' hkk p hp hPk hPk' => h.unique k k' row row' hk hk' hkk p hp
      (hrow hk p hp hPk) (hrow hk' p (hkk ▸ hp) hPk'),
    fun hI k k' row row' hk hk' hkk p hp hPk => h.committed hI k k' row row' hk hk' hkk p hp
      (hrow hk p hp hPk)⟩
  · rw [h.mem t ht p hp a]
    refine exists_congr fun k => and_congr_right fun hk => and_congr_left fun ha => ?_
    subst hk
    rw [hP k a ha p hp]
  · obtain ⟨row0, i, hk0, -⟩ := hs.row_cases hk
    exact h.hash k row hk p hp (hrow hk0 p hp hk')

section Check

variable {k : Key n} {a : ℕ} {r : TxnRow} {P : ℕ → Key n → Prop} {p : List (Column n) × ℕ}

section

variable (hc : Committed c) (hw : Within c s₀)
include hc hw

/-- A committed row that clashes with another row is found by the search of the committed
index, whichever match is the first. -/
lemma Within.committed_of_search (hs : Stamped s₀ s) (hI : Indexes σ c)
    {row : Row n} (hp : p ∈ (σ.table k.1).indexes.zipIdx)
    (hsearch : (indexSearch s (s.indexes k.1 p.2) row p.2 p.1 (row.hashColumns p.1 0)).filter
      (fun irow => (s.txnRows.lookup irow.key).isNone) = none) {k' : Key n} {row' : Row n}
    (hrow' : s₀.row k' = some row') (hkk : k.1 = k'.1) (hr' : s₀.txnRows.lookup k' = none) :
    ¬ Row.Clash p.1 row row' := by
  intro hclash
  -- rows of the committed index are as they were
  have hold : ∀ b x, c.rows.lookup x = some b → s.heap b = c.heap b := fun b x hx =>
    (hs.within hw).heap b (hc.cell_lt_next hx)
  rw [hw.row_of_none hc hr'] at hrow'
  obtain ⟨b, hb, hcell⟩ := bind_eq_some_iff.1 hrow'
  have hmem : b ∈ s.indexes k.1 p.2 := by
    rw [hs.indexes, hw.indexes, hI.mem k.1 p hp]
    exact ⟨k', hkk.symm, hb⟩
  have hhash : row'.indexHash p.2 = row.hashColumns p.1 0 := by
    rw [hI.hash k' row' hrow' p (hkk ▸ hp), hclash.1]
  cases hfirst : indexSearch s (s.indexes k.1 p.2) row p.2 p.1 (row.hashColumns p.1 0) with
  | none => exact indexSearch_none hfirst hmem ((hold b k' hb).trans hcell) hhash hclash.2
  | some irow =>
    obtain ⟨⟨b1, hb1, hcell1⟩, hhash1, heq1⟩ := indexSearch_some hfirst
    rw [hs.indexes, hw.indexes, hI.mem k.1 p hp] at hb1
    obtain ⟨k1, hk1, hb1⟩ := hb1
    rw [hold b1 k1 hb1] at hcell1
    have hrow1 : c.row k1 = some irow := by rw [Db.row_of_lookup hb1, hcell1]
    have hclash1 : Row.Clash p.1 row irow := by
      refine ⟨?_, heq1⟩
      rw [← hhash1, hI.hash k1 irow hrow1 p (hk1 ▸ hp)]
    have heq : k1 = k' := hI.unique k1 k' irow row' hrow1 hrow' (hk1.trans hkk) p (hk1 ▸ hp)
      (hclash1.symm.trans hclash)
    rw [hfirst, filter_some, (Within.refl hc).key_eq hc hb1 hcell1, heq, hs.txnRows, hr'] at hsearch
    simp at hsearch

/-- The row is filed: its hash is stored, and its cell is added to the index of the
transaction. -/
def file (s : Db n) (t : Fin n) (a : ℕ) (row : Row n) (p : List (Column n) × ℕ) : Db n :=
  { s.setRow a (row.stamp (update row.indexHash p.2 (row.hashColumns p.1 0))) with
    txnIndexes := update s.txnIndexes t
      (update (s.txnIndexes t) p.2 (a :: s.txnIndexes t p.2)) }

lemma Filed.file (hs : Stamped s₀ s) (h : Filed σ c s₀ P s)
    (hr : s₀.txnRows.lookup k = some r) (ha : s₀.rows.lookup k = some a) {row : Row n}
    (hrow : s.heap a = some row) (hp : p ∈ (σ.table k.1).indexes.zipIdx)
    (hunique : ∀ k' row', k.1 = k'.1 → P p.2 k' → s.row k' = some row' → ¬ Row.Clash p.1 row row')
    (hcommitted : Indexes σ c → ∀ k' row', k.1 = k'.1 → s₀.txnRows.lookup k' = none →
      s₀.row k' = some row' → ¬ Row.Clash p.1 row row') :
    Filed σ c s₀ (fun i x => P i x ∨ i = p.2 ∧ x = k) (file s k.1 a row p) := by
  have hrowk : s.row k = some row := by rw [Db.row, hs.rows, ha]; exact hrow
  -- the row as it was, with other hashes
  have hstamp : ∀ row0, s₀.row k = some row0 → ∃ i, row = row0.stamp i := by
    intro row0 hrow0
    obtain ⟨row1, i, hrow1, rfl⟩ := hs.row_cases hrowk
    rw [hrow0] at hrow1
    cases hrow1
    exact ⟨i, rfl⟩
  have hp_eq : ∀ q ∈ (σ.table k.1).indexes.zipIdx, q.2 = p.2 → q = p := by
    intro q hq hqp
    have hp' := mem_zipIdx_iff_getElem?.1 hp
    rw [← hqp, mem_zipIdx_iff_getElem?.1 hq] at hp'
    exact Prod.ext (some_inj.1 hp') hqp
  refine ⟨fun t ht q hq b => ?_, fun k1 row1 hrow1 q hq hP => ?_,
    fun k1 k2 row1 row2 hrow1 hrow2 hkk q hq hP1 hP2 hclash => ?_,
    fun hI k1 k2 row1 row2 hrow1 hrow2 hkk q hq hP hr2 => ?_⟩
  · show b ∈ update s.txnIndexes k.1 _ t q.2 ↔ _
    by_cases htk : t = k.1
    · subst htk
      rw [update_self]
      by_cases hi : q.2 = p.2
      · rw [hi, update_self, mem_cons, ← hi, h.mem k.1 ht q hq]
        constructor
        · rintro (rfl | ⟨k', hk', hP, hb⟩)
          · exact ⟨k, rfl, .inr ⟨rfl, rfl⟩, ha⟩
          · exact ⟨k', hk', .inl hP, hb⟩
        · rintro ⟨k', hk', hP | ⟨-, rfl⟩, hb⟩
          · exact .inr ⟨k', hk', hP, hb⟩
          · rw [ha] at hb
            exact .inl (some_inj.1 hb).symm
      · rw [update_of_ne hi, h.mem k.1 ht q hq]
        simp only [hi, false_and, or_false]
    · rw [update_of_ne htk, h.mem t ht q hq]
      refine exists_congr fun k' => and_congr_right fun hk' => and_congr_left fun _ => ?_
      rw [or_iff_left]
      rintro ⟨-, rfl⟩
      exact htk hk'.symm
  · by_cases hk : k1 = k
    · subst hk
      have hrow2 : (OVS.Ovsdb.file s k1.1 a row p).row k1 = some (row.stamp
          (update row.indexHash p.2 (row.hashColumns p.1 0))) := by
        rw [Db.row, show (OVS.Ovsdb.file s k1.1 a row p).rows = s₀.rows from hs.rows, ha]
        exact update_self _ _ _
      rw [hrow2] at hrow1
      cases hrow1
      by_cases hi : q.2 = p.2
      · rw [hp_eq q hq hi]
        exact update_self _ _ _
      · have hP : P q.2 k1 := hP.resolve_right fun h => hi h.1
        refine (update_of_ne hi _ _).trans ?_
        exact h.hash k1 row hrowk q hq hP
    · have hrows : s.rows.lookup k = some a := by rw [hs.rows, ha]
      have hsame := (hs.within hw).row_setRow_of_ne hc
        (row.stamp (update row.indexHash p.2 (row.hashColumns p.1 0))) hrows hk
      exact h.hash k1 row1 (hsame.symm.trans hrow1) q hq (hP.resolve_right fun h => hk h.2)
  · rcases hP1 with hP1 | ⟨hi, rfl⟩
    · rcases hP2 with hP2 | ⟨hi, rfl⟩
      · exact h.unique k1 k2 row1 row2 hrow1 hrow2 hkk q hq hP1 hP2 hclash
      · obtain ⟨i, rfl⟩ := hstamp row2 hrow2
        obtain ⟨j, hj⟩ := hs.row_some hrow1
        rw [hkk] at hq
        rw [hp_eq q hq hi] at hclash hP1
        exact (hunique k1 (row1.stamp j) hkk.symm hP1 hj hclash.symm).elim
    · rcases hP2 with hP2 | ⟨-, rfl⟩
      · obtain ⟨i, rfl⟩ := hstamp row1 hrow1
        obtain ⟨j, hj⟩ := hs.row_some hrow2
        rw [hp_eq q hq hi] at hclash hP2
        exact (hunique k2 (row2.stamp j) hkk hP2 hj hclash).elim
      · rfl
  · rcases hP with hP | ⟨hi, rfl⟩
    · exact h.committed hI k1 k2 row1 row2 hrow1 hrow2 hkk q hq hP hr2
    · obtain ⟨i, rfl⟩ := hstamp row1 hrow1
      rw [hp_eq q hq hi]
      exact hcommitted hI k2 row2 hkk hr2 hrow2

/-- **`check_index_uniqueness()`, for one index.** -/
lemma checkIndex_spec (hr : s₀.txnRows.lookup k = some r)
    (ha : s₀.rows.lookup k = some a) (hp : p ∈ (σ.table k.1).indexes.zipIdx) (hPk : ¬ P p.2 k) :
    Spec (fun s => Stamped s₀ s ∧ Filed σ c s₀ P s) (checkIndex k a p)
      (fun _ s => Stamped s₀ s ∧ Filed σ c s₀ (fun i x => P i x ∨ i = p.2 ∧ x = k) s)
      (IndexFailed σ c s₀) := by
  have hcols : p.1 ∈ (σ.table k.1).indexes := fst_mem_of_mem_zipIdx hp
  refine deref_reads.bind_such (T := fun _ => True) (fun s hs => ?_) fun row _ =>
    Spec.get_bind fun s hs => ?_
  · obtain ⟨row, hrow, -⟩ := hw.row hc ha
    obtain ⟨i, hi⟩ := hs.1.isSome a row hrow
    exact ⟨_, hi, trivial⟩
  obtain ⟨⟨hs, hfiled⟩, hrow⟩ := hs
  have hrowk : s.row k = some row := by rw [Db.row, hs.rows, ha]; exact hrow
  -- whatever equals the row in all columns is a duplicate
  have hdup : ∀ k' irow, k.1 = k'.1 → k ≠ k' → s.row k' = some irow →
      row.equalColumns irow p.1 = true → Duplicate σ s₀ := by
    intro k' irow hkk hne hirow heq
    obtain ⟨row0, i, hrow0, rfl⟩ := hs.row_cases hrowk
    obtain ⟨irow0, j, hirow0, rfl⟩ := hs.row_cases hirow
    exact ⟨k, k', row0, irow0, hne, hkk, hrow0, hirow0, p.1, hcols, heq⟩
  dsimp only
  split
  · next irow hsearch =>
    rintro _ rfl
    obtain ⟨⟨b, hb, hcell⟩, -, heq⟩ := indexSearch_some hsearch
    obtain ⟨k', hkk, hP, hb⟩ := (hfiled.mem k.1 ((hw.rows k).table r hr) p hp b).1 hb
    refine ⟨hs, _, rfl, fun _ => hdup k' irow hkk.symm ?_ ?_ heq⟩
    · rintro rfl
      exact hPk hP
    · rw [Db.row, hs.rows, hb]
      exact hcell
  · next hsearch =>
    split
    · next irow hsearch' =>
      refine Spec.throw fun s1 hs1 => ?_
      rw [hs1]
      rw [filter_eq_some_iff] at hsearch'
      obtain ⟨hsearch', hnone⟩ := hsearch'
      obtain ⟨⟨b, hb, hcell⟩, -, heq⟩ := indexSearch_some hsearch'
      refine ⟨hs, _, rfl, fun hI => ?_⟩
      rw [hs.indexes, hw.indexes, hI.mem k.1 p hp] at hb
      obtain ⟨k', hkk, hb⟩ := hb
      obtain ⟨irow', hirow', rfl⟩ := hc.row k' b hb
      rw [(hs.within hw).heap b (hc.cell_lt_next hb), hirow'] at hcell
      cases hcell
      rw [isNone_iff_eq_none, hs.txnRows] at hnone
      refine hdup irow.key irow hkk.symm ?_ ?_ heq
      · rintro rfl
        rw [hnone] at hr
        cases hr
      · rw [Db.row, hs.rows, (hw.rows _).untouched hnone, hb]
        show s.heap b = some irow
        rw [(hs.within hw).heap b (hc.cell_lt_next hb), hirow']
    · next hsearch' =>
      rintro _ rfl
      have hnew : IsNew s₀ a := ⟨k, r, hr, by rw [(hw.rows k).new r hr, ha]⟩
      refine ⟨hs.setRow hrow hnew _ _, hfiled.file hc hw hs hr ha hrow hp ?_ ?_⟩
      · intro k' row' hkk hP hrow' hclash
        obtain ⟨b, hb, hcell⟩ := bind_eq_some_iff.1 hrow'
        rw [hs.rows] at hb
        have hmem := (hfiled.mem k.1 ((hw.rows k).table r hr) p hp b).2 ⟨k', hkk.symm, hP, hb⟩
        refine indexSearch_none hsearch hmem hcell ?_ hclash.2
        rw [hfiled.hash k' row' hrow' p (hkk ▸ hp) hP, ← hclash.1]
      · intro hI k' row' hkk hr' hrow'
        exact hw.committed_of_search hc hs hI hp hsearch' hrow' hkk hr'

/-- `check_index_uniqueness()`, for one row. -/
lemma checkIndexUniqueness_spec {done : List (Key n)} (hk : k ∉ done)
    (hr : s₀.txnRows.lookup k = some r) :
    Spec (fun s => Stamped s₀ s ∧ Filed σ c s₀ (fun _ x => x ∈ done) s)
      (checkIndexUniqueness σ k)
      (fun _ s => Stamped s₀ s ∧ Filed σ c s₀ (fun _ x => x ∈ k :: done) s)
      (IndexFailed σ c s₀) := by
  refine txnRow_reads.bind_of (fun s hs => hs.1.txnRows ▸ hr) ?_
  refine Spec.ifSome (fun hnone s hs => ⟨hs.1, ?_⟩) fun a ha => ?_
  · -- a row that is deleted is in no index
    have hrows : s₀.rows.lookup k = none := by rw [← (hw.rows k).new r hr, hnone]
    refine hs.2.congr hs.1 fun x a hx p _ => ?_
    rw [mem_cons, or_iff_right]
    rintro rfl
    rw [hrows] at hx
    cases hx
  · have hrows : s₀.rows.lookup k = some a := by rw [← (hw.rows k).new r hr, ha]
    refine (Spec.each (fun pre s => Stamped s₀ s ∧
      Filed σ c s₀ (fun i x => x ∈ done ∨ x = k ∧ i < pre.length) s) ?_).conseq ?_ ?_
      (fun _ _ h => h)
    · intro pre p post hlist
      have hp : p ∈ (σ.table k.1).indexes.zipIdx := by rw [hlist]; simp
      have hi := zipIdx_split hlist
      have hPk : ¬ (k ∈ done ∨ k = k ∧ p.2 < pre.length) := by
        rintro (hmem | ⟨-, hlt⟩)
        · exact hk hmem
        · omega
      refine (checkIndex_spec hc hw hr hrows hp hPk).post fun _ s hs =>
        ⟨hs.1, hs.2.congr hs.1 fun x _ _ q _ => ?_⟩
      rw [length_append, length_singleton, Nat.lt_succ_iff_lt_or_eq, hi]
      tauto
    · rintro s ⟨hs, hfiled⟩
      exact ⟨hs, hfiled.congr hs fun x _ _ q _ => by simp⟩
    · rintro _ s ⟨hs, hfiled⟩
      refine ⟨hs, hfiled.congr hs fun x _ _ q hq => ?_⟩
      rw [mem_cons, or_comm, length_zipIdx]
      refine or_congr Iff.rfl ⟨fun hx => ⟨hx, ?_⟩, And.left⟩
      subst hx
      exact snd_lt_of_mem_zipIdx hq

/-- What the check establishes. -/
structure Checked (σ : Schema n) (c s₀ s : Db n) : Prop where
  stamped : Stamped s₀ s
  hash : ∀ k row, s.row k = some row → (∃ r, s₀.txnRows.lookup k = some r) →
    ∀ p ∈ (σ.table k.1).indexes.zipIdx, row.indexHash p.2 = row.hashColumns p.1 0
  unique : Indexes σ c → ∀ k k' row row', s₀.row k = some row → s₀.row k' = some row' →
    k.1 = k'.1 → ∀ p ∈ (σ.table k.1).indexes.zipIdx, Row.Clash p.1 row row' → k = k'

/-- **`check_index_uniqueness()`**: afterwards no two rows clash; and it fails only if two rows have
equal values for an index. -/
lemma forEach_checkIndexUniqueness
    (hfresh : ∀ t ∈ s₀.txnTables, ∀ i, s₀.txnIndexes t i = []) (order : ℕ → ℕ) :
    Spec (· = s₀) (forEachTxnRow order (checkIndexUniqueness σ))
      (fun _ s => ∃ s1, s = s1.dropEmptyTxnTables ∧ Checked σ c s₀ s1) (IndexFailed σ c s₀) := by
  refine forEachTxnRow_total (fun done s => Stamped s₀ s ∧
    Filed σ c s₀ (fun _ x => x ∈ done) s) ?_ ?_ ?_ ?_
  · refine ⟨.refl s₀, fun t ht p hp a => ?_, fun _ _ _ _ _ h => absurd h not_mem_nil,
      fun _ _ _ _ _ _ _ _ _ h => absurd h not_mem_nil,
      fun _ _ _ _ _ _ _ _ _ _ h => absurd h not_mem_nil⟩
    simp [hfresh t ht]
  · intro done s hs k r hr
    rw [hs.1.txnRows] at hr
    exact .inr (by simp [hr])
  · intro done s k r hs hr hk
    rw [hs.1.txnRows] at hr
    exact (checkIndexUniqueness_spec hc hw hk hr).pre fun s1 hs1 => hs1 ▸ hs
  · rintro done s ⟨hs, hfiled⟩ hall
    have hdone : ∀ k, (∃ r, s₀.txnRows.lookup k = some r) → k ∈ done := by
      rintro k ⟨r, hr⟩
      exact hall k r (by rw [hs.txnRows, hr])
    refine ⟨s, rfl, hs, fun k row hrow hr p hp => hfiled.hash k row hrow p hp (hdone k hr),
      fun hI k k' row row' hrow hrow' hkk p hp hclash => ?_⟩
    -- a row is in the transaction, and has been checked, or is the committed one
    cases hr : s₀.txnRows.lookup k with
    | some r =>
      have hk := hdone k ⟨r, hr⟩
      cases hr' : s₀.txnRows.lookup k' with
      | some r' =>
        exact hfiled.unique k k' row row' hrow hrow' hkk p hp hk (hdone k' ⟨r', hr'⟩) hclash
      | none =>
        exact absurd hclash (hfiled.committed hI k k' row row' hrow hrow' hkk p hp hk hr')
    | none =>
      cases hr' : s₀.txnRows.lookup k' with
      | some r' =>
        exact absurd hclash.symm (hfiled.committed hI k' k row' row hrow' hrow hkk.symm p
          (hkk ▸ hp) (hdone k' ⟨r', hr'⟩) hr)
      | none =>
        rw [hw.row_of_none hc hr] at hrow
        rw [hw.row_of_none hc hr'] at hrow'
        exact hI.unique k k' row row' hrow hrow' hkk p hp hclash

end

end Check

end Ovsdb

end OVS
