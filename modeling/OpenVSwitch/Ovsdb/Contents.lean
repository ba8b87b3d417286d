import OpenVSwitch.Lib.InDegree
import OpenVSwitch.Ovsdb.Within

/-!
# The contents of a database

What a database is to its clients: a finite map from keys to the columns of rows.  The references
of a row are read off its columns and the schema, and the references that the code counts
(`heldBy`) are the edges of a multigraph on the keys, whose in-degrees the counters should be.

`Db.contents` and `Db.refs` connect this to the state of the code: the contents and counters as
they are now, in the transaction or outside of it.  Pulling a row into the transaction changes
neither of them.
-/

namespace OVS

namespace Ovsdb

open Function

variable {n : ℕ} {a : ℕ}

/-- The columns of the rows of a database. -/
abbrev Contents (n : ℕ) := Key n → Option (ℕ → Datum)

section Refs

variable (σ : Schema n)

/-- The rows that a row refers to strongly. -/
def strongRefs (k : Key n) (data : ℕ → Datum) : List (Key n) :=
  (σ.table k.1).columns.flatMap fun col => col.strongRefs (data col.index)

/-- The rows that a row refers to weakly. -/
def weakRefs (k : Key n) (data : ℕ → Datum) : List (Key n) :=
  (σ.table k.1).columns.flatMap fun col => col.weakRefs (data col.index)

/-- The strong references that count: those to another UUID. -/
def countedRefs (k : Key n) (data : ℕ → Datum) : List (Key n) :=
  (strongRefs σ k data).filter fun x => x.2 ≠ k.2

/-- The references that count of the row with key `k`, if there is one. -/
def heldBy (V : Contents n) (k : Key n) : List (Key n) := (V k).elim [] (countedRefs σ k)

variable {σ} {V : Contents n} {k : Key n}

lemma heldBy_of_none (h : V k = none) : heldBy σ V k = [] := by
  rw [heldBy, h]
  rfl

lemma heldBy_of_some {data : ℕ → Datum} (h : V k = some data) :
    heldBy σ V k = countedRefs σ k data := by
  rw [heldBy, h]
  rfl

lemma heldBy_update (v : Option (ℕ → Datum)) : heldBy σ (update V k v) =
      update (heldBy σ V) k (v.elim [] (countedRefs σ k)) := by
  funext k'
  by_cases hk : k' = k
  · subst hk
    simp [heldBy]
  · simp [heldBy, update_of_ne hk]

end Refs

/-! ## What a state holds -/

namespace Db

/-- The current version of a row. -/
def row (s : Db n) (k : Key n) : Option (Row n) := (s.rows.lookup k).bind s.heap

/-- The current columns of the rows. -/
def contents (s : Db n) : Contents n := fun k => (s.row k).map Row.data

/-- The counter of a row, in the transaction or outside of it. -/
def refs (s : Db n) (k : Key n) : ℤ :=
  match s.txnRows.lookup k with
  | some r => r.nRefs
  | none => (s.row k).elim 0 Row.nRefs

variable {s : Db n} {k : Key n}

lemma refs_of_txnRow {r : TxnRow} (h : s.txnRows.lookup k = some r) : s.refs k = r.nRefs := by
  rw [refs, h]

lemma row_of_lookup (h : s.rows.lookup k = some a) : s.row k = s.heap a := by
  rw [row, h]
  rfl

lemma row_of_none (h : s.rows.lookup k = none) : s.row k = none := by
  rw [row, h]
  rfl

lemma contents_of_lookup {row : Row n} (h : s.rows.lookup k = some a) (hrow : s.heap a = some row) :
    s.contents k = some row.data := by
  rw [contents, row_of_lookup h, hrow]
  rfl

lemma contents_of_none (h : s.rows.lookup k = none) : s.contents k = none := by
  rw [contents, row_of_none h]
  rfl

lemma refs_putTxnRow {r : TxnRow} : (s.putTxnRow k r).refs = update s.refs k r.nRefs := by
  funext k'
  by_cases hk : k' = k
  · subst hk
    simp [refs]
  · simp [refs, row, hk]

end Db

variable {c s s' : Db n} {gen : ℕ → Uuid}

namespace Within

section

variable (hc : Committed c) {k k' : Key n}
include hc

lemma key_eq (h : Within c s) {row : Row n} (ha : s.rows.lookup k = some a)
    (hrow : s.heap a = some row) : row.key = k := by
  obtain ⟨row', hrow', rfl⟩ := h.row hc ha
  rw [hrow] at hrow'
  cases hrow'
  rfl

lemma key_of_row (h : Within c s) {row : Row n} (hrow : s.row k = some row) : row.key = k := by
  obtain ⟨a, ha, hcell⟩ := Option.bind_eq_some_iff.1 hrow
  exact h.key_eq hc ha hcell

/-- The rows of the tables are those with contents. -/
lemma contents_eq_none_iff (h : Within c s) (k : Key n) :
    s.contents k = none ↔ s.rows.lookup k = none := by
  cases ha : s.rows.lookup k with
  | none => simp [Db.contents_of_none ha]
  | some a =>
    obtain ⟨row, hrow, -⟩ := h.row hc ha
    simp [Db.contents_of_lookup ha hrow]

/-- Different rows are in different cells. -/
lemma cell_inj (h : Within c s) (ha : s.rows.lookup k = some a) (ha' : s.rows.lookup k' = some a) :
    k = k' := by
  obtain ⟨row, hrow, rfl⟩ := h.row hc ha
  exact h.key_eq hc ha' hrow

/-- A write to a row leaves the other rows alone. -/
lemma row_setRow_of_ne (h : Within c s) (row : Row n) (ha : s.rows.lookup k = some a)
    (hk : k' ≠ k) : (s.setRow a row).row k' = s.row k' := by
  show (s.rows.lookup k').bind (update s.heap a (some row)) =
    (s.rows.lookup k').bind s.heap
  cases hb : s.rows.lookup k' with
  | none => rfl
  | some b =>
    have hne : b ≠ a := by
      rintro rfl
      exact hk (h.cell_inj hc hb ha)
    exact update_of_ne hne _ _

/-- A new version of a row leaves the other rows alone. -/
lemma row_alloc_of_ne (h : Within c s) (row : Row n) (old : Option ℕ) (i : ℤ) (hk : k' ≠ k) :
    (((s.alloc row).txnRowCreate k old (some s.next) i).putRow k s.next).row k' = s.row k' := by
  have hother : ∀ b, s.rows.lookup k' = some b → b ≠ s.next := by
    rintro b hb rfl
    obtain ⟨row', hrow', -⟩ := h.row hc hb
    exact absurd (h.lt_next hrow') (lt_irrefl _)
  simp only [Db.row, Db.txnRowCreate, Db.putRow_rows, Db.putTxnRow_rows,
    Db.createTxnTable_rows, Db.alloc_rows, lookup_insert, if_neg hk]
  cases hb : s.rows.lookup k' with
  | none => rfl
  | some b =>
    show update s.heap s.next _ b = s.heap b
    rw [update_of_ne (hother b hb)]

omit hc in
lemma row_alloc_self (row : Row n) (old : Option ℕ) (i : ℤ) :
    (((s.alloc row).txnRowCreate k old (some s.next) i).putRow k s.next).row k = some row := by
  simp [Db.row]

/-- **Pulling a row into the transaction does not change its contents.** -/
lemma contents_cloneRow (h : Within c s) {row : Row n} (hrow : s.heap a = some row)
    (hrows : s.rows.lookup row.key = some a) : (cloneRow gen s a row).contents = s.contents := by
  funext k
  by_cases hk : k = row.key
  · rw [hk, Db.contents_of_lookup hrows hrow, Db.contents, cloneRow, row_alloc_self]
    rfl
  · rw [Db.contents, cloneRow, h.row_alloc_of_ne hc _ _ _ hk, Db.contents]

/-- **Nor its counter.** -/
lemma refs_cloneRow (h : Within c s) {row : Row n} (hrow : s.heap a = some row)
    (hrows : s.rows.lookup row.key = some a) (hr : s.txnRows.lookup row.key = none) :
    (cloneRow gen s a row).refs = s.refs := by
  funext k
  by_cases hk : k = row.key
  · rw [hk, Db.refs, Db.refs, hr, Db.row_of_lookup hrows, hrow]
    simp
  · have htxn : (cloneRow gen s a row).txnRows.lookup k = s.txnRows.lookup k := by
      simp [hk]
    rw [Db.refs, Db.refs, htxn, cloneRow, h.row_alloc_of_ne hc _ _ _ hk]

end

end Within

/-! ## Properties that survive pulling rows -/

variable {F : Db n → Prop} {keep : Prop}

/-- All these rows are in the transaction. -/
def HasTxnRows (T : Key n → Prop) (s : Db n) : Prop := ∀ k, T k → ∃ r, s.txnRows.lookup k = some r

/-- The row with key `k` is in the transaction, and its current version is in cell `a`. -/
def Linked (k : Key n) (a : Option ℕ) (s : Db n) : Prop :=
  s.rows.lookup k = a ∧ ∃ r, s.txnRows.lookup k = some r

section And

variable {G : Db n → Prop}
  (hclone : ∀ s a row, F s → G s → s.heap a = some row → s.rows.lookup row.key = some a →
    s.txnRows.lookup row.key = none → G (cloneRow gen s a row))
include hclone

/-- Another property that survives these steps, if the first one holds. -/
lemma Pullable.and (hF : Pullable gen c F) : Pullable gen c fun s => F s ∧ G s :=
  ⟨fun s h => hF.within s h.1, fun s a row h hrow hrows hr =>
    ⟨hF.clone s a row h.1 hrow hrows hr, hclone s a row h.1 h.2 hrow hrows hr⟩⟩

lemma Stable.and (hF : Stable gen c keep F)
    (hput : ∀ s k r r', G s → s.txnRows.lookup k = some r → r'.new = r.new → G (s.putTxnRow k r'))
    (hdrop : ∀ s, G s → G s.dropEmptyTxnTables) : Stable gen c keep fun s => F s ∧ G s :=
  ⟨hF.toPullable.and hclone, fun s k r r' h hr hold hnew hkeep =>
    ⟨hF.put s k r r' h.1 hr hold hnew hkeep, hput s k r r' h.2 hr hnew⟩,
    fun s h => ⟨hF.drop s h.1, hdrop s h.2⟩⟩

end And

lemma Pullable.and_hasTxnRows (hF : Pullable gen c F) (T : Key n → Prop) :
    Pullable gen c fun s => F s ∧ HasTxnRows T s :=
  hF.and fun _ _ _ _ h _ _ _ k hk => exists_putTxnRow (h k hk) _

lemma Stable.and_hasTxnRows (hF : Stable gen c keep F) (T : Key n → Prop) :
    Stable gen c keep fun s => F s ∧ HasTxnRows T s :=
  hF.and (fun _ _ _ _ h _ _ _ k hk => exists_putTxnRow (h k hk) _)
    (fun _ _ _ r' h _ _ k hk => exists_putTxnRow (h k hk) r') fun _ h => h

lemma Stable.and_linked (hF : Stable gen c keep F) (k : Key n) (a : Option ℕ) :
    Stable gen c keep fun s => F s ∧ Linked k a s := by
  refine hF.and (fun s b row _ h _ _ hr => ?_)
    (fun _ _ _ r' h _ _ => ⟨h.1, exists_putTxnRow h.2 r'⟩) fun _ h => h
  refine ⟨?_, exists_putTxnRow h.2 _⟩
  simpa [ne_of_txnRow h.2 hr] using h.1

lemma Stable.and_contents (hc : Committed c) (hF : Stable gen c keep F) (V : Contents n) :
    Stable gen c keep fun s => F s ∧ s.contents = V :=
  hF.and (fun s _ _ hs h hrow hrows _ => ((hF.within s hs).contents_cloneRow hc hrow hrows).trans h)
    (fun _ _ _ _ h _ _ => h) fun _ h => h

/-- No row appears that there was no trace of. -/
lemma Stable.and_has (hF : Stable gen c keep F) (K : Key n → Prop) :
    Stable gen c keep fun s => F s ∧ ∀ k, s.Has k → K k := by
  refine hF.and (fun s a row _ h _ hrows _ k hk => h k ?_)
    (fun s k r r' h hr _ k' hk' => h k' ?_) fun _ h => h
  · by_cases hkey : k = row.key
    · left
      rw [hkey, hrows]
      simp
    · simpa [Db.Has, hkey] using hk
  · by_cases hkey : k' = k
    · right
      rw [hkey, hr]
      simp
    · simpa [Db.Has, hkey] using hk'

end Ovsdb

end OVS
