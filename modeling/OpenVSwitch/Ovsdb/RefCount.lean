import Mathlib.Tactic.Ring
import OpenVSwitch.Ovsdb.Contents

/-!
# Reference counters

`update_ref_counts()`: the counters are adjusted row by row and column by column, against rows
that get pulled into the transaction on the way.  Whatever the order, the counters end up
different from before by the difference of the in-degrees (`updateRefCounts_spec`); and what
`check_ref_count()` adds is that nothing refers to a row that does not exist.
-/

namespace OVS

namespace Ovsdb

open List Prog Db

variable {n : ℕ} {c s s' : Db n} {gen : ℕ → Uuid} {F : Db n → Prop} {s : Db n} {atoms : List Atom}

/-! ## Adjusting counters -/

/-- The rows whose counter `ovsdb_txn_adjust_atom_refs()` adjusts: self-references are skipped. -/
def atomRefs (refTable : Option (Fin n)) (own : Uuid) (atoms : List Atom) : List (Key n) :=
  (refKeys refTable atoms).filter fun k => k.2 ≠ own

/-- The counters after an adjustment. -/
def adjusted (ρ : Key n → ℤ) (targets : List (Key n)) (delta : ℤ) (k : Key n) : ℤ :=
  ρ k + delta * targets.count k

variable (ρ : Key n → ℤ) {delta : ℤ} {base : BaseType n}

lemma adjusted_append_singleton (targets : List (Key n)) (x : Key n) :
    adjusted ρ (targets ++ [x]) delta =
      Function.update (adjusted ρ targets delta) x (adjusted ρ targets delta x + delta) := by
  funext k
  by_cases hk : k = x
  · subst hk
    simp [adjusted, mul_add, add_assoc]
  · simp [adjusted, Function.update_of_ne hk, Ne.symm hk]

lemma adjusted_append (l l' : List (Key n)) :
    adjusted (adjusted ρ l delta) l' delta = adjusted ρ (l ++ l') delta := by
  funext k
  simp only [adjusted, count_append, Nat.cast_add]
  ring

lemma adjusted_comm (l l' : List (Key n)) (i j : ℤ) :
    adjusted (adjusted ρ l i) l' j = adjusted (adjusted ρ l' j) l i := by
  funext k
  simp only [adjusted]
  ring

@[simp] lemma adjusted_nil : adjusted ρ [] delta = ρ := by
  funext k
  simp [adjusted]

/-- The loop over the atoms of a strong reference runs over the references that count. -/
lemma eachRef_eq (row : Row n) (body : Key n → Code n Unit) :
    eachRef row base atoms body = Prog.each body (atomRefs base.strongRef row.uuid atoms) := by
  unfold eachRef
  cases base.strongRef with
  | none => rfl
  | some t =>
    dsimp only
    induction atoms with
    | nil => rfl
    | cons atom atoms ih =>
      rw [Prog.each, ih]
      by_cases h : atom.asUuid = row.uuid
      · simp [atomRefs, refKeys, h]
        rfl
      · simp [atomRefs, refKeys, h, Prog.each]

/-- How adjusting counters fails: a row that is referred to does not exist. -/
def RefsMissing (F : Db n → Prop) (targets : List (Key n)) (st : Stop n) (s : Db n) : Prop :=
  F s ∧ ∃ e, st = .error e ∧ ∃ x ∈ targets, ¬ s.Has x

lemma RefsMissing.imp {F' : Db n → Prop} {l l' : List (Key n)} {st : Stop n}
    (h : RefsMissing F l st s) (hF : F s → F' s) (hl : ∀ x ∈ l, x ∈ l') :
    RefsMissing F' l' st s := by
  obtain ⟨hFs, e, he, x, hx, hnone⟩ := h
  exact ⟨hF hFs, e, he, x, hl x hx, hnone⟩

/-- **`ovsdb_txn_adjust_atom_refs()`** adds `delta` for every reference that counts, and fails only
if one of the rows does not exist. -/
lemma adjustAtomRefs_spec (hc : Committed c) (hF : Stable gen c False F) (row : Row n) (column : ℕ)
    (delta : ℤ) (ρ : Key n → ℤ) :
    Spec (fun s => F s ∧ s.refs = ρ) (adjustAtomRefs gen row column base atoms delta)
      (fun _ s => F s ∧ s.refs = adjusted ρ (atomRefs base.strongRef row.uuid atoms) delta)
      (RefsMissing F (atomRefs base.strongRef row.uuid atoms)) := by
  rw [adjustAtomRefs, eachRef_eq]
  refine (Spec.each (fun pre s => F s ∧ s.refs = adjusted ρ pre delta) ?_).pre fun s hs => ?_
  · intro pre x post hatoms
    refine Spec.bind (findOrMakeTxnRow_spec hc (hF.toPullable.and fun s _ _ hs h hrow hrows hr =>
      ((hF.within s hs).refs_cloneRow hc hrow hrows hr).trans h)) fun found =>
      Spec.ite (fun hfound => ?_) fun hfound => ?_
    · refine txnRow_reads.bind_exists (fun s hs => ?_) fun r => Spec.modify fun s hs => ?_
      · rw [if_pos hfound] at hs
        exact hs.2
      · obtain ⟨⟨⟨hFs, hrefs⟩, -⟩, hr⟩ := hs
        refine ⟨hF.put s x r _ hFs hr rfl rfl False.elim, ?_⟩
        rw [refs_putTxnRow, adjusted_append_singleton, ← hrefs, refs_of_txnRow hr]
    · refine Spec.throw fun s hs => ?_
      rw [if_neg hfound] at hs
      exact ⟨hs.1.1, _, rfl, x, by simp [hatoms], by simp [Db.Has, hs.2.1, hs.2.2]⟩
  · rw [adjusted_nil]
    exact hs

/-- The rows whose counters a column of a row adds to. -/
def Row.columnRefs (row : Row n) (col : Column n) : List (Key n) :=
  atomRefs col.type.key.strongRef row.uuid (row.field col.index).keys ++
    atomRefs col.type.value.strongRef row.uuid (row.field col.index).values

/-- `ovsdb_txn_adjust_row_refs()`. -/
lemma adjustRowRefs_spec (hc : Committed c) (hF : Stable gen c False F) (row : Row n)
    (col : Column n) (delta : ℤ) (ρ : Key n → ℤ) :
    Spec (fun s => F s ∧ s.refs = ρ) (adjustRowRefs gen row col delta)
      (fun _ s => F s ∧ s.refs = adjusted ρ (row.columnRefs col) delta)
      (RefsMissing F (row.columnRefs col)) := by
  refine Spec.bind ((adjustAtomRefs_spec hc hF row _ delta ρ).conseq (fun _ hs => hs)
    (fun _ _ hs => hs) ?_) fun _ => (adjustAtomRefs_spec hc hF row _ delta _).conseq
      (fun _ hs => hs) ?_ ?_
  · exact fun st s hs => hs.imp id fun x hx => mem_append_left _ hx
  · rintro - s ⟨hFs, hrefs⟩
    exact ⟨hFs, by rw [hrefs, adjusted_append]; rfl⟩
  · exact fun st s hs => hs.imp id fun x hx => mem_append_right _ hx

/-- Wrapping errors. -/
lemma wrapBug_spec {P : Db n → Prop} {m : Code n Unit} {Q : Unit → Db n → Prop}
    {E E' : Stop n → Db n → Prop} (h : Spec P m Q E)
    (herror : ∀ e s, E (.error e) s → E' (.error (.bug e)) s)
    (hcrash : ∀ s, E .crash s → E' .crash s) : Spec P (wrapBug m) Q E' := by
  intro s hs
  have hout := h s hs
  unfold wrapBug
  cases hm : m s with
  | mk r s' =>
    rw [hm] at hout
    cases r with
    | ok a => exact hout
    | error st =>
      cases st with
      | error e => exact herror e s' hout
      | crash => exact hcrash s' hout

/-! ## A row of the transaction -/

/-- The references that count in a column of a row, if the row exists. -/
def heldInColumn (k : Key n) (v : Option (ℕ → Datum)) (col : Column n) : List (Key n) :=
  v.elim [] fun data => (col.strongRefs (data col.index)).filter fun x => x.2 ≠ k.2

section Row

variable {σ : Schema n} {k : Key n}

lemma heldBy_eq_flatMap (V : Contents n) :
    heldBy σ V k = (σ.table k.1).columns.flatMap (heldInColumn k (V k)) := by
  unfold heldBy
  cases V k with
  | none => simp [heldInColumn]
  | some data =>
    show countedRefs σ k data = _
    rw [countedRefs, strongRefs, filter_flatMap]
    rfl

/-- `_uuid` and `_version` hold no references, so that all references are in `data`. -/
lemma Row.columnRefs_eq (row : Row n) {col : Column n}
    (hcol : col ∈ (σ.table row.table).columns) :
    row.columnRefs col = heldInColumn row.key (some row.data) col := by
  by_cases hstd : col.index = colUuid ∨ col.index = colVersion
  · obtain ⟨hkey, hvalue⟩ := (σ.table row.table).standard col hcol hstd
    simp [columnRefs, heldInColumn, Column.strongRefs, atomRefs, hkey, hvalue]
  · have hfield : row.field col.index = row.data col.index := by
      rw [not_or] at hstd
      rw [Row.field, if_neg hstd.1, if_neg hstd.2]
    rw [columnRefs, hfield]
    exact (filter_append ..).symm

/-- One version of a row, in one column. -/
lemma adjustVersion_spec (hc : Committed c) (hF : Stable gen c False F) {col : Column n}
    (hcol : col ∈ (σ.table k.1).columns) {a : Option ℕ} {v : Option (ℕ → Datum)}
    (hnone : a = none → v = none)
    (hsome : ∀ s b, F s → a = some b → ∃ row, s.heap b = some row ∧ row.key = k ∧
      v = some row.data) (delta : ℤ) (wrap : Code n Unit → Code n Unit)
    (hwrap : ∀ P m Q, Spec P m Q (RefsMissing F (heldInColumn k v col)) →
      Spec P (wrap m) Q (RefsMissing F (heldInColumn k v col))) (ρ : Key n → ℤ) :
    Spec (fun s => F s ∧ s.refs = ρ)
      (Prog.ifSome a fun b => do
        let row ← deref b
        wrap (adjustRowRefs gen row col delta))
      (fun _ s => F s ∧ s.refs = adjusted ρ (heldInColumn k v col) delta)
      (RefsMissing F (heldInColumn k v col)) := by
  refine Spec.ifSome (fun ha s hs => ?_) fun b hb => ?_
  · rw [hnone ha]
    exact ⟨hs.1, by simp [heldInColumn, hs.2]⟩
  · refine deref_reads.bind_such (fun s hs => hsome s b hs.1 hb) fun row hrow =>
      Spec.intro fun s hs => ?_
    · obtain ⟨hs, -⟩ := hs
      obtain ⟨rfl, hv⟩ := hrow
      have heq := row.columnRefs_eq hcol
      rw [← hv] at heq
      rw [← heq] at hwrap ⊢
      refine (hwrap _ _ _ (adjustRowRefs_spec hc hF row col delta ρ)).pre ?_
      rintro _ rfl
      exact hs

/-- **`update_row_ref_count()`** takes back the references of the committed version of a row and
adds those of the new one. -/
lemma updateRowRefCount_spec (hc : Committed c) (hF : Stable gen c False F) (k : Key n)
    (V : Contents n) (ρ : Key n → ℤ) :
    Spec
      (fun s => (F s ∧ s.contents = V) ∧ s.refs = ρ ∧ ∃ r, s.txnRows.lookup k = some r)
      (updateRowRefCount σ gen k)
      (fun _ s => (F s ∧ s.contents = V) ∧
        s.refs = adjusted (adjusted ρ (heldBy σ c.contents k) (-1)) (heldBy σ V k) 1)
      (RefsMissing (fun s => F s ∧ s.contents = V)
        (heldBy σ c.contents k ++ heldBy σ V k)) := by
  refine txnRow_reads.bind_exists (fun s hs => hs.2.2) fun r => Spec.intro fun s0 hs0 => ?_
  obtain ⟨⟨⟨hFs0, hV⟩, hrefs, -⟩, hr⟩ := hs0
  have hrow := (hF.within s0 hFs0).rows k
  have hF' := (hF.and_contents hc V).and_linked k r.new
  -- both versions stay where they are, with the same columns
  have hold : ∀ s b, ((F s ∧ s.contents = V) ∧ Linked k r.new s) → r.old = some b →
      ∃ row, s.heap b = some row ∧ row.key = k ∧ c.contents k = some row.data := by
    intro s b hs hb
    rw [hrow.old r hr] at hb
    obtain ⟨row, hrow', hkey⟩ := hc.row k b hb
    refine ⟨row, ?_, hkey, contents_of_lookup hb hrow'⟩
    rw [(hF.within s hs.1.1).heap b (hc.lt_next hrow'), hrow']
  have hnew : ∀ s b, ((F s ∧ s.contents = V) ∧ Linked k r.new s) → r.new = some b →
      ∃ row, s.heap b = some row ∧ row.key = k ∧ V k = some row.data := by
    intro s b hs hb
    have hlookup := hs.2.1.trans hb
    obtain ⟨row, hrow', hkey⟩ := (hF.within s hs.1.1).row hc hlookup
    exact ⟨row, hrow', hkey, hs.1.2 ▸ contents_of_lookup hlookup hrow'⟩
  have hold_none : r.old = none → c.contents k = none := fun hnone =>
    contents_of_none (by rw [← hrow.old r hr, hnone])
  have hnew_none : r.new = none → V k = none := fun hnone =>
    hV ▸ contents_of_none (by rw [← hrow.new r hr, hnone])
  simp only [heldBy_eq_flatMap]
  set U := c.contents k
  refine (Spec.each (fun pre s => ((F s ∧ s.contents = V) ∧ Linked k r.new s) ∧
    s.refs = adjusted (adjusted ρ (pre.flatMap (heldInColumn k U)) (-1))
      (pre.flatMap (heldInColumn k (V k))) 1) ?_).conseq ?_ ?_ (fun _ _ h => h)
  · intro pre col post hcols
    have hcol : col ∈ (σ.table k.1).columns := by simp [hcols]
    have hsub : ∀ x, x ∈ heldInColumn k U col ∨ x ∈ heldInColumn k (V k) col →
        x ∈ (σ.table k.1).columns.flatMap (heldInColumn k U) ++
          (σ.table k.1).columns.flatMap (heldInColumn k (V k)) := by
      intro x hx
      rw [mem_append, mem_flatMap, mem_flatMap]
      exact hx.imp (fun h => ⟨col, hcol, h⟩) fun h => ⟨col, hcol, h⟩
    refine Spec.bind ((adjustVersion_spec hc hF' hcol hold_none hold (-1) wrapBug ?_
      _).conseq (fun _ hs => hs) (fun _ _ hs => hs) ?_) fun _ =>
      (adjustVersion_spec hc hF' hcol hnew_none hnew 1 id (fun _ _ _ h => h) _).conseq
        (fun _ hs => hs) ?_ ?_
    · exact fun _ _ _ h => wrapBug_spec h
        (fun e s hs => ⟨hs.1, .bug e, rfl, hs.2.choose_spec.2⟩)
        fun s hs => by obtain ⟨-, e, he, -⟩ := hs; cases he
    · exact fun st s hs => hs.imp And.left fun x hx => hsub x (.inl hx)
    · rintro - s ⟨hs, hrefs⟩
      simp only [flatMap_append, flatMap_singleton]
      refine ⟨hs, ?_⟩
      rw [hrefs, adjusted_comm _ (pre.flatMap (heldInColumn k (V k))), adjusted_append,
        adjusted_append]
    · exact fun st s hs => hs.imp And.left fun x hx => hsub x (.inr hx)
  · rintro s rfl
    simp only [flatMap_nil, adjusted_nil]
    exact ⟨⟨⟨hFs0, hV⟩, (hrow.new r hr).symm, r, hr⟩, hrefs⟩
  · exact fun _ s hs => ⟨hs.1.1, hs.2⟩

/-! ## All rows of the transaction -/

/-- The rows in `done` have their new columns, the others still those of `U`. -/
def mixed (done : List (Key n)) (V U : Contents n) : Contents n :=
  fun k => if k ∈ done then V k else U k

lemma mixed_cons (done : List (Key n)) (V U : Contents n) :
    mixed (k :: done) V U = Function.update (mixed done V U) k (V k) := by
  funext x
  by_cases hx : x = k
  · simp [mixed, hx]
  · simp [mixed, hx]

/-- A row that is not in the transaction is the committed one. -/
lemma Within.row_of_none (hc : Committed c) (h : Within c s) (hr : s.txnRows.lookup k = none) :
    s.row k = c.row k := by
  have hrows := (h.rows k).untouched hr
  cases ha : c.rows.lookup k with
  | none => rw [Db.row_of_none ha, Db.row_of_none (hrows.trans ha)]
  | some a =>
    obtain ⟨row, hrow, -⟩ := hc.row k a ha
    rw [row_of_lookup ha, row_of_lookup (hrows.trans ha), h.heap a (hc.lt_next hrow)]

lemma Within.contents_of_none (hc : Committed c) (h : Within c s) (hr : s.txnRows.lookup k = none) :
    s.contents k = c.contents k := by
  rw [contents, h.row_of_none hc hr, contents]

/-- A committed row leaves a trace. -/
lemma Within.has_of_lookup (h : Within c s) {a : ℕ} (ha : c.rows.lookup k = some a) : s.Has k := by
  cases hr : s.txnRows.lookup k with
  | none =>
    left
    rw [(h.rows k).untouched hr, ha]
    simp
  | some r =>
    right
    simp [hr]

/-- The references that count lead to rows. -/
def Resolved (σ : Schema n) (V : Contents n) : Prop := ∀ k, ∀ x ∈ heldBy σ V k, V x ≠ none

/-- The counters after `update_row_ref_count()` has been called for all rows. -/
def Recounted (σ : Schema n) (c s : Db n) (K : Finset (Key n)) (V : Contents n) : Prop :=
  ∀ x, s.refs x = c.refs x - inDegree K (heldBy σ c.contents) x + inDegree K (heldBy σ V) x

variable {s0 : Db n} {K : Finset (Key n)}

/-- **The first loop of `update_ref_counts()`.** -/
lemma forEach_updateRowRefCount (hc : Committed c) (hF : Stable gen c False F) (hs0 : F s0)
    (hK : ∀ k, s0.Has k → k ∈ K) (hrefs : s0.refs = c.refs) (order : ℕ → ℕ) :
    Spec (· = s0) (forEachTxnRow order (updateRowRefCount σ gen))
      (fun _ s => (F s ∧ ∀ k, s.Has k → s0.Has k) ∧ s.contents = s0.contents ∧
        Recounted σ c s K s0.contents)
      (fun st s => F s ∧ ∃ e, st = .error e ∧
        ¬ (Resolved σ c.contents ∧ Resolved σ s0.contents)) := by
  have hF' := hF.and_has s0.Has
  refine forEachTxnRow_total (fun done s => ((F s ∧ ∀ k, s.Has k → s0.Has k) ∧
    s.contents = s0.contents) ∧ Recounted σ c s K (mixed done s0.contents c.contents)) ?_ ?_ ?_ ?_
  · refine ⟨⟨⟨hs0, fun _ h => h⟩, rfl⟩, fun x => ?_⟩
    have hmixed : mixed [] s0.contents c.contents = c.contents := by
      funext k
      simp [mixed]
    rw [hmixed, hrefs]
    ring
  · intro done s hs k r hr
    exact hs.1.1.2 k (.inr (by simp [hr]))
  · rintro done s1 k r ⟨hs, hrefs1⟩ hr hk
    have hkK : k ∈ K := hK k (hs.1.2 k (.inr (by simp [hr])))
    refine (updateRowRefCount_spec hc hF' k s0.contents s1.refs).conseq ?_ ?_ ?_
    · rintro _ rfl
      exact ⟨hs, rfl, r, hr⟩
    · rintro - s ⟨hs', hrefs'⟩
      refine ⟨hs', fun x => ?_⟩
      have hself : heldBy σ (mixed done s0.contents c.contents) k = heldBy σ c.contents k := by
        simp [heldBy, mixed, hk]
      rw [hrefs', mixed_cons, heldBy_update, inDegree_update hkK, hself]
      simp only [adjusted, hrefs1 x, heldBy]
      ring
    · rintro st s ⟨hs', e, he, x, hx, hnone⟩
      refine ⟨hs'.1.1, e, he, fun hres => ?_⟩
      have hw := hF.within s hs'.1.1
      rcases mem_append.1 hx with hx | hx
      · have hne := hres.1 k x hx
        rw [Ne, (Within.refl hc).contents_eq_none_iff hc] at hne
        obtain ⟨a, ha⟩ := Option.ne_none_iff_exists'.1 hne
        exact hnone (hw.has_of_lookup ha)
      · have hne := hres.2 k x hx
        rw [Ne, ← hs'.2, hw.contents_eq_none_iff hc] at hne
        exact hnone (.inl hne)
  · rintro done s ⟨⟨hs, hV⟩, hrefs'⟩ hall
    refine ⟨⟨hF.drop s hs.1, hs.2⟩, hV, ?_⟩
    have hmixed : mixed done s0.contents c.contents = s0.contents := by
      funext k
      by_cases hk : k ∈ done
      · simp [mixed, hk]
      · have hnone : s.txnRows.lookup k = none := by
          by_contra hne
          obtain ⟨r, hr⟩ := Option.ne_none_iff_exists'.1 hne
          exact hk (hall k r hr)
        simp only [mixed, if_neg hk]
        rw [← hV, (hF.within s hs.1).contents_of_none hc hnone]
    rw [hmixed] at hrefs'
    exact hrefs'

/-- **The second loop of `update_ref_counts()`** only looks: no row that has been deleted is
referred to. -/
lemma forEach_checkRefCount (order : ℕ → ℕ) :
    Spec (· = s0) (forEachTxnRow order checkRefCount)
      (fun _ s => s = s0.dropEmptyTxnTables ∧
        ∀ k r, s0.txnRows.lookup k = some r → r.new = none → r.nRefs = 0)
      (fun st s => s = s0 ∧ ∃ e, st = .error e ∧
        ∃ k r, s0.txnRows.lookup k = some r ∧ r.new = none ∧ r.nRefs ≠ 0) := by
  refine forEachTxnRow_total (fun done s => s = s0 ∧ ∀ k ∈ done, ∀ r,
    s0.txnRows.lookup k = some r → r.new = none → r.nRefs = 0) ⟨rfl, by simp⟩ ?_ ?_ ?_
  · rintro done s ⟨rfl, -⟩ k r hr
    exact .inr (by simp [hr])
  · rintro done s k r ⟨rfl, hdone⟩ hr hk
    refine txnRow_reads.bind_of (fun s' hs => hs ▸ hr) (Spec.ite (fun h => ?_) fun h => ?_)
    · rintro _ rfl
      refine ⟨rfl, fun k' hk' r' hr' hnew => ?_⟩
      rcases mem_cons.1 hk' with rfl | hk'
      · rw [hr] at hr'
        cases hr'
        simpa [hnew] using h
      · exact hdone k' hk' r' hr' hnew
    · rintro _ rfl
      rw [not_or, Option.not_isSome_iff_eq_none] at h
      exact ⟨rfl, _, rfl, k, r, hr, h⟩
  · rintro done s ⟨rfl, hdone⟩ hall
    exact ⟨rfl, fun k r hr => hdone k (hall k r hr) r hr⟩

/-- All counters are the numbers of references that count, and these lead to rows. -/
structure Accounted (σ : Schema n) (s : Db n) : Prop where
  refs : ∀ x, s.refs x = inDegree s.rows.keys.toFinset (heldBy σ s.contents) x
  resolved : Resolved σ s.contents

lemma inDegree_keys (hK : ∀ k, s.rows.lookup k ≠ none → k ∈ K) (x : Key n) :
    inDegree s.rows.keys.toFinset (heldBy σ s.contents) x =
      inDegree K (heldBy σ s.contents) x := by
  have hmem : ∀ k, k ∈ s.rows.keys.toFinset ↔ s.rows.lookup k ≠ none := fun k => by
    rw [mem_toFinset, mem_keys_iff, Option.ne_none_iff_exists']
  refine Finset.sum_subset (fun k hk => hK k ((hmem k).1 hk)) fun k _ hk => ?_
  rw [heldBy_of_none (contents_of_none (not_not.1 fun hne => hk ((hmem k).2 hne)))]
  rfl

lemma Accounted.refs_eq (h : Accounted σ s) (hK : ∀ k, s.rows.lookup k ≠ none → k ∈ K) (x : Key n) :
    s.refs x = inDegree K (heldBy σ s.contents) x := by
  rw [h.refs x, inDegree_keys hK]

/-- Counters that count the references and are zero for rows that do not exist. -/
lemma Accounted.of_refs (hK : ∀ k, s.rows.lookup k ≠ none → k ∈ K)
    (hrefs : ∀ x, s.refs x = inDegree K (heldBy σ s.contents) x)
    (hexist : ∀ x, s.refs x ≠ 0 → s.contents x ≠ none) : Accounted σ s := by
  refine ⟨fun x => (hrefs x).trans (inDegree_keys hK x).symm, fun k x hx => hexist x ?_⟩
  have hlive : s.rows.lookup k ≠ none := by
    intro hnone
    rw [heldBy_of_none (contents_of_none hnone)] at hx
    cases hx
  rw [hrefs x]
  exact (inDegree_pos_iff.2 ⟨k, hK k hlive, hx⟩).ne'

lemma Accounted.exist (h : Accounted σ s) {x : Key n} (hx : s.refs x ≠ 0) :
    s.contents x ≠ none := by
  rw [h.refs x] at hx
  obtain ⟨k, -, hk⟩ := inDegree_pos_iff.1 (lt_of_le_of_ne inDegree_nonneg hx.symm)
  exact h.resolved k x hk

/-- **`update_ref_counts()`** adjusts the counters to the contents, and fails only if the contents
or the committed database are at fault. -/
lemma updateRefCounts_spec (hc : Committed c) (hF : Stable gen c False F) (hs0 : F s0)
    (hK : ∀ k, s0.Has k → k ∈ K) (hrefs : s0.refs = c.refs) (order : ℕ → ℕ → ℕ) :
    Spec (· = s0) (updateRefCounts σ gen order)
      (fun _ s => (F s ∧ ∀ k, s.Has k → s0.Has k) ∧ s.contents = s0.contents ∧
        Recounted σ c s K s0.contents ∧
        ∀ k r, s.txnRows.lookup k = some r → r.new = none → r.nRefs = 0)
      (fun st s => F s ∧ ∃ e, st = .error e ∧
        ¬ (Accounted σ c ∧ Resolved σ s0.contents)) := by
  refine Spec.bind ((forEach_updateRowRefCount hc hF hs0 hK hrefs (order 1)).conseq
    (fun _ hs => hs) (fun _ _ hs => hs) ?_) fun _ => Spec.intro fun s1 hs1 => ?_
  · rintro st s ⟨hs, e, he, hnot⟩
    exact ⟨hs, e, he, fun h => hnot ⟨h.1.resolved, h.2⟩⟩
  obtain ⟨⟨hFs, hHas⟩, hV, hcount⟩ := hs1
  refine (forEach_checkRefCount (order 2)).conseq (fun _ hs => hs) ?_ ?_
  · rintro - s ⟨rfl, hdeleted⟩
    exact ⟨⟨hF.drop s1 hFs, hHas⟩, hV, hcount, hdeleted⟩
  · rintro st s ⟨rfl, e, he, k, r, hr, hnew, hne⟩
    refine ⟨hFs, e, he, fun ⟨hacc, hres⟩ => ?_⟩
    have hw := hF.within s hFs
    have hkeys : ∀ k, c.rows.lookup k ≠ none → k ∈ K := fun k hk => by
      obtain ⟨a, ha⟩ := Option.ne_none_iff_exists'.1 hk
      exact hK k (hHas k (hw.has_of_lookup ha))
    have hpos : 0 < inDegree K (heldBy σ s0.contents) k := by
      have hk := hcount k
      rw [hacc.refs_eq hkeys, refs_of_txnRow hr] at hk
      have hnonneg : 0 ≤ inDegree K (heldBy σ s0.contents) k := inDegree_nonneg
      omega
    obtain ⟨k', -, hk'⟩ := inDegree_pos_iff.1 hpos
    refine hres k' k hk' ?_
    rw [← hV]
    exact contents_of_none (by rw [← (hw.rows k).new r hr, hnew])

end Row

end Ovsdb

end OVS
