import OpenVSwitch.Ovsdb.RefCount

/-!
# Garbage collection

`collect_garbage()` and its recursion `delete_garbage_row()`.

**The abstract step.**  `Pending σ K L D V ρ` relates counters `ρ` to contents `V` while rows are
being deleted: the references in `L` belong to rows that are gone but are still counted.  Deleting
a row moves its references into `L` (`Pending.remove`); every decrement takes one out of `L`
(`Pending.decrement`).  The rows in `D` are clean: they are roots, or something refers to them.

**The recursion.**  A nested call works on a state in which callers have taken rows out of their
tables but not yet destroyed them.  What it must leave alone is an arbitrary `Collectable`
property, so that each caller can add its own row to it.

The hypothesis `H` of the specifications stands for "the counters are right".  With `H` the
collector cannot fail; without it, it may fail, but the state stays one of the transaction.
-/

namespace OVS

namespace Ovsdb

open List Function Prog Db

variable {n : ℕ} {c s s' : Db n} {gen : ℕ → Uuid} {F : Db n → Prop} {σ : Schema n}
  {K : Finset (Key n)} {a : ℕ} {k : Key n} {r : TxnRow}

/-- The counters `ρ` still count the references `L` of rows that are not in `V` any more. -/
structure Pending (σ : Schema n) (K : Finset (Key n)) (L : List (Key n)) (D : Key n → Prop)
    (V : Contents n) (ρ : Key n → ℤ) : Prop where
  refs : ∀ x, ρ x = inDegree K (heldBy σ V) x + L.count x
  exist : ∀ x, ρ x ≠ 0 → V x ≠ none
  clean : ∀ x, D x → (σ.table x.1).isRoot = false → V x ≠ none → ρ x ≠ 0

namespace Pending

variable {L : List (Key n)} {D D' : Key n → Prop} {V : Contents n} {ρ : Key n → ℤ} {k x : Key n}

lemma mono (h : Pending σ K L D V ρ) (hD : ∀ x, D' x → D x) : Pending σ K L D' V ρ :=
  ⟨h.refs, h.exist, fun x hx => h.clean x (hD x hx)⟩

/-- A row that is referred to has a positive counter. -/
lemma pos (h : Pending σ K (x :: L) D V ρ) : 0 < ρ x := by
  have hnonneg : 0 ≤ inDegree K (heldBy σ V) x := inDegree_nonneg
  have hrefs := h.refs x
  rw [count_cons_self] at hrefs
  omega

/-- A row without references is deleted. -/
lemma remove (h : Pending σ K L (fun x => D x ∧ x ≠ k) V ρ) (hk : k ∈ K) (hzero : ρ k = 0) :
    Pending σ K (heldBy σ V k ++ L) (fun x => D x ∨ x = k) (update V k none) ρ := by
  refine ⟨fun x => ?_, fun x hx => ?_, fun x hD hroot hV => ?_⟩
  · rw [h.refs x, heldBy_update, inDegree_update hk]
    simp
    ring
  · have hne : x ≠ k := by
      rintro rfl
      exact hx hzero
    rw [update_of_ne hne]
    exact h.exist x hx
  · have hne : x ≠ k := by
      rintro rfl
      simp at hV
    rw [update_of_ne hne] at hV
    exact h.clean x ⟨hD.resolve_right hne, hne⟩ hroot hV

/-- A reference of a deleted row is taken back. -/
lemma decrement (h : Pending σ K (x :: L) D V ρ) :
    Pending σ K L (fun y => D y ∧ y ≠ x) V (update ρ x (ρ x - 1)) := by
  refine ⟨fun y => ?_, fun y hy => ?_, fun y hD hroot hV => ?_⟩
  · have hrefs := h.refs y
    by_cases hyx : y = x
    · subst hyx
      rw [count_cons_self] at hrefs
      rw [update_self]
      omega
    · rw [update_of_ne hyx, hrefs, count_cons_of_ne (Ne.symm hyx)]
  · by_cases hyx : y = x
    · subst hyx
      exact h.exist y h.pos.ne'
    · rw [update_of_ne hyx] at hy
      exact h.exist y hy
  · rw [update_of_ne hD.2]
    exact h.clean y hD.1 hroot hV

end Pending

/-! ## What the collector leaves alone -/

/-- The cell `a` has been allocated and is not the new version of a row any more. -/
def Dead (a : ℕ) (s : Db n) : Prop := a < s.next ∧ ¬ IsNew s a

/-- A property that survives the steps of the collector. -/
structure Collectable (gen : ℕ → Uuid) (c : Db n) (F : Db n → Prop) : Prop extends
    Stable gen c False F where
  weak : ∀ s, F s → s.weakRefs = c.weakRefs
  unlink : ∀ s k r, F s → s.txnRows.lookup k = some r →
    F ((s.putTxnRow k { r with new := none }).removeRow k)
  destroy : ∀ s a, F s → c.next ≤ a → Dead a s → F (s.rowDestroy a)

/-- The state belongs to the transaction, and no weak reference has been added yet. -/
def Early (c s : Db n) : Prop := Within c s ∧ s.weakRefs = c.weakRefs

lemma Early.collectable (hc : Committed c) : Collectable gen c (Early c) where
  within s h := h.1
  clone s a row h hrow hrows hr := ⟨h.1.pull hrows hr, h.2⟩
  put s k r r' h hr hold hnew _ := ⟨h.1.putTxnRow hr hold hnew, h.2⟩
  drop s h := ⟨h.1.dropEmptyTxnTables, h.2⟩
  weak s h := h.2
  unlink s k r h hr := ⟨h.1.unlink h.2 hr, h.2⟩
  destroy s a h ha hdead :=
    ⟨h.1.rowDestroy hc h.2 ha hdead.2, by
      rw [rowDestroy_weakRefs, h.2, Within.filter_weak hc ha]⟩

lemma isNew_putTxnRow {r r' : TxnRow} (hr : s.txnRows.lookup k = some r) (hnew : r'.new = r.new)
    (a : ℕ) : IsNew (s.putTxnRow k r') a ↔ IsNew s a := by
  refine exists_congr fun k' => ?_
  by_cases hk : k' = k
  · subst hk
    simp [hr, hnew]
  · simp [hk]

lemma isNew_of_cloneRow {b : ℕ} {row : Row n} (h : IsNew (cloneRow gen s b row) a) :
    IsNew s a ∨ a = s.next := by
  obtain ⟨k', r', hr', ha⟩ := h
  by_cases hk : k' = row.key
  · subst hk
    simp only [cloneRow, txnRowCreate, putRow_txnRows, putTxnRow_txnRows, lookup_insert,
      if_pos, Option.some.injEq] at hr'
    subst hr'
    exact .inr (Option.some_inj.1 ha).symm
  · exact .inl ⟨k', r', by simpa [cloneRow, hk] using hr', ha⟩

lemma Collectable.and_dead (hF : Collectable gen c F) (a : ℕ) :
    Collectable gen c fun s => F s ∧ Dead a s where
  toStable := by
    refine hF.toStable.and
      (fun s b row _ h _ _ _ => ⟨h.1.trans (Nat.lt_succ_self _), fun hnew => ?_⟩)
      (fun _ _ _ _ h hr hnew => ⟨h.1, fun ha => h.2 ((isNew_putTxnRow hr hnew a).1 ha)⟩)
      fun _ h => h
    rcases isNew_of_cloneRow hnew with hnew | rfl
    · exact h.2 hnew
    · exact absurd h.1 (lt_irrefl _)
  weak s h := hF.weak s h.1
  unlink s k r h hr := by
    refine ⟨hF.unlink s k r h.1 hr, h.2.1, fun ⟨k', r', hr', ha⟩ => h.2.2 ?_⟩
    by_cases hk : k' = k
    · subst hk
      simp only [removeRow_txnRows, putTxnRow_txnRows, lookup_insert, if_pos,
        Option.some.injEq] at hr'
      subst hr'
      cases ha
    · exact ⟨k', r', by simpa [hk] using hr', ha⟩
  destroy s b h hb hdead := ⟨hF.destroy s b h.1 hb hdead, h.2⟩

/-- The number of rows in all tables. -/
def Db.count (s : Db n) : ℕ := s.rows.keys.toFinset.card

lemma Db.count_erase_lt (hk : s.rows.lookup k ≠ none) (hs : s'.rows = s.rows.erase k) :
    s'.count < s.count := by
  have hmem : k ∈ s.rows.keys.toFinset := by
    rw [mem_toFinset, mem_keys_iff, ← Option.ne_none_iff_exists']
    exact hk
  have heq : s'.rows.keys.toFinset = s.rows.keys.toFinset.erase k := by
    ext x
    rw [Finset.mem_erase, mem_toFinset, mem_toFinset, mem_keys_iff, mem_keys_iff, hs]
    by_cases hx : x = k <;> simp
  rw [count, heq]
  exact Finset.card_erase_lt_of_mem hmem

lemma Db.count_le (hs : ∀ k, s'.rows.lookup k ≠ none → s.rows.lookup k ≠ none) :
    s'.count ≤ s.count := by
  refine Finset.card_le_card fun k hk => ?_
  rw [mem_toFinset, mem_keys_iff, ← Option.ne_none_iff_exists'] at hk ⊢
  exact hs k hk

lemma Collectable.and_count_lt (hF : Collectable gen c F) (N : ℕ) :
    Collectable gen c fun s => F s ∧ s.count < N where
  toStable := by
    refine hF.toStable.and (fun s b row _ h _ hrows _ => lt_of_le_of_lt (count_le fun k hk => ?_) h)
      (fun _ _ _ _ h _ _ => h) fun _ h => h
    by_cases hkey : k = row.key
    · rw [hkey, hrows]
      simp
    · simpa [cloneRow, hkey] using hk
  weak s h := hF.weak s h.1
  unlink s k r h hr := by
    refine ⟨hF.unlink s k r h.1 hr, lt_of_le_of_lt (count_le fun x hx => ?_) h.2⟩
    by_cases hxk : x = k
    · simp [hxk] at hx
    · simpa [hxk] using hx
  destroy s b h hb hdead := ⟨hF.destroy s b h.1 hb hdead, h.2⟩

/-! ## The recursion -/

section Recursion

variable {H : Prop} {collect : Key n → Code n Unit} {D : Key n → Prop}

/-- The state is one of the collection, and if the counters were right then they are right. -/
def Collecting (σ : Schema n) (K : Finset (Key n)) (H : Prop) (F : Db n → Prop) (L : List (Key n))
    (D : Key n → Prop) (s : Db n) : Prop :=
  F s ∧ (H → Pending σ K L D s.contents s.refs)

/-- How the collector fails: only if the counters are wrong. -/
def CollectFailed (H : Prop) (F : Db n → Prop) (st : Stop n) (s : Db n) : Prop :=
  F s ∧ ∃ e, st = .error e ∧ ¬ H

/-- What `delete_garbage_row()` is called for: a row without references. -/
def IsGarbage (x : Key n) (s : Db n) : Prop :=
  (∃ r a, s.txnRows.lookup x = some r ∧ r.new = some a) ∧ s.refs x = 0

lemma Collectable.pullable_collecting (hc : Committed c) (hF : Collectable gen c F)
    (L : List (Key n)) (D : Key n → Prop) : Pullable gen c (Collecting σ K H F L D) where
  within s h := hF.within s h.1
  clone s a row h hrow hrows hr := by
    refine ⟨hF.clone s a row h.1 hrow hrows hr, ?_⟩
    rw [(hF.within s h.1).contents_cloneRow hc hrow hrows,
      (hF.within s h.1).refs_cloneRow hc hrow hrows hr]
    exact h.2

/-- What `delete_row_refs()` needs to know about the nested call. -/
def CollectSpec (σ : Schema n) (K : Finset (Key n)) (H : Prop) (F : Db n → Prop)
    (collect : Key n → Code n Unit) : Prop :=
  ∀ (L : List (Key n)) (D : Key n → Prop) (x : Key n), Spec
    (fun s => Collecting σ K H F L (fun y => D y ∧ y ≠ x) s ∧ IsGarbage x s) (collect x)
    (fun _ => Collecting σ K H F L fun y => D y ∨ y = x) (CollectFailed H F)

/-- One reference is taken back, and the row it leads to is collected if it was the last. -/
lemma deleteRef_spec (hc : Committed c) (hF : Collectable gen c F)
    (hcollect : CollectSpec σ K H F collect) (x : Key n) (L : List (Key n)) (D : Key n → Prop) :
    Spec (Collecting σ K H F (x :: L) D) (deleteRef gen collect x)
      (fun _ => Collecting σ K H F L D) (CollectFailed H F) := by
  refine Spec.bind (findOrMakeTxnRow_spec hc (hF.pullable_collecting hc (x :: L) D))
    fun found => Spec.ite (fun hfound => ?_) fun hfound => ?_
  · refine txnRow_reads.bind_exists (fun s hs => ?_) fun r => Spec.ite (fun hzero => ?_)
      fun hzero => Spec.ite (fun hnone => ?_) fun hsome => ?_
    · rw [if_pos hfound] at hs
      exact hs.2
    · rintro s ⟨⟨⟨hFs, hP⟩, -⟩, hr⟩
      refine ⟨hFs, _, rfl, fun h => (hP h).pos.ne' ?_⟩
      rw [refs_of_txnRow hr, hzero]
    · rintro s ⟨⟨⟨hFs, hP⟩, -⟩, hr⟩
      refine ⟨hFs, _, rfl, fun h => (hP h).exist x (hP h).pos.ne' ?_⟩
      have hw := hF.within s hFs
      rw [hw.contents_eq_none_iff hc, ← (hw.rows x).new r hr]
      exact Option.isNone_iff_eq_none.1 hnone
    · obtain ⟨a, ha⟩ := Option.ne_none_iff_exists'.1 fun h => hsome (Option.isNone_iff_eq_none.2 h)
      refine Spec.bind (Spec.modify (Q := fun _ s =>
        Collecting σ K H F L (fun y => D y ∧ y ≠ x) s ∧
        (r.nRefs - 1 = 0 → IsGarbage x s) ∧ (r.nRefs - 1 ≠ 0 → Collecting σ K H F L D s)) ?_)
        fun _ => Spec.ite (fun hlast => ?_) fun hmore => Spec.pure fun s hs => ?_
      · rintro s ⟨⟨⟨hFs, hP⟩, -⟩, hr⟩
        have hFs' := hF.put s x r { r with nRefs := r.nRefs - 1 } hFs hr rfl rfl False.elim
        have hrefs : (s.putTxnRow x { r with nRefs := r.nRefs - 1 }).refs =
            update s.refs x (s.refs x - 1) := by
          rw [refs_putTxnRow, refs_of_txnRow hr]
        refine ⟨⟨hFs', fun h => ?_⟩, fun hlast => ⟨⟨{ r with nRefs := r.nRefs - 1 }, a,
          by simp, ha⟩, ?_⟩, fun hmore => ⟨hFs', fun h => ?_⟩⟩
        · rw [hrefs]
          exact (hP h).decrement
        · rw [hrefs, update_self, refs_of_txnRow hr, hlast]
        · rw [hrefs]
          -- a row that still has references is as clean as before
          have hdec := (hP h).decrement
          refine ⟨hdec.refs, hdec.exist, fun y hD hroot hV => ?_⟩
          by_cases hyx : y = x
          · rwa [hyx, update_self, refs_of_txnRow hr]
          · exact hdec.clean y ⟨hD, hyx⟩ hroot hV
      · refine (hcollect L D x).conseq (fun s hs => ⟨hs.1, hs.2.1 hlast⟩) ?_ (fun _ _ h => h)
        exact fun _ s hs => ⟨hs.1, fun h => (hs.2 h).mono fun y hy => .inl hy⟩
      · exact hs.2.2 hmore
  · refine Spec.throw fun s hs => ?_
    rw [if_neg hfound] at hs
    obtain ⟨⟨hFs, hP⟩, hrows, -⟩ := hs
    exact ⟨hFs, _, rfl, fun h => (hP h).exist x (hP h).pos.ne' (contents_of_none hrows)⟩

/-- A loop that works off a list, which is known to lead a longer one. -/
lemma Collecting.each {α : Type} {f : α → Code n Unit} {xs : List α} {D : Key n → Prop}
    (refs : α → List (Key n))
    (h : ∀ x ∈ xs, ∀ L, Spec (Collecting σ K H F (refs x ++ L) D) (f x)
      (fun _ => Collecting σ K H F L D) (CollectFailed H F)) (L : List (Key n)) :
    Spec (Collecting σ K H F (xs.flatMap refs ++ L) D) (Prog.each f xs)
      (fun _ => Collecting σ K H F L D) (CollectFailed H F) := by
  induction xs with
  | nil => exact Spec.pure fun s hs => hs
  | cons x xs ih =>
    rw [flatMap_cons, append_assoc]
    exact Spec.bind (h x mem_cons_self _) fun _ =>
      ih fun y hy => h y (mem_cons_of_mem x hy)

/-- `delete_row_refs()` takes back the references it is given. -/
lemma deleteRowRefs_spec (hc : Committed c) (hF : Collectable gen c F)
    (hcollect : CollectSpec σ K H F collect) (row : Row n) (base : BaseType n) (atoms : List Atom)
    (L : List (Key n)) : Spec (Collecting σ K H F (atomRefs base.strongRef row.uuid atoms ++ L) D)
      (deleteRowRefs gen collect row base atoms) (fun _ => Collecting σ K H F L D)
      (CollectFailed H F) := by
  rw [deleteRowRefs, eachRef_eq]
  have hloop := Collecting.each (fun x => [x])
    (fun x (_ : x ∈ atomRefs base.strongRef row.uuid atoms) L =>
      deleteRef_spec hc hF hcollect x L D) L
  rwa [flatMap_singleton'] at hloop

/-- Taking a row out of its table. -/
lemma contents_unlink : ((s.putTxnRow k r).removeRow k).contents = update s.contents k none := by
  funext x
  by_cases hx : x = k
  · subst hx
    simp [contents, row]
  · simp [contents, row, hx]

lemma refs_unlink (hr : s.txnRows.lookup k = some r) :
    ((s.putTxnRow k { r with new := none }).removeRow k).refs = s.refs := by
  funext x
  by_cases hx : x = k
  · subst hx
    simp [refs, hr]
  · simp [refs, row, hx]

/-- A cell that is not a new version is not in a table. -/
lemma Within.row_rowDestroy (hc : Committed c) (h : Within c s) (ha : c.next ≤ a)
    (hdead : ¬ IsNew s a) (x : Key n) : (s.rowDestroy a).row x = s.row x := by
  show (s.rows.lookup x).bind (update s.heap a none) = (s.rows.lookup x).bind s.heap
  cases hb : s.rows.lookup x with
  | none => rfl
  | some b =>
    have hne : b ≠ a := by
      rintro rfl
      cases hr : s.txnRows.lookup x with
      | none =>
        rw [(h.rows x).untouched hr] at hb
        exact absurd (hc.cell_lt_next hb) (not_lt.2 ha)
      | some r => exact hdead ⟨x, r, hr, by rw [(h.rows x).new r hr, hb]⟩
    show update s.heap a none b = s.heap b
    rw [update_of_ne hne]

lemma Within.contents_rowDestroy (hc : Committed c) (h : Within c s) (ha : c.next ≤ a)
    (hdead : ¬ IsNew s a) : (s.rowDestroy a).contents = s.contents := by
  funext x
  rw [contents, h.row_rowDestroy hc ha hdead, contents]

lemma Within.refs_rowDestroy (hc : Committed c) (h : Within c s) (ha : c.next ≤ a)
    (hdead : ¬ IsNew s a) : (s.rowDestroy a).refs = s.refs := by
  funext x
  rw [refs, h.row_rowDestroy hc ha hdead]
  rfl

/-- A row that has been taken out of its table is dead. -/
lemma Within.dead_of_unlink (h : Within c s) (hr : s.txnRows.lookup k = some r)
    (ha : r.new = some a) : Dead a ((s.putTxnRow k { r with new := none }).removeRow k) := by
  obtain ⟨-, row, hrow, -⟩ := (h.rows k).cell r a hr ha
  refine ⟨h.lt_next hrow, ?_⟩
  rintro ⟨k', r', hr', ha'⟩
  by_cases hk : k' = k
  · subst hk
    simp only [removeRow_txnRows, putTxnRow_txnRows, lookup_insert, if_pos,
      Option.some.injEq] at hr'
    subst hr'
    cases ha'
  · exact hk (h.key_unique (by simpa [hk] using hr') ha' hr ha)

/-- **`delete_garbage_row()`** removes the row and whatever loses its last reference by that. -/
lemma deleteGarbageRow_spec (hc : Committed c) (fuel : ℕ) (hF : Collectable gen c F)
    (hK : ∀ s, F s → ∀ k, s.Has k → k ∈ K) (hfuel : ∀ s, F s → s.count < fuel) :
    CollectSpec σ K H F (deleteGarbageRow σ gen fuel) := by
  induction fuel generalizing F with
  | zero =>
    exact fun L D k => Spec.throw fun s hs => absurd (hfuel s hs.1.1) (Nat.not_lt_zero _)
  | succ fuel ih =>
    intro L D k
    refine Spec.ite (fun hroot => Spec.pure fun s hs => ?_) fun hroot => ?_
    · refine ⟨hs.1.1, fun h => ?_⟩
      obtain ⟨hrefs, hexist, hclean⟩ := hs.1.2 h
      refine ⟨hrefs, hexist, fun x hx hxroot => ?_⟩
      have hne : x ≠ k := by
        rintro rfl
        rw [hroot] at hxroot
        cases hxroot
      exact hclean x ⟨hx.resolve_right hne, hne⟩ hxroot
    · refine txnRow_reads.bind_exists (fun s hs => ?_) fun r => ?_
      · obtain ⟨-, ⟨r, a, hr, -⟩, -⟩ := hs
        exact ⟨r, hr⟩
      cases hnew : r.new with
      | none =>
        refine Spec.throw fun s hs => ?_
        obtain ⟨⟨-, ⟨r', a, hr', ha⟩, -⟩, hr⟩ := hs
        rw [hr] at hr'
        cases hr'
        rw [hnew] at ha
        cases ha
      | some a =>
        refine deref_reads.bind_such (fun s hs =>
          (((hF.within s hs.1.1.1).rows k).cell r a hs.2 hnew).2) fun row hkey =>
          Spec.intro fun s0 hs0 => ?_
        · obtain ⟨⟨⟨⟨hFs, hP⟩, -, hzero⟩, hr⟩, hrow⟩ := hs0
          subst hkey
          have hw := hF.within s0 hFs
          have hle := ((hw.rows _).cell r a hr hnew).1
          have hlookup : s0.rows.lookup row.key = some a := by
            rw [← (hw.rows _).new r hr, hnew]
          have hheld : heldBy σ s0.contents row.key =
              (σ.table row.table).columns.flatMap row.columnRefs := by
            rw [heldBy_eq_flatMap, contents_of_lookup hlookup hrow]
            exact flatMap_congr fun col hcol => (row.columnRefs_eq hcol).symm
          -- nested calls have to leave the cell of this row alone
          have hF1 := (hF.and_count_lt fuel).and_dead a
          have hcollect := ih hF1 (fun s hs => hK s hs.1.1) fun s hs => hs.1.2
          refine Spec.bind (Spec.modify (Q := fun _ => Collecting σ K H
            (fun s => (F s ∧ s.count < fuel) ∧ Dead a s)
            ((σ.table row.table).columns.flatMap row.columnRefs ++ L)
            fun y => D y ∨ y = row.key) ?_) fun _ => Spec.bind
            ((Collecting.each row.columnRefs (fun col _ L' => ?_) L).conseq
              (fun _ hs => hs) (fun _ _ hs => hs) fun _ _ hs => ⟨hs.1.1.1, hs.2⟩)
            fun _ => Spec.modify fun s hs => ?_
          · intro s hs
            rw [hs]
            refine ⟨⟨⟨hF.unlink _ _ r hFs hr, ?_⟩, hw.dead_of_unlink hr hnew⟩, fun h => ?_⟩
            · exact lt_of_lt_of_le (count_erase_lt (s := s0) (by simp [hlookup]) rfl)
                (Nat.lt_succ_iff.1 (hfuel _ hFs))
            · rw [contents_unlink, refs_unlink hr, ← hheld]
              exact (hP h).remove (hK _ hFs _ (.inl (by simp [hlookup]))) hzero
          · rw [Row.columnRefs, append_assoc]
            exact Spec.bind (deleteRowRefs_spec hc hF1 hcollect row _ _ _) fun _ =>
              deleteRowRefs_spec hc hF1 hcollect row _ _ _
          · obtain ⟨⟨⟨hFs', -⟩, hdead⟩, hP'⟩ := hs
            have hw' := hF.within s hFs'
            refine ⟨hF.destroy s a hFs' hle hdead, ?_⟩
            rwa [hw'.contents_rowDestroy hc hle hdead.2, hw'.refs_rowDestroy hc hle hdead.2]

lemma Collectable.and_has (hF : Collectable gen c F) (P : Key n → Prop) :
    Collectable gen c fun s => F s ∧ ∀ k, s.Has k → P k where
  toStable := hF.toStable.and_has P
  weak s h := hF.weak s h.1
  unlink s k r h hr := by
    refine ⟨hF.unlink s k r h.1 hr, fun x hx => h.2 x ?_⟩
    by_cases hxk : x = k
    · right
      rw [hxk, hr]
      simp
    · simpa [Db.Has, hxk] using hx
  destroy s b h hb hdead := ⟨hF.destroy s b h.1 hb hdead, h.2⟩

/-- **`collect_garbage()`** for all rows of the transaction: afterwards those that are left are
clean. -/
lemma forEach_collectGarbage (hc : Committed c) (hF : Collectable gen c F) {s0 : Db n}
    (hs0 : Collecting σ K H F [] (fun _ => False) s0) (hK : ∀ k, s0.Has k → k ∈ K)
    (order : ℕ → ℕ) : Spec (· = s0) (forEachTxnRow order (collectGarbage σ gen))
      (fun _ s => (∀ k, s.Has k → s0.Has k) ∧
        Collecting σ K H F [] (fun k => ∃ r, s.txnRows.lookup k = some r) s)
      (CollectFailed H F) := by
  have hF' := hF.and_has s0.Has
  refine forEachTxnRow_total (fun done => Collecting σ K H
    (fun s => F s ∧ ∀ k, s.Has k → s0.Has k) [] (· ∈ done)) ?_ ?_ ?_ ?_
  · exact ⟨⟨hs0.1, fun _ h => h⟩, fun h => (hs0.2 h).mono fun x hx => absurd hx not_mem_nil⟩
  · intro done s hs k r hr
    exact hs.1.2 k (.inr (by simp [hr]))
  · rintro done s k r ⟨hs, hP⟩ hr hk
    refine txnRow_reads.bind_of (fun _ hs => hs ▸ hr) (Spec.ite (fun hgarbage => ?_)
      fun hlive => Spec.pure ?_)
    · refine Spec.get_bind fun s' heq => ?_
      rw [heq]
      obtain ⟨a, ha⟩ := Option.isSome_iff_exists.1 hgarbage.1
      set N := s.rows.keys.length + 1 with hN
      refine (deleteGarbageRow_spec hc N (hF'.and_count_lt N) (fun s hs k hk => hK k (hs.1.2 k hk))
        (fun s hs => hs.2) [] (· ∈ done) k).conseq ?_ ?_ fun st s hs => ⟨hs.1.1.1, hs.2⟩
      · rintro _ rfl
        refine ⟨⟨⟨hs, Nat.lt_succ_of_le (toFinset_card_le _)⟩, fun h => ?_⟩, ⟨r, a, hr, ha⟩, ?_⟩
        · exact (hP h).mono fun x hx => hx.1
        · rw [refs_of_txnRow hr, hgarbage.2]
      · intro _ s hs
        refine ⟨hs.1.1, fun h => (hs.2 h).mono fun x hx => ?_⟩
        exact (mem_cons.1 hx).symm
    · rintro s rfl
      refine ⟨hs, fun h => ?_⟩
      obtain ⟨hrefs, hexist, hclean⟩ := hP h
      refine ⟨hrefs, hexist, fun x hx hroot hV => ?_⟩
      rcases mem_cons.1 hx with rfl | hx
      · rw [Ne, (hF.within s hs.1).contents_eq_none_iff hc,
          ← ((hF.within s hs.1).rows x).new r hr] at hV
        rw [refs_of_txnRow hr]
        exact fun hzero => hlive ⟨Option.isSome_iff_ne_none.2 hV, hzero⟩
      · exact hclean x hx hroot hV
  · rintro done s ⟨hs, hP⟩ hall
    refine ⟨hs.2, hF.drop s hs.1, fun h => (hP h).mono ?_⟩
    rintro k ⟨r, hr⟩
    exact hall k r hr

end Recursion

end Ovsdb

end OVS
