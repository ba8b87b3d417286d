import OpenVSwitch.Ovsdb.Collect

/-!
# Weak references

`assess_weak_refs()`: for every row of the transaction, weak references to rows that do not exist
are removed, and the others get an entry in the `dst_refs` of the row they lead to.  The latter
pulls that row into the transaction, which then is processed as well.

`Reached src x s` is what the assessment of a reference to `x` from the row in cell `src`
establishes.  It mentions only rows of the transaction, so that it stays true whatever else is
pulled in.  As for the collector, what else holds of a state is an arbitrary property closed under
the steps (`Assessable`), which here are steps for one row at a time.

The hypothesis `H` of the specifications stands for "no weak reference dangles".  With `H` nothing
is removed and nothing can fail.
-/

namespace OVS

namespace Ovsdb

open List Function Prog

variable {n : ℕ} {c s s' : Db n} {gen : ℕ → Uuid} {F : Db n → Prop} {σ : Schema n}

/-- What `assess_weak_refs()` looks up for a datum of the column. -/
def Column.weakTargets (col : Column n) (d : Datum) : List (Key n) :=
  refKeys col.type.key.weakRef (d.pairs.map Prod.fst) ++
    refKeys col.type.value.weakRef (d.pairs.map valuePart)

variable {part : Atom × Option Atom → Atom} {x : Key n}

lemma mem_refKeys_map {t : Fin n} {ps : List (Atom × Option Atom)} :
    x ∈ refKeys (some t) (ps.map part) ↔ ∃ p ∈ ps, (t, (part p).asUuid) = x := by
  simp [refKeys]

lemma refKeys_map_subset {t : Option (Fin n)} {ps qs : List (Atom × Option Atom)}
    (h : ∀ p ∈ ps, p ∈ qs) : refKeys t (ps.map part) ⊆ refKeys t (qs.map part) := by
  intro x hx
  cases t with
  | none => exact hx
  | some t =>
    rw [mem_refKeys_map] at hx ⊢
    obtain ⟨p, hp, rfl⟩ := hx
    exact ⟨p, h p hp, rfl⟩

/-- It finds every reference. -/
lemma Column.weakRefs_subset_weakTargets (col : Column n) (d : Datum) :
    col.weakRefs d ⊆ col.weakTargets d := by
  intro x hx
  rw [weakRefs, mem_append] at hx
  rw [weakTargets, mem_append]
  refine hx.imp id fun hx => ?_
  cases hweak : col.type.value.weakRef with
  | none => simp [hweak] at hx
  | some t =>
    rw [hweak] at hx
    simp only [refKeys, mem_map, Datum.values, mem_filterMap] at hx
    obtain ⟨v, ⟨p, hp, hv⟩, rfl⟩ := hx
    rw [mem_refKeys_map]
    exact ⟨p, hp, by rw [valuePart, hv]; rfl⟩

variable (σ) in
/-- What `assess_weak_refs()` looks up for a row. -/
def weakTargets (k : Key n) (data : ℕ → Datum) : List (Key n) :=
  (σ.table k.1).columns.flatMap fun col => col.weakTargets (data col.index)

/-- A reference to `x` from the row in cell `src` has been assessed. -/
def Reached (src : ℕ) (x : Key n) (s : Db n) : Prop :=
  ∃ b, s.rows.lookup x = some b ∧ (∃ r, s.txnRows.lookup x = some r) ∧
    (b = src ∨ ⟨src, b⟩ ∈ s.weakRefs)

/-! ## What an assessment leaves alone -/

/-- A property that survives pulling in rows and adding weak references. -/
structure Linkable (gen : ℕ → Uuid) (c : Db n) (F : Db n → Prop) : Prop extends
    Stable gen c True F where
  addWeak : ∀ s src dst, F s → IsNew s src → IsNew s dst →
    F { s with weakRefs := s.weakRefs ++ [⟨src, dst⟩] }

/-- A property that survives the assessment of the row with key `k`. -/
structure Assessable (gen : ℕ → Uuid) (σ : Schema n) (c : Db n) (k : Key n) (F : Db n → Prop) :
    Prop extends Linkable gen c F where
  prune : ∀ s a row col d, F s → s.rows.lookup k = some a → s.heap a = some row →
    (∃ r, s.txnRows.lookup k = some r) → col ∈ (σ.table k.1).columns →
    col.type.key.weakRef ≠ none ∨ col.type.value.weakRef ≠ none →
    (∀ p ∈ d.pairs, p ∈ (row.field col.index).pairs) →
    F (s.setRow a (row.setField col.index d))

lemma Reached.clone {src a : ℕ} {row : Row n} (h : Reached src x s)
    (hr : s.txnRows.lookup row.key = none) : Reached src x (cloneRow gen s a row) := by
  obtain ⟨b, hb, hr', hw⟩ := h
  refine ⟨b, ?_, exists_putTxnRow hr' _, hw⟩
  simpa [ne_of_txnRow hr' hr] using hb

lemma Reached.putTxnRow {src : ℕ} (h : Reached src x s) (k : Key n) (r : TxnRow) :
    Reached src x (s.putTxnRow k r) := by
  obtain ⟨b, hb, hr, hw⟩ := h
  exact ⟨b, hb, exists_putTxnRow hr r, hw⟩

lemma Linkable.and_reached (hF : Linkable gen c F) (src : ℕ) (X : Key n → Prop) :
    Linkable gen c fun s => F s ∧ ∀ x, X x → Reached src x s where
  toStable := hF.toStable.and (fun _ _ _ _ h _ _ hr x hx => (h x hx).clone hr)
    (fun _ k _ r' h _ _ x hx => (h x hx).putTxnRow k r') fun _ h => h
  addWeak s src' dst h hsrc hdst := by
    refine ⟨hF.addWeak s src' dst h.1 hsrc hdst, fun x hx => ?_⟩
    obtain ⟨b, hb, hr, hw⟩ := h.2 x hx
    exact ⟨b, hb, hr, hw.imp id fun hw => mem_append_left _ hw⟩

/-- The row in cell `a` does not change. -/
lemma Linkable.and_cell (hF : Linkable gen c F) (a : ℕ) (row : Row n) :
    Linkable gen c fun s => F s ∧ s.heap a = some row where
  toStable := hF.toStable.and
    (fun s _ _ hs h _ _ _ => (update_of_ne ((hF.within s hs).lt_next h).ne _ _).trans h)
    (fun _ _ _ _ h _ _ => h) fun _ h => h
  addWeak s src dst h hsrc hdst := ⟨hF.addWeak s src dst h.1 hsrc hdst, h.2⟩

/-- The contents do not change, if `H` holds. -/
lemma Linkable.and_contents (hc : Committed c) (hF : Linkable gen c F) (H : Prop)
    (V : Contents n) : Linkable gen c fun s => F s ∧ (H → s.contents = V) where
  toStable := hF.toStable.and (fun s _ _ hs h hrow hrows _ hH =>
    ((hF.within s hs).contents_cloneRow hc hrow hrows).trans (h hH)) (fun _ _ _ _ h _ _ => h)
    fun _ h => h
  addWeak s src dst h hsrc hdst := ⟨hF.addWeak s src dst h.1 hsrc hdst, h.2⟩

section Loop

variable {k : Key n} {src : ℕ} {Live : Key n → Prop} {E : Stop n → Db n → Prop}

lemma Within.isNew_of_linked (h : Within c s) {a : ℕ} (hlink : Linked k (some a) s) :
    IsNew s a := by
  obtain ⟨hk, r, hr⟩ := hlink
  exact ⟨k, r, hr, by rw [(h.rows k).new r hr, hk]⟩

/-- **`add_weak_ref()`** from a row of the transaction. -/
lemma addWeakRef_spec (hc : Committed c) (hF : Linkable gen c F)
    (hlink : ∀ s, F s → Linked k (some src) s) {dst : ℕ} :
    Spec (fun s => F s ∧ s.rows.lookup x = some dst) (addWeakRef gen src dst)
      (fun _ s => F s ∧ Reached src x s) E := by
  refine Spec.ite (fun hself => Spec.pure ?_) fun hother => ?_
  · rintro s ⟨hFs, hx⟩
    subst hself
    obtain ⟨hk, r, hr⟩ := hlink s hFs
    obtain rfl := (hF.within s hFs).cell_inj hc hk hx
    exact ⟨hFs, src, hx, ⟨r, hr⟩, .inl rfl⟩
  · refine Spec.bind (txnRowModify_spec hc hF.toPullable) fun b =>
      Spec.get_bind fun s hs => ?_
    obtain ⟨hFs, hb, r, hr, hnew⟩ := hs
    refine Spec.ite (fun hlast => Spec.pure ?_) fun _ => Spec.modify ?_
    · rintro _ rfl
      obtain ⟨w, hw, hsrc⟩ := Option.map_eq_some_iff.1 hlast
      have hmem := mem_of_getLast? hw
      rw [mem_filter, decide_eq_true_eq] at hmem
      obtain ⟨hmem, rfl⟩ := hmem
      subst hsrc
      exact ⟨hFs, w.dst, hb, ⟨r, hr⟩, .inr hmem⟩
    · rintro _ rfl
      refine ⟨hF.addWeak _ src b hFs ((hF.within _ hFs).isNew_of_linked (hlink _ hFs))
        ⟨x, r, hr, hnew⟩, b, hb, ⟨r, hr⟩, .inr ?_⟩
      exact mem_append_right _ (mem_singleton.2 rfl)

/-! ## One datum -/

/-- What an assessment makes of a datum: elements are removed only if something dangles. -/
structure Shrunk (d d' : Datum) (dangling : Prop) : Prop where
  subset : ∀ p ∈ d'.pairs, p ∈ d.pairs
  eq_or : d' = d ∨ d'.n < d.n ∧ dangling

lemma Shrunk.refl (d : Datum) (P : Prop) : Shrunk d d P := ⟨fun _ hp => hp, .inl rfl⟩

lemma Shrunk.trans {d d1 d2 : Datum} {P Q R : Prop} (h : Shrunk d d1 P) (h' : Shrunk d1 d2 Q)
    (hP : P → R) (hQ : Q → R) : Shrunk d d2 R := by
  refine ⟨fun p hp => h.subset p (h'.subset p hp), ?_⟩
  rcases h.eq_or with rfl | ⟨hlt, hp⟩
  · exact h'.eq_or.imp id fun h => ⟨h.1, hQ h.2⟩
  · rcases h'.eq_or with rfl | ⟨hlt', -⟩
    · exact .inr ⟨hlt, hP hp⟩
    · exact .inr ⟨hlt'.trans hlt, hP hp⟩

/-- The loop over the elements. -/
lemma assessLoop_spec (hc : Committed c) (hF : Linkable gen c F)
    (hlink : ∀ s, F s → Linked k (some src) s)
    (hlive : ∀ s, F s → ∀ x, s.rows.lookup x = none → ¬ Live x) (t : Fin n)
    (part : Atom × Option Atom → Atom) (fuel i : ℕ) (d : Datum) (zero : Bool)
    (hfuel : d.n ≤ fuel + i) :
    Spec (fun s => F s ∧ ∀ p ∈ d.pairs.take i, Reached src (t, (part p).asUuid) s)
      (assessLoop gen src t part fuel i d zero)
      (fun res s => (F s ∧ ∀ p ∈ res.1.pairs, Reached src (t, (part p).asUuid) s) ∧
        Shrunk d res.1 (∃ p ∈ d.pairs, ¬ Live (t, (part p).asUuid))) E := by
  induction fuel generalizing i d zero with
  | zero =>
    refine Spec.pure fun s hs => ⟨?_, .refl _ _⟩
    rwa [take_of_length_le (by simpa [Datum.n] using hfuel)] at hs
  | succ fuel ih =>
    unfold assessLoop
    cases hp : d.pairs[i]? with
    | none =>
      refine Spec.pure fun s hs => ⟨?_, .refl _ _⟩
      rwa [take_of_length_le (getElem?_eq_none_iff.1 hp)] at hs
    | some p =>
      have hmem : p ∈ d.pairs := mem_of_getElem? hp
      have hi : i < d.n := by
        by_contra hle
        rw [getElem?_eq_none_iff.2 (not_lt.1 hle)] at hp
        cases hp
      refine Spec.get_bind fun s hs => ?_
      cases hrows : s.rows.lookup (t, (part p).asUuid) with
      | some dst =>
        have hF' := hF.and_reached src fun x => ∃ p ∈ d.pairs.take i, (t, (part p).asUuid) = x
        refine Spec.bind ((addWeakRef_spec hc hF' (fun s hs => hlink s hs.1)
          (x := (t, (part p).asUuid))).pre ?_) fun _ => (ih (i + 1) d zero (by omega)).pre ?_
        · rintro _ rfl
          refine ⟨⟨hs.1, ?_⟩, hrows⟩
          rintro x ⟨q, hq, rfl⟩
          exact hs.2 q hq
        · rintro s1 ⟨⟨hFs, hreached⟩, hp'⟩
          refine ⟨hFs, fun q hq => ?_⟩
          rw [take_add_one, hp] at hq
          rcases mem_append.1 hq with hq | hq
          · exact hreached _ ⟨q, hq, rfl⟩
          · rw [mem_singleton.1 hq]
            exact hp'
      | none =>
        have hn := Datum.n_removeUnsafe hi
        refine (ih i (d.removeUnsafe i) _ (by omega)).conseq ?_ ?_ (fun _ _ h => h)
        · rintro _ rfl
          refine ⟨hs.1, fun q hq => hs.2 q ?_⟩
          -- the elements before the one removed stay
          obtain ⟨p, -, hp⟩ := Datum.removeUnsafe_pairs hi
          have hle : i ≤ d.pairs.length - 1 := Nat.le_sub_one_of_lt hi
          rwa [hp, dropLast_eq_take, take_take, length_set, Nat.min_eq_left hle,
            take_set_of_le (le_refl i)] at hq
        · rintro res s1 ⟨hs1, hshrunk⟩
          refine ⟨hs1, fun q hq => Datum.mem_of_mem_removeUnsafe hi (hshrunk.subset q hq), ?_⟩
          refine .inr ⟨?_, p, hmem, hlive s hs.1 _ hrows⟩
          rcases hshrunk.eq_or with heq | ⟨hlt, -⟩
          · rw [heq]
            omega
          · omega

/-- The loop, for the keys or the values. -/
lemma assessAtoms_spec (hc : Committed c) (hF : Linkable gen c F)
    (hlink : ∀ s, F s → Linked k (some src) s)
    (hlive : ∀ s, F s → ∀ x, s.rows.lookup x = none → ¬ Live x) (base : BaseType n)
    (part : Atom × Option Atom → Atom) (d : Datum) (zero : Bool) :
    Spec F (assessAtoms gen src base part d zero)
      (fun res s => (F s ∧ ∀ x ∈ refKeys base.weakRef (res.1.pairs.map part), Reached src x s) ∧
        Shrunk d res.1 (∃ x ∈ refKeys base.weakRef (d.pairs.map part), ¬ Live x)) E := by
  unfold assessAtoms
  cases base.weakRef with
  | none => exact Spec.pure fun s hs => ⟨⟨hs, by simp⟩, .refl _ _⟩
  | some t =>
    refine (assessLoop_spec hc hF hlink hlive t part d.n 0 d zero (by omega)).conseq
      (fun s hs => ⟨hs, by simp⟩) ?_ (fun _ _ h => h)
    rintro res s ⟨⟨hFs, hreached⟩, hsub, heq⟩
    refine ⟨⟨hFs, fun x hx => ?_⟩, hsub, heq.imp id fun h => ⟨h.1, ?_⟩⟩
    · obtain ⟨p, hp, rfl⟩ := mem_refKeys_map.1 hx
      exact hreached p hp
    · obtain ⟨p, hp, hdead⟩ := h.2
      exact ⟨_, mem_refKeys_map.2 ⟨p, hp, rfl⟩, hdead⟩

end Loop

/-! ## One column -/

section Column

variable {k : Key n} {a : ℕ} {Live : Key n → Prop} {H : Prop} {V : Contents n}

variable {col : Column n} {cols : List (Column n)}

lemma Column.weak_of_mem {d : Datum} (hx : x ∈ col.weakTargets d) :
    col.type.key.weakRef ≠ none ∨ col.type.value.weakRef ≠ none := by
  by_contra hnone
  rw [not_or, not_not, not_not] at hnone
  simp [weakTargets, hnone.1, hnone.2] at hx

/-- `_uuid` and `_version` are no weak references. -/
lemma Row.field_of_weak (row : Row n) {t : Fin n} (hcol : col ∈ (σ.table t).columns)
    (hweak : col.type.key.weakRef ≠ none ∨ col.type.value.weakRef ≠ none) :
    row.field col.index = row.data col.index := by
  have hstd : ¬ (col.index = colUuid ∨ col.index = colVersion) := by
    intro hstd
    obtain ⟨hkey, hvalue⟩ := (σ.table t).standard col hcol hstd
    simp [hkey, hvalue] at hweak
  rw [not_or] at hstd
  rw [Row.field, if_neg hstd.1, if_neg hstd.2]

/-- The columns `cols` of the row in cell `a` have been assessed. -/
def Assessed (a : ℕ) (cols : List (Column n)) (s : Db n) : Prop :=
  ∀ row, s.heap a = some row → ∀ col ∈ cols, ∀ x ∈ col.weakTargets (row.field col.index),
    Reached a x s

/-- A column is written back. -/
lemma pruneColumn_spec (hF : Assessable gen σ c k F) (hlink : ∀ s, F s → Linked k (some a) s)
    (hcol : col ∈ (σ.table k.1).columns) (hcols : ∀ col' ∈ cols, col'.index ≠ col.index)
    (hweak : col.type.key.weakRef ≠ none ∨ col.type.value.weakRef ≠ none) {row : Row n} {d : Datum}
    (hsub : ∀ p ∈ d.pairs, p ∈ (row.field col.index).pairs) (orig : Datum) (zero : Bool) :
    Spec (fun s => (F s ∧ s.heap a = some row) ∧ Assessed a cols s ∧
        ∀ x ∈ col.weakTargets d, Reached a x s) (pruneColumn k a col orig d zero)
      (fun _ s => F s ∧ Assessed a (cols ++ [col]) s) (fun _ s => F s) := by
  refine txnRow_reads.bind (fun s hs _ => hs.1.1) fun r => Spec.bind (Spec.modify
    (Q := fun _ s => (F s ∧ s.heap a = some row) ∧ Assessed a cols s ∧
      ∀ x ∈ col.weakTargets d, Reached a x s) ?_) fun _ =>
    deref_reads.bind (fun s hs _ => hs.1.1) fun row' => Spec.bind (Spec.modify
    (Q := fun _ s => F s ∧ Assessed a (cols ++ [col]) s) ?_) fun _ =>
    Spec.ite (fun _ => Spec.throw fun s hs => hs.1) fun _ =>
    Spec.ite (fun _ => Spec.ite (fun _ => Spec.throw fun s hs => hs.1)
      fun _ => Spec.throw fun s hs => hs.1) fun _ => Spec.pure fun s hs => hs
  · rintro s ⟨⟨⟨hFs, hrow⟩, hdone, hd⟩, hr⟩
    exact ⟨⟨hF.put s k r _ hFs hr rfl rfl fun _ => rfl, hrow⟩,
      fun row' hrow' col' hcol' x hx => (hdone row' hrow' col' hcol' x hx).putTxnRow k _,
      fun x hx => (hd x hx).putTxnRow k _⟩
  · rintro s ⟨⟨⟨hFs, hrow⟩, hdone, hd⟩, hrow'⟩
    rw [hrow] at hrow'
    cases hrow'
    refine ⟨hF.prune s a row col d.sort hFs (hlink s hFs).1 hrow (hlink s hFs).2 hcol hweak
      (fun p hp => hsub p (Datum.mem_sort.1 hp)), fun row' hrow' col' hcol' x hx => ?_⟩
    rw [Db.setRow_heap, update_self, Option.some.injEq] at hrow'
    subst hrow'
    rcases mem_append.1 hcol' with hcol' | hcol'
    · -- other columns keep their values
      have hfield : (row.setField col.index d.sort).field col'.index = row.field col'.index := by
        simp [Row.field, Row.setField, update_of_ne (hcols col' hcol')]
      rw [hfield] at hx
      exact hdone row hrow col' hcol' x hx
    · rw [mem_singleton.1 hcol', Row.field_of_weak _ hcol hweak] at hx
      simp only [Row.setField, update_self, Column.weakTargets, mem_append] at hx
      have hsub : ∀ p ∈ d.sort.pairs, p ∈ d.pairs := fun p hp => Datum.mem_sort.1 hp
      exact hd x (mem_append.2 (hx.imp (fun hx => refKeys_map_subset hsub hx)
        fun hx => refKeys_map_subset hsub hx))

/-- **`assess_weak_refs()`, for a column.** -/
lemma assessColumn_spec (hc : Committed c) (hF : Assessable gen σ c k F)
    (hlink : ∀ s, F s → Linked k (some a) s)
    (hlive : ∀ s, F s → ∀ x, s.rows.lookup x = none → ¬ Live x) (hcol : col ∈ (σ.table k.1).columns)
    (hcols : ∀ col' ∈ cols, col'.index ≠ col.index)
    (hH : H → ∀ data, V k = some data → ∀ x ∈ col.weakTargets (data col.index), Live x) :
    Spec (fun s => (F s ∧ (H → s.contents = V)) ∧ Assessed a cols s) (assessColumn gen k a col)
      (fun _ s => (F s ∧ (H → s.contents = V)) ∧ Assessed a (cols ++ [col]) s)
      (fun _ s => F s ∧ ¬ H) := by
  refine deref_reads.bind_such
    (fun s hs => (hF.within s hs.1.1).row hc (hlink s hs.1.1).1) fun row _ => ?_
  set orig := row.field col.index with horig
  -- the row stays as it is until the references have been added
  have hF1 := ((hF.toLinkable.and_contents hc H V).and_cell a row).and_reached a fun x =>
    ∃ col' ∈ cols, x ∈ col'.weakTargets (row.field col'.index)
  refine Spec.bind ((assessAtoms_spec hc hF1 (fun s hs => hlink s hs.1.1.1)
    (fun s hs => hlive s hs.1.1.1) col.type.key Prod.fst orig false).pre ?_) fun res => ?_
  · rintro s ⟨⟨hs, hdone⟩, hrow⟩
    refine ⟨⟨hs, hrow⟩, ?_⟩
    rintro x ⟨col', hcol', hx⟩
    exact hdone row hrow col' hcol' x hx
  obtain ⟨d1, zero1⟩ := res
  have hF2 := hF1.and_reached a (· ∈ refKeys col.type.key.weakRef (d1.pairs.map Prod.fst))
  refine Spec.intro fun s1 hs1 => ?_
  obtain ⟨hs1, hkeys⟩ := hs1
  refine Spec.bind ((assessAtoms_spec hc hF2 (fun s hs => hlink s hs.1.1.1.1)
    (fun s hs => hlive s hs.1.1.1.1) col.type.value valuePart d1 zero1).pre ?_) fun res => ?_
  · rintro _ rfl
    exact hs1
  obtain ⟨d2, zero2⟩ := res
  refine Spec.intro fun s2 hs2 => ?_
  obtain ⟨⟨⟨⟨⟨⟨hFs, hV⟩, hrow⟩, hdone⟩, hreached1⟩, hreached2⟩, hvalues⟩ := hs2
  have hshrunk : Shrunk orig d2 (∃ x ∈ col.weakTargets orig, ¬ Live x) :=
    hkeys.trans hvalues
      (fun ⟨x, hx, hdead⟩ => ⟨x, mem_append_left _ hx, hdead⟩)
      fun ⟨x, hx, hdead⟩ =>
        ⟨x, mem_append_right _ (refKeys_map_subset hkeys.subset hx), hdead⟩
  have hreached : ∀ x ∈ col.weakTargets d2, Reached a x s2 := by
    intro x hx
    rcases mem_append.1 hx with hx | hx
    · exact hreached1 x (refKeys_map_subset hvalues.subset hx)
    · exact hreached2 x hx
  have hassessed : Assessed a cols s2 := by
    intro row' hrow' col' hcol' x hx
    rw [hrow] at hrow'
    cases hrow'
    exact hdone x ⟨col', hcol', hx⟩
  refine Spec.ite (fun hn => Spec.pure ?_) fun hn => ?_
  · rintro _ rfl
    have heq : d2 = orig := by
      rcases hshrunk.eq_or with heq | ⟨hlt, -⟩
      · exact heq
      · exact absurd hn hlt.ne
    refine ⟨⟨hFs, hV⟩, fun row' hrow' col' hcol' x hx => ?_⟩
    rcases mem_append.1 hcol' with hcol' | hcol'
    · exact hassessed row' hrow' col' hcol' x hx
    · rw [hrow] at hrow'
      cases hrow'
      rw [mem_singleton.1 hcol', ← horig, ← heq] at hx
      exact hreached x hx
  · obtain ⟨-, x, hx, hdead⟩ := hshrunk.eq_or.resolve_left fun heq => hn (by rw [heq])
    have hweak := Column.weak_of_mem hx
    -- something dangles, so that `H` does not hold
    have hnot : ¬ H := by
      intro h
      rw [horig, row.field_of_weak hcol hweak] at hx
      refine hdead (hH h row.data ?_ x hx)
      rw [← hV h]
      exact Db.contents_of_lookup (hlink s2 hFs).1 hrow
    refine (pruneColumn_spec hF hlink hcol hcols hweak hshrunk.subset orig zero2).conseq ?_ ?_
      fun _ s hs => ⟨hs, hnot⟩
    · rintro _ rfl
      exact ⟨⟨hFs, hrow⟩, hassessed, hreached⟩
    · exact fun _ s hs => ⟨⟨hs.1, fun h => absurd h hnot⟩, hs.2⟩

end Column

/-! ## One row -/

section Row

variable {k : Key n} {Live : Key n → Prop} {H : Prop} {V : Contents n} {E : Stop n → Db n → Prop}

/-- A further property, to which neither weak references nor the heap matter. -/
lemma Assessable.and_stable {G : Db n → Prop} (hF : Assessable gen σ c k F)
    (hG : Stable gen c True fun s => F s ∧ G s)
    (hweakRefs : ∀ s l, G s → G { s with weakRefs := l })
    (hheap : ∀ s f, G s → G { s with heap := f }) : Assessable gen σ c k fun s => F s ∧ G s where
  toStable := hG
  addWeak s src dst h hsrc hdst := ⟨hF.addWeak s src dst h.1 hsrc hdst, hweakRefs s _ h.2⟩
  prune s a row col d h hk hrow hr hcol hweak hsub :=
    ⟨hF.prune s a row col d h.1 hk hrow hr hcol hweak hsub, hheap s _ h.2⟩

/-- `ks` referred weakly to the committed version of the row with key `k`. -/
def Source (c : Db n) (k ks : Key n) : Prop :=
  ∃ w ∈ c.weakRefs, c.rows.lookup k = some w.dst ∧ c.rows.lookup ks = some w.src

/-- The source of a committed weak reference is pulled into the transaction. -/
lemma pullSource_spec (hc : Committed c) (hF : Pullable gen c F) {w : WeakRef}
    (hw : w ∈ c.weakRefs) : Spec F (pullSource gen w)
      (fun _ s => F s ∧ HasTxnRows (fun ks => c.rows.lookup ks = some w.src) s) E := by
  obtain ⟨⟨ks, hks⟩, -⟩ := hc.weak w hw
  obtain ⟨row, hrow, rfl⟩ := hc.row ks w.src hks
  have hheap : ∀ s, F s → s.heap w.src = some row := fun s hs => by
    rw [(hF.within s hs).heap _ (hc.lt_next hrow), hrow]
  have huniq : ∀ s, (∃ r, s.txnRows.lookup row.key = some r) →
      HasTxnRows (fun ks => c.rows.lookup ks = some w.src) s := by
    intro s hr ks hks'
    exact (Within.refl hc).key_eq hc hks' hrow ▸ hr
  refine deref_reads.bind_of hheap (Spec.get_bind fun s hFs => ?_)
  · refine Spec.ite (fun hsome => Spec.pure ?_) fun hnone => ?_
    · rintro _ rfl
      exact ⟨hFs, huniq _ (Option.isSome_iff_exists.1 hsome)⟩
    · rw [Option.not_isSome_iff_eq_none] at hnone
      refine Spec.bind ((txnRowModify_spec hc hF (k := row.key)).pre ?_)
        fun b => Spec.pure ?_
      · rintro _ rfl
        exact ⟨hFs, by rw [((hF.within _ hFs).rows _).untouched hnone, hks]⟩
      · rintro s1 ⟨hFs1, -, r, hr, -⟩
        exact ⟨hFs1, huniq s1 ⟨r, hr⟩⟩

/-- The first loop of `assess_weak_refs()` pulls the rows that refer to this one into the
transaction. -/
lemma pullSources_spec (hc : Committed c) (hF : Pullable gen c F) {old : ℕ}
    (hold : c.rows.lookup k = some old) : Spec F
      (do Prog.each (pullSource gen) ((← Prog.get).weakRefs.filter fun w => w.dst = old))
      (fun _ s => F s ∧ HasTxnRows (Source c k) s) E := by
  refine Spec.get_bind fun s0 hs0 => ?_
  have hmem : ∀ w,
      w ∈ s0.weakRefs.filter (fun w => w.dst = old) ↔ w ∈ c.weakRefs ∧ w.dst = old := by
    intro w
    rw [mem_filter, decide_eq_true_eq]
    -- new weak references lead to new versions only
    have hw := hF.within s0 hs0
    obtain ⟨added, hadd, hall⟩ := hw.weak
    rw [hadd, mem_append]
    refine and_congr_left fun hdst => or_iff_left fun hmem => ?_
    obtain ⟨k', r, hr, hnew⟩ := (hall w hmem).2
    have hle := ((hw.rows k').cell r w.dst hr hnew).1
    have hlt := hc.cell_lt_next hold
    omega
  refine (Spec.each (fun pre s => F s ∧
    HasTxnRows (fun ks => ∃ w ∈ pre, c.rows.lookup ks = some w.src) s) ?_).conseq ?_ ?_
    (fun _ _ h => h)
  · intro pre w post hlist
    have hw : w ∈ c.weakRefs := ((hmem w).1 (by rw [hlist]; simp)).1
    refine (pullSource_spec hc (hF.and_hasTxnRows fun ks =>
      ∃ w ∈ pre, c.rows.lookup ks = some w.src) hw).post ?_
    rintro _ s ⟨⟨hFs, hpre⟩, hnow⟩
    refine ⟨hFs, ?_⟩
    rintro ks ⟨v, hv, hks⟩
    rcases mem_append.1 hv with hv | hv
    · exact hpre ks ⟨v, hv, hks⟩
    · rw [mem_singleton.1 hv] at hks
      exact hnow ks hks
  · rintro _ rfl
    exact ⟨hs0, by rintro ks ⟨w, hw, -⟩; simp at hw⟩
  · rintro _ s ⟨hFs, hT⟩
    refine ⟨hFs, ?_⟩
    rintro ks ⟨w, hw, hk, hks⟩
    rw [hold, Option.some.injEq] at hk
    exact hT ks ⟨w, (hmem w).2 ⟨hw, hk.symm⟩, hks⟩

/-- The row with key `k` has been assessed, and so will be the rows that referred to it. -/
structure Settled (σ : Schema n) (c : Db n) (k : Key n) (s : Db n) : Prop where
  txnRow : ∃ r, s.txnRows.lookup k = some r
  assessed : ∀ a, s.rows.lookup k = some a → Assessed a (σ.table k.1).columns s
  sources : HasTxnRows (Source c k) s

/-- **`assess_weak_refs()`.** -/
lemma assessWeakRefs_spec (hc : Committed c) (hF : Assessable gen σ c k F) (V : Contents n)
    (Live : Key n → Prop) (hlive : ∀ s, F s → ∀ x, s.rows.lookup x = none → ¬ Live x)
    (hH : H → ∀ data, V k = some data → ∀ x ∈ weakTargets σ k data, Live x) :
    Spec (fun s => (F s ∧ (H → s.contents = V)) ∧ ∃ r, s.txnRows.lookup k = some r)
      (assessWeakRefs σ gen k)
      (fun _ s => (F s ∧ (H → s.contents = V)) ∧ Settled σ c k s) (fun _ s => F s ∧ ¬ H) := by
  refine txnRow_reads.bind_exists (fun s hs => hs.2) fun r => Spec.intro fun s0 hs0 => ?_
  obtain ⟨⟨⟨hFs, hV⟩, -⟩, hr⟩ := hs0
  have hrow := (hF.within s0 hFs).rows k
  have hF1 := hF.and_stable (hF.toStable.and_linked k r.new) (fun _ _ h => h) fun _ _ h => h
  refine Spec.bind (Q := fun _ s => (((F s ∧ Linked k r.new s) ∧ (H → s.contents = V)) ∧
    HasTxnRows (Source c k) s)) (Spec.pre (P := fun s => (F s ∧ Linked k r.new s) ∧
      (H → s.contents = V)) (Spec.ifSome (fun hnone s hs => ⟨hs, ?_⟩) fun old hold => ?_) ?_)
    fun _ => Spec.ifSome (fun hnone s hs => ?_) fun a ha => ?_
  · rintro ks ⟨w, -, hk, -⟩
    rw [← hrow.old r hr, hnone] at hk
    cases hk
  · exact pullSources_spec hc (hF1.toLinkable.and_contents hc H V).toPullable
      (by rw [← hrow.old r hr, hold])
  · rintro _ rfl
    exact ⟨⟨hFs, (hrow.new r hr).symm, r, hr⟩, hV⟩
  · obtain ⟨⟨⟨hFs, hlink⟩, hV⟩, hsrc⟩ := hs
    refine ⟨⟨hFs, hV⟩, hlink.2, fun a ha => ?_, hsrc⟩
    rw [hlink.1, hnone] at ha
    cases ha
  · refine (Spec.each (fun pre s => (((F s ∧ Linked k r.new s) ∧ HasTxnRows (Source c k) s) ∧
      (H → s.contents = V)) ∧ Assessed a pre s) ?_).conseq ?_ ?_ (fun _ _ h => h)
    · intro pre col post hcols
      refine (assessColumn_spec hc (hF1.and_stable (hF1.toStable.and_hasTxnRows (Source c k))
        (fun _ _ h => h) fun _ _ h => h) (fun s hs => by rw [← ha]; exact hs.1.2)
        (fun s hs => hlive s hs.1.1) (by rw [hcols]; simp) (fun col' hcol' heq => ?_)
        (fun h data hdata x hx => ?_)).conseq (fun _ hs => hs) (fun _ _ hs => hs)
        fun _ s hs => ⟨hs.1.1.1, hs.2⟩
      · have hnodup := (σ.table k.1).index_nodup
        rw [hcols, map_append, nodup_append] at hnodup
        exact hnodup.2.2 _ (mem_map_of_mem hcol') _ mem_cons_self heq
      · refine hH h data hdata x (mem_flatMap.2 ⟨col, ?_, hx⟩)
        rw [hcols]
        simp
    · rintro s ⟨⟨hs, hV⟩, hsrc⟩
      exact ⟨⟨⟨hs, hsrc⟩, hV⟩, fun _ _ col hcol => absurd hcol not_mem_nil⟩
    · rintro _ s ⟨⟨⟨⟨hFs, hlink⟩, hsrc⟩, hV⟩, hassessed⟩
      refine ⟨⟨hFs, hV⟩, hlink.2, fun b hb => ?_, hsrc⟩
      rw [hlink.1, ha, Option.some.injEq] at hb
      subst hb
      exact hassessed

end Row

/-! ## All rows of the transaction -/

section All

variable {k : Key n}

/-- The rows of the tables are those of `s₀`. -/
def SameRows (s₀ s : Db n) : Prop := ∀ x, s.rows.lookup x = none ↔ s₀.rows.lookup x = none

lemma Assessable.and_sameRows (hF : Assessable gen σ c k F) (s0 : Db n) :
    Assessable gen σ c k fun s => F s ∧ SameRows s0 s := by
  refine hF.and_stable (hF.toStable.and (fun s a row _ h _ hrows _ x => ?_)
    (fun _ _ _ _ h _ _ => h) fun _ h => h) (fun _ _ h => h) fun _ _ h => h
  rw [← h x]
  by_cases hx : x = row.key
  · subst hx
    simp [hrows]
  · simp [hx]

/-- What an assessment has established survives steps that keep the rows of the transaction. -/
lemma Settled.of_step {k' : Key n} (h : Settled σ c k' s)
    (hrows : s'.rows.lookup k' = s.rows.lookup k')
    (htxn : ∀ x, (∃ r, s.txnRows.lookup x = some r) → ∃ r, s'.txnRows.lookup x = some r)
    (hcell : ∀ a, s.rows.lookup k' = some a → s'.heap a = s.heap a)
    (hreached : ∀ a x, Reached a x s → Reached a x s') : Settled σ c k' s' := by
  refine ⟨htxn k' h.txnRow, fun a ha row hrow col hcol x hx => ?_, fun ks hks =>
    htxn ks (h.sources ks hks)⟩
  rw [hrows] at ha
  rw [hcell a ha] at hrow
  exact hreached a x (h.assessed a ha row hrow col hcol x hx)

lemma Assessable.and_settled (hc : Committed c) (hF : Assessable gen σ c k F)
    {done : List (Key n)} (hk : k ∉ done) :
    Assessable gen σ c k fun s => F s ∧ ∀ k' ∈ done, Settled σ c k' s where
  toStable := by
    refine hF.toStable.and (fun s a row hs h hrow hrows hr k' hk' => ?_)
      (fun _ k1 _ r' h _ _ k' hk' => (h k' hk').of_step rfl (fun x hx => exists_putTxnRow hx r')
        (fun _ _ => rfl) fun _ x hx => hx.putTxnRow k1 r')
      fun _ h k' hk' => (h k' hk').of_step rfl (fun _ hr => hr) (fun _ _ => rfl) fun _ _ hx => hx
    refine (h k' hk').of_step ?_ (fun x hx => exists_putTxnRow hx _) (fun b hb => ?_)
      fun _ x hx => hx.clone hr
    · simp [ne_of_txnRow (h k' hk').txnRow hr]
    · obtain ⟨row', hrow', -⟩ := (hF.within s hs).row hc hb
      exact update_of_ne ((hF.within s hs).lt_next hrow').ne _ _
  addWeak s src dst h hsrc hdst := by
    refine ⟨hF.addWeak s src dst h.1 hsrc hdst, fun k' hk' => (h.2 k' hk').of_step rfl
      (fun _ hr => hr) (fun _ _ => rfl) fun a x hx => ?_⟩
    obtain ⟨b, hb, hr, hw⟩ := hx
    exact ⟨b, hb, hr, hw.imp id fun hw => mem_append_left _ hw⟩
  prune s a row col d h hrows hrow hr hcol hweak hsub := by
    refine ⟨hF.prune s a row col d h.1 hrows hrow hr hcol hweak hsub, fun k' hk' =>
      (h.2 k' hk').of_step rfl (fun _ hr => hr) (fun b hb => ?_) fun _ _ hx => hx⟩
    -- another row is in another cell
    refine update_of_ne ?_ _ _
    rintro rfl
    exact hk ((hF.within s h.1).cell_inj hc hb hrows ▸ hk')

variable (σ) in
/-- No weak reference dangles. -/
def WeakResolved (V : Contents n) : Prop :=
  ∀ k data, V k = some data → ∀ x ∈ weakTargets σ k data, V x ≠ none

/-- **`assess_weak_refs()`** for all rows of the transaction. -/
lemma forEach_assessWeakRefs (hc : Committed c) (hS : Stable gen c True F)
    (hF : ∀ k, Assessable gen σ c k F) {s0 : Db n} (hs0 : F s0) (order : ℕ → ℕ) :
    Spec (· = s0) (forEachTxnRow order (assessWeakRefs σ gen))
      (fun _ s => F s ∧ SameRows s0 s ∧ (WeakResolved σ s0.contents → s.contents = s0.contents) ∧
        ∀ k r, s.txnRows.lookup k = some r → Settled σ c k s)
      (fun _ s => F s ∧ ¬ WeakResolved σ s0.contents) := by
  set H := WeakResolved σ s0.contents with hH
  refine forEachTxnRow_total (fun done s => ((((F s ∧ ∀ k, s.Has k → s0.Has k) ∧ SameRows s0 s) ∧
    ∀ k' ∈ done, Settled σ c k' s) ∧ (H → s.contents = s0.contents))) ?_ ?_ ?_ ?_
  · exact ⟨⟨⟨⟨hs0, fun _ h => h⟩, fun _ => Iff.rfl⟩, fun k hk => absurd hk not_mem_nil⟩,
      fun _ => rfl⟩
  · intro done s hs k r hr
    exact hs.1.1.1.2 k (.inr (by simp [hr]))
  · intro done s k r hs hr hk
    have hhas := (hF k).and_stable ((hF k).toStable.and_has s0.Has) (fun _ _ h => h) fun _ _ h => h
    have hF' := (hhas.and_sameRows s0).and_settled hc hk
    refine (assessWeakRefs_spec hc hF' s0.contents (fun x => s0.contents x ≠ none) ?_ ?_).conseq
      ?_ ?_ fun _ s hs => ⟨hs.1.1.1.1, hs.2⟩
    · intro s hs x hx hlive
      rw [Ne, (hS.within s0 hs0).contents_eq_none_iff hc, ← hs.1.2 x] at hlive
      exact hlive hx
    · exact fun h data hdata x hx => h k data hdata x hx
    · rintro _ rfl
      exact ⟨hs, r, hr⟩
    · rintro _ s ⟨⟨⟨hs', hdone⟩, hV⟩, hsettled⟩
      refine ⟨⟨hs', fun k' hk' => ?_⟩, hV⟩
      rcases mem_cons.1 hk' with rfl | hk'
      · exact hsettled
      · exact hdone k' hk'
  · rintro done s ⟨⟨⟨⟨hFs, hhas⟩, hsame⟩, hdone⟩, hV⟩ hall
    refine ⟨hS.drop s hFs, hsame, hV, fun k r hr => (hdone k (hall k r hr)).of_step rfl
      (fun _ hr => hr) (fun _ _ => rfl) fun _ _ hx => hx⟩

end All

end Ovsdb

end OVS
