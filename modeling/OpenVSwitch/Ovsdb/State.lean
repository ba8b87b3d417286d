import OpenVSwitch.Ovsdb.Transaction

/-!
# Rules for the code of a transaction

The row maps of a database are read through `AList.lookup`; `lookup_insert` and `lookup_erase`
say what a change of a map does to that.

`forEachTxnRow_total` is the rule for `for_each_txn_row()`: whatever the order, it ends, a property
that every callback preserves holds then, and every row of the transaction has been processed.
-/

namespace OVS

namespace Ovsdb

open List Prog

variable {n : ℕ}

section Maps

variable {β : Type} (m : AList fun _ : Key n => β) (k k' : Key n) (b : β)

@[simp] lemma lookup_insert :
    (m.insert k b).lookup k' = if k' = k then some b else m.lookup k' := by
  split
  · next h => rw [h, AList.lookup_insert]
  · next h => exact AList.lookup_insert_ne h

@[simp] lemma lookup_erase : (m.erase k).lookup k' = if k' = k then none else m.lookup k' := by
  split
  · next h => rw [h, AList.lookup_erase]
  · next h => exact AList.lookup_erase_ne h

lemma mem_keys_iff : k ∈ m.keys ↔ ∃ b, m.lookup k = some b := by
  rw [← AList.mem_keys, ← AList.lookup_isSome, Option.isSome_iff_exists]

end Maps

/-- There is a row, or the transaction knows about one. -/
def Db.Has (s : Db n) (k : Key n) : Prop := s.rows.lookup k ≠ none ∨ s.txnRows.lookup k ≠ none

section Rows

variable {gen : ℕ → Uuid} {s : Db n} {k k' : Key n} {a : ℕ} {row : Row n}

@[simp] lemma cloneRow_rows : (cloneRow gen s a row).rows = s.rows.insert row.key s.next := rfl

@[simp] lemma cloneRow_txnRows : (cloneRow gen s a row).txnRows =
    s.txnRows.insert row.key ⟨some a, some s.next, row.nRefs, fun _ => false⟩ := rfl

variable (h : ∃ r, s.txnRows.lookup k = some r)
include h

/-- A row of the transaction stays in it. -/
lemma exists_putTxnRow (r' : TxnRow) : ∃ r, (s.putTxnRow k' r').txnRows.lookup k = some r := by
  by_cases hk : k = k'
  · exact ⟨r', by simp [hk]⟩
  · simpa [hk] using h

lemma ne_of_txnRow (hnone : s.txnRows.lookup k' = none) : k ≠ k' := by
  rintro rfl
  simp [hnone] at h

end Rows

/-! ## Pointers -/

section Pointers

variable {α ρ : Type} {P : Db n → Prop} {R : α → Db n → Prop} {E : Stop n → Db n → Prop}
  {m : Code n ρ} {F : Db n → Option ρ} {f : ρ → Code n α}

/-- The program reads something that has to be there. -/
def Reads (m : Code n ρ) (F : Db n → Option ρ) : Prop :=
  ∀ s, m s = (F s).elim (.error .crash, s) fun x => (.ok x, s)

/-- Following a pointer to a row. -/
lemma deref_reads {a : ℕ} : Reads (deref (n := n) a) (·.heap a) := by
  intro s
  unfold deref
  cases h : s.heap a <;> simp [Bind.bind, Prog.get, h] <;> rfl

/-- Reading a row of the transaction. -/
lemma txnRow_reads {k : Key n} : Reads (getTxnRow k) (·.txnRows.lookup k) := by
  intro s
  unfold getTxnRow
  cases h : s.txnRows.lookup k <;> simp [Bind.bind, Prog.get, h] <;> rfl

namespace Reads

variable (hm : Reads m F)
include hm

lemma bind (hnone : ∀ s, P s → F s = none → E .crash s)
    (h : ∀ x, Spec (fun s => P s ∧ F s = some x) (f x) R E) : Spec P (m >>= f) R E := by
  refine Spec.bind (Q := fun x s => P s ∧ F s = some x) (fun s hs => ?_) h
  rw [hm s]
  cases hx : F s with
  | none => exact hnone s hs hx
  | some x => exact ⟨hs, hx⟩

/-- What is read is there. -/
lemma bind_exists (hex : ∀ s, P s → ∃ x, F s = some x)
    (h : ∀ x, Spec (fun s => P s ∧ F s = some x) (f x) R E) : Spec P (m >>= f) R E := by
  refine hm.bind (fun s hs hnone => ?_) h
  obtain ⟨x, hx⟩ := hex s hs
  rw [hnone] at hx
  cases hx

lemma bind_of {x : ρ} (hx : ∀ s, P s → F s = some x) (h : Spec P (f x) R E) :
    Spec P (m >>= f) R E := by
  refine hm.bind_exists (fun s hs => ⟨x, hx s hs⟩) fun y s ⟨hs, hy⟩ => ?_
  rw [hx s hs] at hy
  cases hy
  exact h s hs

/-- What is read is there, and something is known of it. -/
lemma bind_such {T : ρ → Prop} (hex : ∀ s, P s → ∃ x, F s = some x ∧ T x)
    (h : ∀ x, T x → Spec (fun s => P s ∧ F s = some x) (f x) R E) : Spec P (m >>= f) R E := by
  refine Spec.intro fun s hs => ?_
  obtain ⟨x, hx, hT⟩ := hex s hs
  exact hm.bind_of (fun s' hs' => hs' ▸ hx) ((h x hT).pre fun s' hs' => hs' ▸ ⟨hs, hx⟩)

end Reads

end Pointers

lemma pick_eq_none {α : Type} {i : ℕ} {l : List α} (h : pick i l = none) : l = [] := by
  rw [pick, getElem?_eq_none_iff] at h
  by_contra hne
  exact absurd (Nat.mod_lt i (length_pos_iff.2 hne)) (not_lt.2 h)

lemma dropEmptyTxnTables_eq_nil {s : Db n} (h : ∀ k, s.txnRows.lookup k = none) :
    s.dropEmptyTxnTables.txnTables = [] := by
  refine filter_eq_nil_iff.2 fun t _ hany => ?_
  obtain ⟨k, hk, -⟩ := any_eq_true.1 hany
  obtain ⟨r, hr⟩ := (mem_keys_iff _ _).1 hk
  rw [h k] at hr
  cases hr

section ForEach

variable {order : ℕ → ℕ} {cb : Key n → Code n Unit} {I : List (Key n) → Db n → Prop}
  {Q : Unit → Db n → Prop} {E : Stop n → Db n → Prop}

/-- **It ends**, if callbacks add rows to the transaction only for keys that there was a trace
of. -/
lemma forEachTxnRow_total (I : List (Key n) → Db n → Prop) {s : Db n} (hI : I [] s)
    (hkeys : ∀ done s', I done s' → ∀ k r, s'.txnRows.lookup k = some r → s.Has k)
    (hstep : ∀ done s k r, I done s → s.txnRows.lookup k = some r → k ∉ done →
      Spec (· = s) (cb k) (fun _ => I (k :: done)) E)
    (hend : ∀ done s, I done s → (∀ k r, s.txnRows.lookup k = some r → k ∈ done) →
      Q () s.dropEmptyTxnTables) :
    Spec (· = s) (forEachTxnRow order cb) Q E := by
  refine Spec.get_bind fun s' hs => ?_
  rw [hs]
  -- the rows visited are distinct, and all of them were there
  have hloop : ∀ fuel done, done.Nodup → done ⊆ s.rows.keys ++ s.txnRows.keys →
      s.rows.keys.length + s.txnRows.keys.length + 1 ≤ fuel + done.length →
      Spec (I done) (forEachLoop order cb fuel done) Q E := by
    intro fuel
    induction fuel with
    | zero =>
      intro done hnd hsub hlen
      have hle := (subperm_of_subset hnd hsub).length_le
      rw [length_append] at hle
      omega
    | succ fuel ih =>
      intro done hnd hsub hlen
      refine Spec.get_bind fun s' hs' => ?_
      split
      · next hnone =>
        refine Spec.modify fun s1 hs1 => ?_
        rw [hs1]
        refine hend done s' hs' fun k r hr => ?_
        have hmem : k ∈ s'.txnRows.keys := (mem_keys_iff _ _).2 ⟨r, hr⟩
        by_contra hk
        have hnil := pick_eq_none hnone
        simp only [filter_eq_nil_iff, decide_eq_true_eq] at hnil
        exact hnil k hmem hk
      · next k hsome =>
        have hk := mem_of_getElem? hsome
        simp only [mem_filter, decide_eq_true_eq, mem_keys_iff] at hk
        obtain ⟨⟨r, hr⟩, hnot⟩ := hk
        refine Spec.bind (hstep done s' k r hs' hr hnot) fun _ => ih (k :: done)
          (nodup_cons.2 ⟨hnot, hnd⟩) (cons_subset.2 ⟨mem_append.2 ?_, hsub⟩)
          (by simp only [length_cons]; omega)
        rw [mem_keys_iff, mem_keys_iff, ← Option.ne_none_iff_exists',
          ← Option.ne_none_iff_exists']
        exact hkeys done s' hs' k r hr
  refine (hloop _ [] nodup_nil (nil_subset _) (le_refl _)).pre ?_
  rintro _ rfl
  exact hI

end ForEach

end Ovsdb

end OVS
