import OpenVSwitch.Dpif.Emc

/-!
# What the exact match cache returns is installed

Nothing takes a deleted flow out of the cache.  What makes `emc_lookup()` right all the same is
`dead`, which deleting a flow sets, and the reference that an entry has, which keeps the flow's
memory.

* `FlowsOk` — a flow that is not dead is installed, and the other way round.
* `CacheOk` — the flow of an entry matches the key of the entry.  Neither ever changes: a flow
  keeps its match, and an entry gets a new key only together with a flow that matches it.
* **`emc_coherent`** — what `emc_lookup()` returns is installed and matches the key.
-/

namespace OVS

namespace Dpif

open List Function Pmd
open FlowKey hiding get

/-- The flow is in the classifier. -/
def Pmd.Installed (s : Pmd) (id : ℕ) : Prop := ∃ st ∈ s.subtables, id ∈ st.rules

/-- The masked match of the flow with an identity matches a key. -/
def Pmd.Matches (s : Pmd) (id : ℕ) (key : FlowKey) : Prop :=
  ∃ f ∈ s.flows, f.id = id ∧ f.matchesKey key = true

/-- The flows, the classifier, and what says that a flow is in it. -/
structure FlowsOk (s : Pmd) : Prop where
  fresh : ∀ f ∈ s.flows, f.id < s.flows.length
  nodup : (s.flows.map DpFlow.id).Nodup
  installed : ∀ f ∈ s.flows, f.dead = false ↔ s.Installed f.id
  masks : ∀ st ∈ s.subtables, st.mask.Complete

/-- The entries of the cache, and what will be put there. -/
structure CacheOk (s : Pmd) : Prop where
  complete : ∀ i, (s.entries i).key.Complete
  cached : ∀ i id, (s.entries i).flow = some id → s.Matches id (s.entries i).key
  found : ∀ p ∈ s.found, p.1.Complete ∧ s.Matches p.2 p.1

/-! ## Flows -/

variable {s s' : Pmd} {key : FlowKey} {id i : ℕ} {ce : EmcEntry}

/-- A flow found by its identifier is in the list of flows under that identifier. -/
lemma Pmd.flow_mem {f : DpFlow} (h : s.flow id = some f) : f ∈ s.flows ∧ f.id = id :=
  ⟨mem_of_find?_eq_some h, by simpa using find?_some h⟩

/-- A state in which flows have changed only in `dead` and in their references. -/
def Pmd.SameMatches (s s' : Pmd) : Prop :=
  s'.flows.map (fun f => (f.id, f.mask, f.flow)) = s.flows.map fun f => (f.id, f.mask, f.flow)

/-- Whether a flow matches a key depends on the flows and their masks only. -/
lemma Pmd.SameMatches.matches (h : s.SameMatches s') (hm : s.Matches id key) :
    s'.Matches id key := by
  obtain ⟨f, hf, hid, hkey⟩ := hm
  have hmem : (f.id, f.mask, f.flow) ∈ s'.flows.map fun f => (f.id, f.mask, f.flow) := by
    rw [h]
    exact mem_map_of_mem hf
  obtain ⟨f', hf', heq⟩ := mem_map.1 hmem
  simp only [Prod.mk.injEq] at heq
  obtain ⟨h1, h2, h3⟩ := heq
  refine ⟨f', hf', h1.trans hid, ?_⟩
  unfold DpFlow.matchesKey
  rw [h2, h3]
  exact hkey

/-- A state that differs in references and in the cache. -/
structure Pmd.Recounted (s s' : Pmd) : Prop where
  flows : s'.flows.map (fun f => { f with refCnt := 0 }) =
    s.flows.map fun f => { f with refCnt := 0 }
  subtables : s'.subtables = s.subtables
  found : s'.found = s.found
  sweepIdx : s'.sweepIdx = s.sweepIdx

lemma Pmd.Recounted.refl (s : Pmd) : s.Recounted s := ⟨rfl, rfl, rfl, rfl⟩

lemma Pmd.Recounted.trans {s'' : Pmd} (h : s.Recounted s') (h' : s'.Recounted s'') :
    s.Recounted s'' :=
  ⟨h'.flows.trans h.flows, h'.subtables.trans h.subtables, h'.found.trans h.found,
    h'.sweepIdx.trans h.sweepIdx⟩

lemma Pmd.recounted_setEntry : s.Recounted (s.setEntry i ce) :=
  ⟨rfl, rfl, rfl, rfl⟩

/-- Writing the reference count of a flow changes counts only. -/
lemma Pmd.recounted_modifyFlow (s : Pmd) (id : ℕ) (r : DpFlow → ℕ) :
    s.Recounted (s.modifyFlow id fun f => { f with refCnt := r f }) where
  flows := by
    unfold modifyFlow
    rw [map_map]
    refine map_congr_left fun f _ => ?_
    by_cases hid : f.id = id <;> simp [hid]
  subtables := rfl
  found := rfl
  sweepIdx := rfl

/-- A projection that ignores reference counts is the same before and after. -/
lemma Pmd.Recounted.map_eq (h : s.Recounted s') {α : Type*} (p : DpFlow → α)
    (hp : ∀ f, p { f with refCnt := 0 } = p f) : s'.flows.map p = s.flows.map p := by
  have hflows := congrArg (map p) h.flows
  rw [map_map, map_map] at hflows
  simpa only [comp_def, hp] using hflows

lemma Pmd.Recounted.sameMatches (h : s.Recounted s') : s.SameMatches s' :=
  h.map_eq _ fun _ => rfl

lemma Pmd.Recounted.mem (h : s.Recounted s') {f' : DpFlow} (hf : f' ∈ s'.flows) :
    ∃ f ∈ s.flows, f.id = f'.id ∧ f.dead = f'.dead := by
  have hmem : (f'.id, f'.dead) ∈ s.flows.map fun f => (f.id, f.dead) := by
    rw [← h.map_eq (fun f => (f.id, f.dead)) fun _ => rfl]
    exact mem_map_of_mem hf
  obtain ⟨f, hf, heq⟩ := mem_map.1 hmem
  exact ⟨f, hf, congrArg Prod.fst heq, congrArg Prod.snd heq⟩

/-- The invariant of the flow table does not speak of reference counts. -/
lemma FlowsOk.recounted (hs : FlowsOk s) (h : s.Recounted s') : FlowsOk s' where
  fresh f' hf' := by
    obtain ⟨f, hf, hid, -⟩ := h.mem hf'
    have hlen : s'.flows.length = s.flows.length := by
      simpa using congrArg length h.flows
    rw [← hid, hlen]
    exact hs.fresh f hf
  nodup := by
    rw [h.map_eq DpFlow.id fun _ => rfl]
    exact hs.nodup
  installed f' hf' := by
    obtain ⟨f, hf, hid, hdead⟩ := h.mem hf'
    rw [← hdead, ← hid, hs.installed f hf, Pmd.Installed, Pmd.Installed, h.subtables]
  masks := by
    rw [h.subtables]
    exact hs.masks

/-! ## Entries -/

/-- The second half of `emcChangeFlow`: an entry without a flow gets one, if the flow has
references. -/
def emcHold (s : Pmd) (i id : ℕ) : Pmd :=
  match s.flowRef id with
  | some s' => s'.setEntry i { s.entries i with flow := some id }
  | none => s

/-- Clearing an entry drops its flow and leaves its key where it was. -/
lemma emcClearEntry_entries (s : Pmd) (i : ℕ) :
    (emcClearEntry s i).entries =
      update s.entries i { s.entries i with flow := none } := by
  unfold emcClearEntry
  split
  · rename_i hnone
    rw [← hnone]
    exact (update_eq_self i s.entries).symm
  · rfl

/-- Clearing an entry releases at most one reference. -/
lemma recounted_emcClearEntry (s : Pmd) (i : ℕ) : s.Recounted (emcClearEntry s i) := by
  unfold emcClearEntry
  split
  · exact .refl s
  · exact (s.recounted_modifyFlow _ _).trans (recounted_setEntry)

lemma Pmd.flowRef_setEntry :
    (s.setEntry i ce).flowRef id = (s.flowRef id).map (·.setEntry i ce) := by
  unfold flowRef
  rw [show (s.setEntry i ce).flow id = s.flow id from rfl]
  cases s.flow id with
  | none => rfl
  | some f => by_cases hf : f.refCnt = 0 <;> simp [hf, setEntry, modifyFlow]

/-- Changing the flow of an entry is clearing it and taking a reference, unless the flow is the
same. -/
lemma emcChangeFlow_eq : emcChangeFlow s i id =
      if (s.entries i).flow = some id then s else emcHold (emcClearEntry s i) i id := by
  unfold emcChangeFlow emcHold emcClearEntry
  split
  · rfl
  · cases hold : (s.entries i).flow with
    | none =>
      have hself : s.setEntry i { s.entries i with flow := none } = s := by
        rw [← hold]
        exact congrArg (fun e => { s with entries := e }) (update_eq_self i s.entries)
      simp only
      cases s.flowRef id with
      | none => exact hself
      | some s' => rfl
    | some old =>
      simp only [flowRef_setEntry]
      cases (s.flowUnref old).flowRef id with
      | none => rfl
      | some s' => simp [setEntry]

/-- The new flow is stored only when a reference to it could be taken. -/
lemma emcHold_spec (s : Pmd) (i id : ℕ) :
    s.Recounted (emcHold s i id) ∧ ((emcHold s i id).entries = s.entries ∨
      (emcHold s i id).entries =
        update s.entries i { s.entries i with flow := some id }) := by
  unfold emcHold flowRef
  cases s.flow id with
  | none => exact ⟨.refl s, .inl rfl⟩
  | some f =>
    simp only
    split
    · rename_i s' hs'
      split at hs'
      · cases hs'
      · cases hs'
        exact ⟨(s.recounted_modifyFlow _ _).trans (recounted_setEntry), .inr rfl⟩
    · exact ⟨.refl s, .inl rfl⟩

/-- What `emc_change_entry()` does to the flow of an entry: its key stays, and it has the new flow
or none. -/
lemma emcChangeFlow_spec (s : Pmd) (i id : ℕ) :
    s.Recounted (emcChangeFlow s i id) ∧ ∃ o, (∀ id', o = some id' → id' = id) ∧
      (emcChangeFlow s i id).entries =
        update s.entries i { s.entries i with flow := o } := by
  rw [emcChangeFlow_eq]
  split
  · rename_i hsame
    refine ⟨.refl s, some id, fun _ h => (Option.some.inj h).symm, ?_⟩
    rw [← hsame]
    exact (update_eq_self i s.entries).symm
  · obtain ⟨hrec, hentries⟩ := emcHold_spec (emcClearEntry s i) i id
    refine ⟨(recounted_emcClearEntry s i).trans hrec, ?_⟩
    rw [emcClearEntry_entries] at hentries
    obtain h | h := hentries
    · exact ⟨none, by simp, h⟩
    · exact ⟨some id, fun _ h => (Option.some.inj h).symm, by rw [h]; simp⟩

/-- After a change the entry holds the new flow or none, under the new key if one was given. -/
lemma emcChangeEntry_spec (s : Pmd) (i id : ℕ) (key : Option FlowKey) :
    s.Recounted (emcChangeEntry s i id key) ∧ ∃ o, (∀ id', o = some id' → id' = id) ∧
      (emcChangeEntry s i id key).entries = update s.entries i
        ⟨o, key.elim (s.entries i).key (s.entries i).key.clone⟩ := by
  obtain ⟨hrec, o, ho, hentries⟩ := emcChangeFlow_spec s i id
  cases key with
  | none => exact ⟨hrec, o, ho, hentries⟩
  | some key =>
    refine ⟨hrec.trans (recounted_setEntry), o, ho, ?_⟩
    simp [emcChangeEntry, setEntry, hentries]

/-- `emc_insert()` changes one entry: one whose key is the key, which stays, or another, which gets
the key. -/
lemma emcInsertLoop_cases (s : Pmd) (key : FlowKey) (id : ℕ) (is : List ℕ) (o : Option ℕ) :
    emcInsertLoop s key id is o = s ∨
      (∃ i ∈ is, (s.entries i).key.equal key = true ∧
        emcInsertLoop s key id is o = emcChangeEntry s i id none) ∨
      ∃ i, (i ∈ is ∨ o = some i) ∧
        emcInsertLoop s key id is o = emcChangeEntry s i id (some key) := by
  fun_induction emcInsertLoop s key id is o with
  | case1 => exact .inl rfl
  | case2 i => exact .inr (.inr ⟨i, .inr rfl, rfl⟩)
  | case3 current rest replaced heq =>
    exact .inr (.inl ⟨current, mem_cons_self, heq, rfl⟩)
  | case4 current rest replaced heq ih =>
    obtain ih | ⟨i, hi, heq', ih⟩ | ⟨i, hi, ih⟩ := ih
    · exact .inl ih
    · exact .inr (.inl ⟨i, mem_cons_of_mem _ hi, heq', ih⟩)
    · refine .inr (.inr ⟨i, ?_, ih⟩)
      obtain hi | hi := hi
      · exact .inl (mem_cons_of_mem _ hi)
      · cases replaced with
        | none => exact .inl (Option.some.inj hi ▸ mem_cons_self)
        | some t =>
          unfold toBeReplaced at hi
          simp only at hi
          split at hi
          · exact .inl (Option.some.inj hi ▸ mem_cons_self)
          · exact .inr hi

/-! ## Each step keeps the cache right -/

/-- An entry changes; its new flow, if any, matches its key. -/
lemma CacheOk.update (hs : CacheOk s) (h : s.Recounted s') {i : ℕ} {ce : EmcEntry}
    (hentries : s'.entries = update s.entries i ce) (hkey : ce.key.Complete)
    (hflow : ∀ id, ce.flow = some id → s.Matches id ce.key) : CacheOk s' where
  complete j := by
    rw [hentries]
    by_cases hj : j = i
    · subst hj
      simpa using hkey
    · simpa [hj] using hs.complete j
  cached j id hid := by
    refine h.sameMatches.matches ?_
    rw [hentries] at hid ⊢
    by_cases hj : j = i
    · subst hj
      simp only [update_self] at hid ⊢
      exact hflow id hid
    · simp only [update_of_ne hj] at hid ⊢
      exact hs.cached j id hid
  found p hp := by
    rw [h.found] at hp
    exact ⟨(hs.found p hp).1, h.sameMatches.matches (hs.found p hp).2⟩

lemma CacheOk.emcClearEntry (hs : CacheOk s) (i : ℕ) : CacheOk (emcClearEntry s i) :=
  hs.update (recounted_emcClearEntry s i) (emcClearEntry_entries s i) (hs.complete i) (by simp)

/-- Matching reads a key only through its expanded values. -/
lemma Pmd.Matches.congr {a b : FlowKey} (h : s.Matches id a) (heq : ∀ j, a.get j = b.get j) :
    s.Matches id b := by
  obtain ⟨f, hf, hid, hkey⟩ := h
  exact ⟨f, hf, hid, by simpa only [DpFlow.matchesKey, heq] using hkey⟩

/-- **What is inserted matches its key.**  In an entry that has the key already, the flow matches
what the entry has, since the two compare equal. -/
lemma CacheOk.emcInsert (hs : CacheOk s) (hfound : (key, id) ∈ s.found) :
    s.Recounted (emcInsert s key id) ∧ CacheOk (emcInsert s key id) := by
  obtain ⟨hkey, hmatch⟩ := hs.found _ hfound
  obtain h | ⟨i, -, heq, h⟩ | ⟨i, -, h⟩ :=
    emcInsertLoop_cases s key id (emcPositions key.hash) none
  · rw [Dpif.emcInsert, h]
    exact ⟨.refl s, hs⟩
  · obtain ⟨hrec, o, ho, hentries⟩ := emcChangeEntry_spec s i id none
    rw [Dpif.emcInsert, h]
    refine ⟨hrec, hs.update hrec hentries (hs.complete i) fun id' hid' => ?_⟩
    obtain rfl := ho id' hid'
    have hmem := (Bool.and_eq_true _ _ ▸ heq : _ ∧ _).2
    exact hmatch.congr fun j => (get_eq (hs.complete i) hmem j).symm
  · obtain ⟨hrec, o, ho, hentries⟩ := emcChangeEntry_spec s i id (some key)
    rw [Dpif.emcInsert, h]
    refine ⟨hrec, hs.update hrec hentries (hkey.clone _) fun id' hid' => ?_⟩
    obtain rfl := ho id' hid'
    exact hmatch.congr fun j => get_eq hkey (clone_words _ key) j

/-! ## Adding, removing and finding flows -/

section

variable {H : Hashing} {sts : List Subtable} {mask : FlowKey}

/-- Inserting a rule adds it to one subtable, an existing one or a new one, and removes none. -/
lemma mem_dpclsInsert :
    (∃ st ∈ (dpclsInsert id mask sts).1, i ∈ st.rules) ↔ i = id ∨ ∃ st ∈ sts, i ∈ st.rules := by
  fun_induction dpclsInsert id mask sts with
  | case1 => simp
  | case2 st sts heq => simp [or_assoc]
  | case3 st sts heq ih => simp [ih, or_left_comm]

lemma complete_dpclsInsert (hmask : mask.Complete) (h : ∀ st ∈ sts, st.mask.Complete) :
    ∀ st ∈ (dpclsInsert id mask sts).1, st.mask.Complete := by
  fun_induction dpclsInsert id mask sts with
  | case1 => simpa using hmask
  | case2 st sts heq => simpa using h
  | case3 st sts heq ih =>
    rw [forall_mem_cons] at h ⊢
    exact ⟨h.1, ih h.2⟩

/-- The mask that a new rule refers to has the words of its own. -/
lemma dpclsInsert_mask (h : ∀ st ∈ sts, st.mask.Complete) {j : ℕ} (hj : mask.map.getLsbD j = true) :
    (dpclsInsert id mask sts).2.mf (1 + count1Bits mask.map j) =
      mask.mf (1 + count1Bits mask.map j) := by
  fun_induction dpclsInsert id mask sts with
  | case1 => rfl
  | case2 st sts heq =>
    have hmem := (Bool.and_eq_true _ _ ▸ heq : _ ∧ _).2
    have hst := h st mem_cons_self
    have hget := get_eq hst hmem j
    have hmap : st.mask.map = mask.map := map_eq hst hmem
    simpa only [FlowKey.get, hmap, hj, if_true] using hget
  | case3 st sts heq ih => exact ih fun st hst => h st (mem_cons_of_mem _ hst)

variable {s : Pmd}

/-- Adding a flow takes a fresh identifier and enters it in the classifier, so the table stays
well formed. -/
lemma FlowsOk.add (hs : FlowsOk s) (flow mask : ℕ → BitVec 64) :
    FlowsOk (dpNetdevFlowAdd H s flow mask) where
  fresh := by
    simp only [dpNetdevFlowAdd, forall_mem_cons]
    exact ⟨Nat.lt_succ_self _, fun f hf => Nat.lt_succ_of_lt (hs.fresh f hf)⟩
  nodup := by
    simp only [dpNetdevFlowAdd, map_cons, nodup_cons, mem_map, not_exists]
    exact ⟨fun f hf => (hs.fresh f hf.1).ne hf.2, hs.nodup⟩
  installed := by
    simp only [dpNetdevFlowAdd, forall_mem_cons, Pmd.Installed, mem_dpclsInsert]
    refine ⟨by simp, fun f hf => ?_⟩
    have hne : f.id ≠ s.flows.length := (hs.fresh f hf).ne
    simpa [hne, Pmd.Installed] using hs.installed f hf
  masks := complete_dpclsInsert (complete_ofWords _ _) hs.masks

/-- A flow that matched a key still does after another flow was added. -/
lemma Pmd.Matches.add (h : s.Matches id key) (flow mask : ℕ → BitVec 64) :
    (dpNetdevFlowAdd H s flow mask).Matches id key := by
  obtain ⟨f, hf, hid, hkey⟩ := h
  exact ⟨f, mem_cons_of_mem _ hf, hid, hkey⟩

/-- **The flow that is added for a key matches it.** -/
lemma FlowsOk.matches_add (hs : FlowsOk s) (key : FlowKey) (mask : ℕ → BitVec 64) :
    (dpNetdevFlowAdd H s key.get mask).Matches s.flows.length key := by
  refine ⟨_, mem_cons_self, rfl, ?_⟩
  unfold DpFlow.matchesKey netdevFlowKeyInitMasked
  simp only [ofWords_map, all_eq_true, mem_filter, decide_eq_true_eq]
  rintro j ⟨-, hj⟩
  rw [dpclsInsert_mask hs.masks hj, ofWords_word _ hj]

/-- So every entry of the cache stays justified when a flow is added. -/
lemma CacheOk.add (hs : CacheOk s) (flow mask : ℕ → BitVec 64) :
    CacheOk (dpNetdevFlowAdd H s flow mask) where
  complete := hs.complete
  cached i id hid := (hs.cached i id hid).add flow mask
  found p hp := ⟨(hs.found p hp).1, (hs.found p hp).2.add flow mask⟩

/-- A key found in the classifier may be remembered with the flow it was found to match. -/
lemma CacheOk.found_cons (hs : CacheOk s) (hkey : key.Complete) (h : s.Matches id key) :
    CacheOk { s with found := (key, id) :: s.found } where
  complete := hs.complete
  cached := hs.cached
  found := forall_mem_cons.2 ⟨⟨hkey, h⟩, hs.found⟩

/-- Removing a rule takes it out of every subtable and leaves the others. -/
lemma mem_dpclsRemove (id : ℕ) (sts : List Subtable) (i : ℕ) :
    (∃ st ∈ dpclsRemove id sts, i ∈ st.rules) ↔ i ≠ id ∧ ∃ st ∈ sts, i ∈ st.rules := by
  simp only [dpclsRemove, mem_filter, mem_map, decide_eq_true_eq]
  constructor
  · rintro ⟨_, ⟨⟨st, hst, rfl⟩, -⟩, hi⟩
    simp only [mem_filter, decide_eq_true_eq] at hi
    exact ⟨hi.2, st, hst, hi.1⟩
  · rintro ⟨hne, st, hst, hi⟩
    have hmem : i ∈ st.rules.filter fun k => k ≠ id := by simpa using ⟨hi, hne⟩
    exact ⟨_, ⟨⟨st, hst, rfl⟩, ne_nil_of_mem hmem⟩, hmem⟩

/-- A removed flow is marked dead and loses one reference, and it stays in memory until the last
one. -/
lemma dpNetdevPmdRemoveFlow_flows : (dpNetdevPmdRemoveFlow s id).flows = s.flows.map fun f =>
      if f.id = id then { f with dead := true, refCnt := f.refCnt - 1 } else f := by
  simp only [dpNetdevPmdRemoveFlow, flowUnref, modifyFlow, map_map]
  refine map_congr_left fun f _ => ?_
  by_cases hid : f.id = id <;> simp [hid]

/-- The classifier and the mark agree after a removal, so no dead flow can be looked up. -/
lemma FlowsOk.remove (hs : FlowsOk s) (id : ℕ) : FlowsOk (dpNetdevPmdRemoveFlow s id) := by
  have hmem : ∀ f' ∈ (dpNetdevPmdRemoveFlow s id).flows, ∃ f ∈ s.flows, f'.id = f.id ∧
      (f'.dead = false ↔ f.id ≠ id ∧ f.dead = false) := by
    rw [dpNetdevPmdRemoveFlow_flows, forall_mem_map]
    intro f hf
    by_cases hid : f.id = id
    · exact ⟨f, hf, by simp [hid]⟩
    · exact ⟨f, hf, by simp [hid]⟩
  refine ⟨fun f' hf' => ?_, ?_, fun f' hf' => ?_, ?_⟩
  · obtain ⟨f, hf, hid, -⟩ := hmem f' hf'
    rw [hid, dpNetdevPmdRemoveFlow_flows, length_map]
    exact hs.fresh f hf
  · rw [dpNetdevPmdRemoveFlow_flows, map_map]
    convert hs.nodup using 1
    refine map_congr_left fun f _ => ?_
    by_cases hid : f.id = id <;> simp [hid]
  · obtain ⟨f, hf, hid, hdead⟩ := hmem f' hf'
    rw [hid, hdead, hs.installed f hf]
    exact (mem_dpclsRemove id s.subtables f.id).symm
  · intro st hst
    obtain ⟨st', hst', rfl⟩ := mem_map.1 (mem_filter.1 hst).1
    exact hs.masks st' hst'

/-- Entries of the cache that still name a removed flow are justified by what it matched. -/
lemma CacheOk.remove (hs : CacheOk s) (id : ℕ) : CacheOk (dpNetdevPmdRemoveFlow s id) := by
  have hsame : s.SameMatches (dpNetdevPmdRemoveFlow s id) := by
    unfold Pmd.SameMatches
    rw [dpNetdevPmdRemoveFlow_flows, map_map]
    refine map_congr_left fun f _ => ?_
    by_cases hid : f.id = id <;> simp [hid]
  exact
    { complete := hs.complete
      cached := fun i id' h => hsame.matches (hs.cached i id' h)
      found := fun p hp => ⟨(hs.found p hp).1, hsame.matches (hs.found p hp).2⟩ }

/-- A flow the classifier returns matches the key that was looked up. -/
lemma matches_dpclsLookup (h : dpclsLookup H s key = some id) : s.Matches id key := by
  obtain ⟨st, -, hst⟩ := exists_of_findSome?_eq_some h
  have hfound := find?_some hst
  cases hf : s.flow id with
  | none => simp [hf] at hfound
  | some f =>
    simp only [hf, Bool.and_eq_true] at hfound
    exact ⟨f, (flow_mem hf).1, (flow_mem hf).2, hfound.2⟩

/-! ## Every run -/

lemma FlowsOk.init : FlowsOk Pmd.init where
  fresh := by simp [Pmd.init]
  nodup := by simp [Pmd.init]
  installed := by simp [Pmd.init]
  masks := by simp [Pmd.init]

lemma CacheOk.init : CacheOk Pmd.init where
  complete _ := by
    show netdevFlowKeySize 0 =
      netdevFlowKeySize (count1Bits (BitVec.setWidth 63 (BitVec.twoPow 64 63)) 63)
    decide
  cached := by simp [Pmd.init]
  found := by simp [Pmd.init]

/-- One step of the thread keeps both invariants. -/
lemma Step.ok {s' : Pmd} (h : Step H s s') (hf : FlowsOk s) (hc : CacheOk s) :
    FlowsOk s' ∧ CacheOk s' := by
  cases h with
  | add flow mask => exact ⟨hf.add flow mask, hc.add flow mask⟩
  | remove hflow hdead => exact ⟨hf.remove _, hc.remove _⟩
  | lookup hkey hlookup =>
    exact ⟨{ hf with },
      hc.found_cons hkey (matches_dpclsLookup hlookup)⟩
  | @upcall key mask hkey =>
    have hf' : FlowsOk (dpNetdevFlowAdd H s key.get mask) := hf.add _ _
    exact ⟨{ hf' with },
      (hc.add key.get mask).found_cons hkey (hf.matches_add key mask)⟩
  | insert hfound => exact ⟨hf.recounted (hc.emcInsert hfound).1, (hc.emcInsert hfound).2⟩
  | sweep =>
    have hswept : FlowsOk (if emcEntryAlive s s.sweepIdx then s else emcClearEntry s s.sweepIdx) ∧
        CacheOk (if emcEntryAlive s s.sweepIdx then s else emcClearEntry s s.sweepIdx) := by
      split
      · exact ⟨hf, hc⟩
      · exact ⟨hf.recounted (recounted_emcClearEntry s _), hc.emcClearEntry _⟩
    obtain ⟨hf', hc'⟩ := hswept
    exact ⟨{ hf' with }, { hc' with }⟩
  | uninit =>
    exact foldlRecOn (motive := fun s => FlowsOk s ∧ CacheOk s) _ _ ⟨hf, hc⟩ fun s hs i _ =>
      ⟨hs.1.recounted (recounted_emcClearEntry s i), hs.2.emcClearEntry i⟩

/-- Both invariants hold in every state the thread can reach. -/
lemma Reachable.ok (h : Reachable H s) : FlowsOk s ∧ CacheOk s := by
  induction h with
  | init => exact ⟨.init, .init⟩
  | step _ hstep ih => exact hstep.ok ih.1 ih.2

/-- **What `emc_lookup()` returns is installed, and its masked match matches the key**, in every
interleaving of additions, removals, insertions into the cache and what else happens to it. -/
theorem emc_coherent {s : Pmd} (h : Reachable H s) {key : FlowKey} {id : ℕ}
    (hlookup : emcLookup s key = some id) : s.Installed id ∧ s.Matches id key := by
  obtain ⟨hf, hc⟩ := h.ok
  obtain ⟨i, -, hi⟩ := exists_of_findSome?_eq_some hlookup
  split at hi
  · rename_i hentry
    simp only [Bool.and_eq_true] at hentry
    obtain ⟨⟨-, halive⟩, hequal⟩ := hentry
    have hmatch := (hc.cached i id hi).congr (FlowKey.get_eq (hc.complete i) hequal)
    refine ⟨?_, hmatch⟩
    simp only [emcEntryAlive, hi] at halive
    cases hflow : s.flow id with
    | none => simp [hflow] at halive
    | some f =>
      obtain ⟨hmem, rfl⟩ := Pmd.flow_mem hflow
      exact (hf.installed f hmem).1 (by simpa [hflow] using halive)
  · cases hi

/-- A key with one word, its flow added for it and put into the cache. -/
def keyFive : FlowKey := .ofWords 7 1 fun _ => 5

/-- Words hash to zero, and only the first of them makes sense. -/
def plainHashing : Hashing := ⟨fun _ _ => 0, fun _ => 1⟩

/-- The state after an upcall for `keyFive`. -/
def cachedFive : Pmd :=
  emcInsert { dpNetdevFlowAdd plainHashing Pmd.init keyFive.get (fun _ => 255) with
    found := [(keyFive, 0)] } keyFive 0

theorem emc_coherent_cachedFive :
    Reachable plainHashing cachedFive ∧ emcLookup cachedFive keyFive = some 0 ∧
      cachedFive.Installed 0 ∧ cachedFive.Matches 0 keyFive := by
  have hreach : Reachable plainHashing cachedFive :=
    .step (.step .init (.upcall _ (fun _ => 255) (FlowKey.complete_ofWords _ _)))
      (.insert mem_cons_self)
  have hlookup : emcLookup cachedFive keyFive = some 0 := by decide +kernel
  exact ⟨hreach, hlookup, emc_coherent hreach hlookup⟩

end

end Dpif

end OVS
