import OpenVSwitch.Classifier.Model

/-!
# What holds of every classifier

Whatever sequence of operations a classifier has been through, all of its data structures agree on
which rules there are.

**Orders do not matter.**  Hash tables have no order, so everything is stated for lists up to
permutation: `SubtableOk C st es` describes a subtable with the heads `es`.  An operation changes
one head, which is put at the front.

**Matches and rules.**  The tries and the partitions depend on the matches that there are, not on
the rules (`TrieOk`, `PartitionsOk`).  They change when the first rule of a match comes and when
the last one goes.
-/

namespace OVS

open Flow List Classifier

/-! ## Lists of equal matches -/

/-- The list is by decreasing priority. -/
def ByPriority (l : List ClsMatch) : Prop := l.Pairwise fun a b => b.priority < a.priority

/-- What a rule that is inserted into a list does: it comes to the others, or takes the place of
one. -/
lemma insertInList_perm (new : ClsMatch) (l : List ClsMatch) :
    ((insertInList new l).2 = none ∧ (insertInList new l).1.Perm (new :: l)) ∨
      ∃ old l', (insertInList new l).2 = some old ∧ old.priority = new.priority ∧
        l.Perm (old :: l') ∧ (insertInList new l).1.Perm (new :: l') := by
  induction l with
  | nil => exact .inl ⟨rfl, .refl _⟩
  | cons iter rest ih =>
    unfold insertInList
    split
    · obtain ⟨hnone, hperm⟩ | ⟨old, l', hsome, hpri, hl, hperm⟩ := ih
      · exact .inl ⟨hnone, (hperm.cons iter).trans (.swap _ _ _)⟩
      · exact .inr ⟨old, iter :: l', hsome, hpri, (hl.cons iter).trans (.swap _ _ _),
          (hperm.cons iter).trans (.swap _ _ _)⟩
    · split
      · rename_i heq
        exact .inr ⟨iter, rest, rfl, heq.symm, .refl _, .refl _⟩
      · exact .inl ⟨rfl, .refl _⟩

lemma mem_insertInList {new m : ClsMatch} {l : List ClsMatch}
    (h : m ∈ (insertInList new l).1) : m = new ∨ m ∈ l := by
  obtain ⟨-, hperm⟩ | ⟨old, l', -, -, hl, hperm⟩ := insertInList_perm new l
  · exact mem_cons.1 (hperm.mem_iff.1 h)
  · obtain h | h := mem_cons.1 (hperm.mem_iff.1 h)
    · exact .inl h
    · exact .inr (hl.mem_iff.2 (mem_cons_of_mem _ h))

/-- **A list stays by decreasing priority.** -/
lemma ByPriority.insertInList {l : List ClsMatch} (h : ByPriority l) (new : ClsMatch) :
    ByPriority (insertInList new l).1 := by
  induction l with
  | nil => exact pairwise_singleton _ _
  | cons iter rest ih =>
    obtain ⟨hiter, hrest⟩ := pairwise_cons.1 h
    unfold OVS.insertInList
    split
    · rename_i hlt
      refine pairwise_cons.2 ⟨fun m hm => ?_, ih hrest⟩
      obtain rfl | hm := mem_insertInList hm
      · exact hlt
      · exact hiter m hm
    · split
      · rename_i heq
        exact pairwise_cons.2 ⟨fun m hm => heq ▸ hiter m hm, hrest⟩
      · have hlt : iter.priority < new.priority := by omega
        refine pairwise_cons.2 ⟨fun m hm => ?_, h⟩
        obtain rfl | hm := mem_cons.1 hm
        · exact hlt
        · exact (hiter m hm).trans hlt

lemma ClsHead.insert_list (e : ClsHead) (new : ClsMatch) :
    (e.insert new).1.list = (insertInList new e.list).1 ∧
      (e.insert new).2 = (insertInList new e.list).2 := by
  simp only [ClsHead.insert, ClsHead.list, insertInList]
  split
  · exact ⟨rfl, rfl⟩
  · split <;> exact ⟨rfl, rfl⟩

/-- The head of a list with a new rule. -/
lemma ClsHead.insert_head (e : ClsHead) (new : ClsMatch) :
    (new.priority < e.head.priority ∧ (e.insert new).1.head = e.head) ∨
      (e.head.priority ≤ new.priority ∧ (e.insert new).1.head = new) := by
  unfold ClsHead.insert
  split
  · rename_i hlt
    exact .inl ⟨hlt, rfl⟩
  · rename_i hle
    split <;> exact .inr ⟨not_lt.1 hle, rfl⟩

lemma ClsHead.insert_same (e : ClsHead) (new : ClsMatch) :
    (e.insert new).1.hash = e.hash ∧ (e.insert new).1.partition = e.partition := by
  unfold ClsHead.insert
  split
  · exact ⟨rfl, rfl⟩
  · split <;> exact ⟨rfl, rfl⟩

/-! ## Tries and partitions -/

section

variable (C : ClsConfig)

/-- The prefix of a match in a trie. -/
def triePrefix (trie : ClsTrie) (m : Match flowBits) : List Bool :=
  match trie.field with
  | none => []
  | some id => minimatchGetPrefix m (C.mfFromId id) (triePrefixLen C trie m.mask)

/-- The trie has the prefixes of the matches that have one. -/
structure TrieOk (trie : ClsTrie) (keys : List (Match flowBits)) : Prop where
  wf : trie.root.Wf
  count : ∀ p, trie.root.count p =
    keys.countP fun m => triePrefixLen C trie m.mask ≠ 0 ∧ triePrefix C trie m = p

/-- The tags of the subtables of the matches of a value of `metadata`. -/
def tagsOf (keys : List (Match flowBits)) (metadata : BitVec 64) : List (BitVec 32) :=
  (keys.filter fun m => Classifier.matchPartition m = some metadata).map
    fun m => subtableTag C m.mask

/-- There is a partition for each value of `metadata` that matches have, with their tags. -/
structure PartitionsOk (partitions : List ClsPartition) (keys : List (Match flowBits)) : Prop where
  nodup : (partitions.map ClsPartition.metadata).Nodup
  tracks : ∀ p ∈ partitions, p.tracker.Tracks (tagsOf C keys p.metadata)
  exist : ∀ metadata, metadata ∈ partitions.map ClsPartition.metadata ↔ tagsOf C keys metadata ≠ []

variable {C}

variable {trie : ClsTrie} {keys keys' : List (Match flowBits)} {m : Match flowBits}
  {partitions : List ClsPartition} {st : ClsSubtable} {e : ClsHead} {R : List ClsHead}
  {metadata : BitVec 64}

lemma TrieOk.congr (h : TrieOk C trie keys) (hkeys : keys.Perm keys') : TrieOk C trie keys' :=
  ⟨h.wf, fun p => (h.count p).trans (hkeys.countP_eq _)⟩

/-- A match without a prefix is not in the trie. -/
lemma TrieOk.cons_iff (hm : triePrefixLen C trie m.mask = 0) :
    TrieOk C trie (m :: keys) ↔ TrieOk C trie keys := by
  constructor <;> exact fun h => ⟨h.wf, fun p => by simpa [hm] using h.count p⟩

/-- **A match comes into the trie.** -/
lemma TrieOk.insert (h : TrieOk C trie keys) (hm : triePrefixLen C trie m.mask ≠ 0) :
    TrieOk C (trieInsert C trie m (triePrefixLen C trie m.mask)) (m :: keys) := by
  obtain ⟨_ | id, root⟩ := trie
  · exact absurd rfl hm
  refine ⟨h.wf.insert (by decide) _, fun p => (Trie.count_insert (by decide) ..).trans ?_⟩
  rw [h.count p, countP_cons]
  simp only [ne_eq, decide_eq_true_eq, eq_comm (a := p)]
  exact congrArg _ (if_congr (and_iff_right hm).symm rfl rfl)

/-- **A match goes from the trie.** -/
lemma TrieOk.remove (h : TrieOk C trie (m :: keys)) (hm : triePrefixLen C trie m.mask ≠ 0) :
    TrieOk C (trieRemove C trie m (triePrefixLen C trie m.mask)) keys := by
  obtain ⟨_ | id, root⟩ := trie
  · exact absurd rfl hm
  refine ⟨h.wf.remove _ _, fun p => (Trie.count_remove h.wf ..).trans ?_⟩
  rw [h.count p, countP_cons]
  simp only [ne_eq, decide_eq_true_eq, eq_comm (a := p)]
  exact Nat.sub_eq_of_eq_add (congrArg _ (if_congr (and_iff_right hm) rfl rfl))

/-! Partitions. -/

lemma tagsOf_cons : tagsOf C (m :: keys) metadata =
      if matchPartition m = some metadata then
        subtableTag C m.mask :: tagsOf C keys metadata
      else tagsOf C keys metadata := by
  unfold tagsOf
  by_cases h : matchPartition m = some metadata <;> simp [h]

lemma tagsOf_perm (h : keys.Perm keys') : (tagsOf C keys metadata).Perm (tagsOf C keys' metadata) :=
  (h.filter _).map _

lemma twoBits_subtableTag (mask : Flow) : TwoBits (subtableTag C mask) := by
  unfold subtableTag
  split
  · exact twoBits_tagCreateDeterministic _
  · exact twoBits_tagAll

lemma PartitionsOk.congr (h : PartitionsOk C partitions keys) (hkeys : keys.Perm keys') :
    PartitionsOk C partitions keys' where
  nodup := h.nodup
  tracks p hp := (h.tracks p hp).congr (tagsOf_perm hkeys)
  exist metadata := by
    rw [h.exist metadata, ← length_pos_iff, (tagsOf_perm hkeys).length_eq, length_pos_iff]

/-- A match without a partition. -/
lemma PartitionsOk.cons_iff (hm : matchPartition m = none) :
    PartitionsOk C partitions (m :: keys) ↔ PartitionsOk C partitions keys := by
  have htags : tagsOf C (m :: keys) = tagsOf C keys := funext fun _ => by simp [tagsOf_cons, hm]
  exact ⟨fun h => ⟨h.nodup, htags ▸ h.tracks, htags ▸ h.exist⟩,
    fun h => ⟨h.nodup, htags ▸ h.tracks, htags ▸ h.exist⟩⟩

lemma tagsOf_cons_of_ne (hm : matchPartition m = some metadata) {v : BitVec 64}
    (hv : v ≠ metadata) : tagsOf C (m :: keys) v = tagsOf C keys v := by
  rw [tagsOf_cons, if_neg fun h => hv (Option.some.inj (h.symm.trans hm))]

lemma map_metadata_update (g : Tracker → Tracker) : (partitions.map fun p =>
      if p.metadata = metadata then { p with tracker := g p.tracker } else p).map
        ClsPartition.metadata = partitions.map ClsPartition.metadata := by
  rw [map_map]
  refine map_congr_left fun p _ => ?_
  by_cases hp : p.metadata = metadata <;> simp [hp]

/-- **A match comes to a partition.** -/
lemma PartitionsOk.create (h : PartitionsOk C partitions keys)
    (hm : matchPartition m = some metadata) :
    PartitionsOk C (createPartition partitions (subtableTag C m.mask) metadata) (m :: keys) := by
  have hsame : tagsOf C (m :: keys) metadata = _ := tagsOf_cons.trans (if_pos hm)
  have hexist : ∀ v, v = metadata ∨ v ∈ partitions.map ClsPartition.metadata ↔
      tagsOf C (m :: keys) v ≠ [] := by
    intro v
    by_cases hv : v = metadata
    · subst hv
      simp [hsame]
    · rw [tagsOf_cons_of_ne hm hv, ← h.exist v]
      simp [hv]
  unfold createPartition
  split
  · rename_i hfind
    have hnew : metadata ∉ partitions.map ClsPartition.metadata := by
      simpa using find?_eq_none.1 hfind
    have hnil : tagsOf C keys metadata = [] := by
      simpa using mt (h.exist metadata).2 hnew
    refine ⟨nodup_cons.2 ⟨hnew, h.nodup⟩, forall_mem_cons.2 ⟨?_, fun p hp => ?_⟩, fun v => ?_⟩
    · simp only [hsame, hnil]
      exact Tracker.Tracks.init.add _
    · rw [tagsOf_cons_of_ne hm fun heq => hnew (heq ▸ mem_map_of_mem hp)]
      exact h.tracks p hp
    · rw [← hexist v, map_cons, mem_cons]
  · rename_i q hfind
    have hold : metadata ∈ partitions.map ClsPartition.metadata :=
      mem_map.2 ⟨q, mem_of_find?_eq_some hfind, by simpa using find?_some hfind⟩
    refine ⟨?_, forall_mem_map.2 fun p hp => ?_, fun v => ?_⟩
    · rw [map_metadata_update fun t => tagTrackerAdd t (subtableTag C m.mask)]
      exact h.nodup
    · by_cases hmeta : p.metadata = metadata
      · simp only [hmeta, if_true, hsame]
        exact (hmeta ▸ h.tracks p hp).add _
      · simp only [hmeta, if_false, tagsOf_cons_of_ne hm hmeta]
        exact h.tracks p hp
    · rw [← hexist v, map_metadata_update fun t => tagTrackerAdd t (subtableTag C m.mask)]
      exact ⟨.inr, fun hv => hv.elim (fun heq => heq ▸ hold) id⟩

/-- **A match goes from a partition**, and the partition goes with the last of them. -/
lemma PartitionsOk.subtract (h : PartitionsOk C partitions (m :: keys))
    (hm : matchPartition m = some metadata) :
    PartitionsOk C (subtractPartition partitions (subtableTag C m.mask) metadata)
      keys := by
  have hsame : tagsOf C (m :: keys) metadata = _ := tagsOf_cons.trans (if_pos hm)
  -- the partitions with the tag taken out
  have htracks : ∀ p ∈ partitions, Tracker.Tracks
      (if p.metadata = metadata then
        { p with tracker := tagTrackerSubtract p.tracker (subtableTag C m.mask) } else p).tracker
      (tagsOf C keys p.metadata) := by
    intro p hp
    by_cases hmeta : p.metadata = metadata
    · have hp' := h.tracks p hp
      rw [hmeta, hsame] at hp'
      simpa only [hmeta, if_true] using hp'.subtract
    · simpa only [hmeta, if_false, tagsOf_cons_of_ne hm hmeta] using h.tracks p hp
  have hne : ∀ v, ∀ tag ∈ tagsOf C keys v, tag ≠ 0 := by
    intro v tag htag
    obtain ⟨m', -, rfl⟩ := mem_map.1 htag
    exact (twoBits_subtableTag _).ne_zero
  refine ⟨?_, ?_, fun v => ?_⟩
  · refine Nodup.sublist (filter_sublist.map _) ?_
    rw [map_metadata_update fun t => tagTrackerSubtract t (subtableTag C m.mask)]
    exact h.nodup
  · intro p hp
    obtain ⟨q, hq, rfl⟩ := mem_map.1 (mem_filter.1 hp).1
    have hmeta : (if q.metadata = metadata then
        { q with tracker := tagTrackerSubtract q.tracker (subtableTag C m.mask) }
        else q).metadata = q.metadata := by
      split <;> rfl
    rw [hmeta]
    exact htracks q hq
  · unfold subtractPartition
    simp only [mem_map, mem_filter, decide_eq_true_eq]
    constructor
    · rintro ⟨p, ⟨⟨q, hq, rfl⟩, hkept⟩, rfl⟩
      by_cases hmeta : q.metadata = metadata
      · have htags := htracks q hq
        simp only [hmeta, if_true, ne_eq, not_true_eq_false, false_or] at hkept htags ⊢
        exact mt (htags.tags_eq_zero (hne _)).2 hkept
      · simp only [hmeta, if_false]
        rw [← tagsOf_cons_of_ne hm hmeta, ← h.exist]
        exact mem_map_of_mem hq
    · intro hv
      obtain ⟨q, hq, hmeta⟩ : ∃ q ∈ partitions, q.metadata = v := by
        rw [← mem_map, h.exist, tagsOf_cons]
        split
        · exact cons_ne_nil _ _
        · exact hv
      refine ⟨_, ⟨⟨q, hq, rfl⟩, ?_⟩, ?_⟩
      · by_cases hv' : v = metadata
        · have htags := htracks q hq
          simp only [hmeta] at htags ⊢
          exact .inr (mt (htags.tags_eq_zero (hne _)).1 (hv' ▸ hv))
        · simp [hmeta, hv']
      · split <;> exact hmeta

/-! ## Subtables -/

variable (C)

/-- The list of equal matches of a head. -/
structure HeadOk (st : ClsSubtable) (e : ClsHead) : Prop where
  mask : e.head.minimatch.mask = st.mask
  hash : e.hash = fullHash C st.mask st.indexOfs e.head.minimatch.flow
  partition : e.partition = Classifier.matchPartition e.head.minimatch
  same : ∀ m ∈ e.list, m.minimatch = e.head.minimatch
  sorted : ByPriority e.list

/-- The subtable has the heads of the list. -/
structure SubtableOk (st : ClsSubtable) (es : List ClsHead) : Prop where
  rules : st.rules.Perm es
  heads : ∀ e ∈ es, HeadOk C st e
  nodup : (es.map fun e => e.head.minimatch.flow).Nodup
  indices : ∀ i, (st.indices i).Perm
    (es.map fun e => (indexHash C st.mask st.indexOfs e.head.minimatch.flow i, e.head.id))
  portsWf : st.portsTrie.Wf
  ports : ∀ p, st.portsTrie.count p =
    if st.portsMaskLen ≠ 0 then es.countP fun e => portsPrefix e.head.minimatch = p else 0
  tag : st.tag = subtableTag C st.mask
  portsMaskLen : st.portsMaskLen = OVS.portsMaskLen st.mask

variable {C} {e' : ClsHead}

/-- What a head must be depends on the mask and the indices only. -/
lemma HeadOk.congr {st' : ClsSubtable} (h : HeadOk C st e) (hmask : st'.mask = st.mask)
    (hofs : st'.indexOfs = st.indexOfs) : HeadOk C st' e :=
  ⟨h.mask.trans hmask.symm, by rw [h.hash, hmask, hofs], h.partition, h.same, h.sorted⟩

lemma SubtableOk.congr {es es' : List ClsHead} (h : SubtableOk C st es) (hes : es.Perm es') :
    SubtableOk C st es' :=
  { h with
    rules := h.rules.trans hes
    heads e he := h.heads e (hes.mem_iff.2 he)
    nodup := (hes.map _).nodup_iff.1 h.nodup
    indices i := (h.indices i).trans (hes.map _)
    ports p := by rw [h.ports p, hes.countP_eq] }

/-- The heads other than the one at the front are others. -/
lemma SubtableOk.not_mem (h : SubtableOk C st (e :: R)) : e ∉ R := by
  intro he
  exact (nodup_cons.1 h.nodup).1 (mem_map_of_mem he)

lemma SubtableOk.new (cls : Classifier) (mask : Flow) :
    SubtableOk C (cls.newSubtable C mask) [] where
  rules := .refl _
  heads _ h := by cases h
  nodup := nodup_nil
  indices _ := .refl _
  portsWf := trivial
  ports p := by
    split <;> rfl
  tag := rfl
  portsMaskLen := rfl

/-- The head that is made for a new match. -/
def newHead (C : ClsConfig) (st : ClsSubtable) (new : ClsMatch) : ClsHead :=
  ⟨fullHash C st.mask st.indexOfs new.minimatch.flow, Classifier.matchPartition new.minimatch, new,
    []⟩

lemma HeadOk.new {new : ClsMatch} (h : new.minimatch.mask = st.mask) :
    HeadOk C st (newHead C st new) where
  mask := h
  hash := rfl
  partition := rfl
  same m hm := by rw [mem_singleton.1 hm]
  sorted := pairwise_singleton _ _

/-- **The first rule of a match comes into a subtable.** -/
lemma SubtableOk.addHead {es : List ClsHead} (h : SubtableOk C st es) {new : ClsMatch}
    (hmask : new.minimatch.mask = st.mask)
    (hflow : new.minimatch.flow ∉ es.map fun e => e.head.minimatch.flow) :
    SubtableOk C (Classifier.addHead C st new) (newHead C st new :: es) where
  rules := h.rules.cons _
  heads := forall_mem_cons.2 ⟨(HeadOk.new hmask).congr rfl rfl, fun e he =>
    (h.heads e he).congr rfl rfl⟩
  nodup := nodup_cons.2 ⟨hflow, h.nodup⟩
  indices i := (h.indices i).cons _
  portsWf := by
    unfold Classifier.addHead
    split
    · exact h.portsWf.insert (by decide) _
    · exact h.portsWf
  ports p := by
    unfold Classifier.addHead
    split
    · rename_i hlen
      rw [Trie.count_insert (by decide), h.ports p, if_pos hlen, countP_cons]
      simp [newHead, eq_comm]
    · rename_i hlen
      rw [h.ports p, if_neg hlen]
  tag := h.tag
  portsMaskLen := h.portsMaskLen

lemma map_replace_perm {l : List ClsHead} (h : l.Perm (e :: R)) (he : e ∉ R) :
    (l.map fun e'' => if e'' = e then e' else e'').Perm (e' :: R) := by
  refine (h.map _).trans ?_
  rw [map_cons, if_pos rfl]
  refine (Perm.of_eq (map_congr_left fun e'' he'' => ?_)).cons _ |>.trans
    (by rw [map_id])
  have hne : e'' ≠ e := fun heq => he (heq ▸ he'')
  simp [hne]

/-- **The rest of a list changes.** -/
lemma SubtableOk.setHead (h : SubtableOk C st (e :: R)) (he' : HeadOk C st e')
    (hhead : e'.head = e.head) : SubtableOk C (st.setHead e e') (e' :: R) :=
  { h with
    rules := map_replace_perm h.rules h.not_mem
    heads := forall_mem_cons.2 ⟨he'.congr rfl rfl, fun e he =>
      (h.heads e (mem_cons_of_mem _ he)).congr rfl rfl⟩
    nodup := by simpa [hhead] using h.nodup
    indices i := by simpa [hhead, ClsSubtable.setHead] using h.indices i
    ports p := by simpa [hhead, ClsSubtable.setHead, countP_cons] using h.ports p }

/-- **A list gets another head.** -/
lemma SubtableOk.replaceHead (h : SubtableOk C st (e :: R)) (he' : HeadOk C st e')
    (hmatch : e'.head.minimatch = e.head.minimatch) (hids : e.head.id ∉ R.map fun e => e.head.id) :
    SubtableOk C (subtableReplaceHeadRule C st e e') (e' :: R) :=
  { h with
    rules := map_replace_perm h.rules h.not_mem
    heads := forall_mem_cons.2 ⟨he'.congr rfl rfl, fun e he =>
      (h.heads e (mem_cons_of_mem _ he)).congr rfl rfl⟩
    nodup := by simpa [hmatch] using h.nodup
    indices i := by
      refine ((h.indices i).map _).trans ?_
      rw [map_cons, map_cons, map_cons, if_pos rfl, hmatch, map_map]
      refine Perm.cons _ (Perm.of_eq (map_congr_left fun e'' he'' => ?_))
      have hne : e''.head.id ≠ e.head.id :=
        fun heq => hids (heq ▸ mem_map_of_mem he'')
      simp [hne, subtableReplaceHeadRule, ClsSubtable.setHead]
    ports p := by
      simpa [hmatch, subtableReplaceHeadRule, ClsSubtable.setHead, countP_cons] using h.ports p }

/-- **The last rule of a match goes from a subtable.** -/
lemma SubtableOk.removeHead (h : SubtableOk C st (e :: R)) :
    SubtableOk C (Classifier.removeHead C st e) R where
  rules := by
    have hperm := h.rules.erase e
    rwa [erase_cons_head] at hperm
  heads e he := (h.heads e (mem_cons_of_mem _ he)).congr rfl rfl
  nodup := (nodup_cons.1 h.nodup).2
  indices i := by
    have hperm := (h.indices i).erase
      (indexHash C st.mask st.indexOfs e.head.minimatch.flow i, e.head.id)
    rwa [map_cons, erase_cons_head] at hperm
  portsWf := by
    unfold Classifier.removeHead
    split
    · exact h.portsWf.remove _ _
    · exact h.portsWf
  ports p := by
    unfold Classifier.removeHead
    split
    · rename_i hlen
      rw [Trie.count_remove h.portsWf, h.ports p, if_pos hlen, countP_cons]
      simp only [decide_eq_true_eq, eq_comm (a := p)]
      rw [Nat.add_sub_cancel]
    · rename_i hlen
      rw [h.ports p, if_neg hlen]
  tag := h.tag
  portsMaskLen := h.portsMaskLen

end

end OVS
