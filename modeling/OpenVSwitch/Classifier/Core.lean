import OpenVSwitch.Classifier.Invariant

/-!
# The subtables of a classifier together

What is said of a whole classifier: the subtables themselves and the partitions (`CoreOk`), the
tries (`SlotOk`), the greatest priority of each subtable (`MaxOk`), and the vector of subtables
(`LinkedOk`).

An operation changes one subtable, which is put at the front.  The lemmas here say what stays when
the first rule of a match comes, when the last one goes, and when a list of equal matches changes.
-/

namespace OVS

open Flow List Classifier

section

variable {C : ClsConfig}

/-! ## The greatest priority -/

/-- A greatest number of a list, and how often it has it. -/
structure IsMaxCount (l : List ℤ) (max : ℤ) (count : ℕ) : Prop where
  le : ∀ p ∈ l, p ≤ max
  count_eq : count = l.count max
  pos : 0 < count

/-- The priorities of heads. -/
def priorities (es : List ClsHead) : List ℤ := es.map fun e => e.head.priority

variable {l : List ℤ} {max p : ℤ} {count i : ℕ} {sts sts' : List ClsSubtable} {st st' : ClsSubtable}
  {es : List ClsHead} {cls cls' : Classifier} {e : ClsHead}

section

variable (h : IsMaxCount l max count)
include h

lemma IsMaxCount.congr {l' : List ℤ} (hl : l.Perm l') : IsMaxCount l' max count :=
  ⟨fun p hp => h.le p (hl.mem_iff.2 hp), h.count_eq.trans (hl.count_eq _), h.pos⟩

lemma IsMaxCount.mem : max ∈ l :=
  count_pos_iff.1 (h.count_eq ▸ h.pos)

/-- One more of the greatest number. -/
lemma IsMaxCount.cons_eq : IsMaxCount (max :: l) max (count + 1) :=
  ⟨forall_mem_cons.2 ⟨le_rfl, h.le⟩, by rw [count_cons_self, h.count_eq], Nat.succ_pos _⟩

/-- A smaller number. -/
lemma IsMaxCount.cons_lt (hp : p < max) : IsMaxCount (p :: l) max count :=
  ⟨forall_mem_cons.2 ⟨hp.le, h.le⟩, by rw [count_cons_of_ne hp.ne, h.count_eq], h.pos⟩

end

/-- A greater number than all. -/
lemma isMaxCount_cons_gt (h : ∀ q ∈ l, q < p) : IsMaxCount (p :: l) p 1 :=
  ⟨forall_mem_cons.2 ⟨le_rfl, fun q hq => (h q hq).le⟩, by
    rw [count_cons_self, count_eq_zero_of_not_mem fun hp => (h p hp).false],
    Nat.one_pos⟩

/-- A number that is not the greatest goes. -/
lemma IsMaxCount.of_cons_lt (h : IsMaxCount (p :: l) max count) (hp : p < max) :
    IsMaxCount l max count :=
  ⟨fun q hq => h.le q (mem_cons_of_mem _ hq), by
    rw [h.count_eq, count_cons_of_ne hp.ne], h.pos⟩

lemma isMaxCount_maxPriorityLoop (es : List ClsHead) (l : List ℤ) (max : ℤ) (count : ℕ)
    (hes : ∀ e ∈ es, intMin < e.head.priority)
    (h : (l = [] ∧ max = intMin ∧ count = 0) ∨ IsMaxCount l max count) (hne : l ≠ [] ∨ es ≠ []) :
    IsMaxCount (priorities es ++ l) (maxPriorityLoop es max count).1
      (maxPriorityLoop es max count).2 := by
  induction es generalizing l max count with
  | nil =>
    obtain ⟨rfl, -, -⟩ | h := h
    · simp at hne
    · exact h
  | cons e es ih =>
    obtain ⟨he, hes⟩ := forall_mem_cons.1 hes
    have hnext : ∀ {max count}, IsMaxCount (e.head.priority :: l) max count →
        IsMaxCount (priorities (e :: es) ++ l) (maxPriorityLoop es max count).1
          (maxPriorityLoop es max count).2 :=
      fun h => (ih _ _ _ hes (.inr h) (.inl (by simp))).congr perm_middle
    unfold maxPriorityLoop
    split
    · rename_i hlt
      refine hnext ?_
      obtain ⟨rfl, rfl, rfl⟩ | h := h
      · exact isMaxCount_cons_gt (by simp)
      · exact isMaxCount_cons_gt fun q hq => (h.le q hq).trans_lt hlt
    · rename_i hle
      obtain ⟨rfl, rfl, rfl⟩ | h := h
      · exact absurd he hle
      · split
        · rename_i heq
          subst heq
          exact hnext h.cons_eq
        · rename_i hne'
          exact hnext (h.cons_lt (lt_of_le_of_ne (not_lt.1 hle) hne'))

/-! ## The classifier -/

/-- The matches of the subtables. -/
def keysOf (sts : List ClsSubtable) : List (Match flowBits) :=
  sts.flatMap fun st => st.rules.map fun e => e.head.minimatch

/-- The rules of the subtables. -/
def rulesOf (sts : List ClsSubtable) : List ClsMatch :=
  sts.flatMap fun st => st.rules.flatMap ClsHead.list

variable (C)

/-- The subtables agree with each other, and the partitions with them. -/
structure CoreOk (cls : Classifier) (sts : List ClsSubtable) : Prop where
  segments : cls.flowSegments.Pairwise (· < ·) ∧ ∀ s ∈ cls.flowSegments, s < flowU64s
  subtables : ∀ st ∈ sts, SubtableOk C st st.rules
  indexOfs : ∀ st ∈ sts, st.indexOfs = subtableIndexOfs cls.flowSegments st.mask
  masks : (sts.map ClsSubtable.mask).Nodup
  partitions : PartitionsOk C cls.partitions (keysOf sts)
  ids : ((rulesOf sts).map ClsMatch.id).Nodup
  bound : ∀ m ∈ rulesOf sts, intMin < m.priority

/-- A trie of the classifier has the prefixes of the matches. -/
structure SlotOk (cls : Classifier) (sts : List ClsSubtable) (i : ℕ) : Prop where
  trie : TrieOk C (cls.tries i) (keysOf sts)
  plen : ∀ st ∈ sts, st.triePlen i = triePrefixLen C (cls.tries i) st.mask

variable {C}

lemma keysOf_perm (h : sts.Perm sts') : (keysOf sts).Perm (keysOf sts') :=
  h.flatMap_right _

lemma rulesOf_perm (h : sts.Perm sts') : (rulesOf sts).Perm (rulesOf sts') :=
  h.flatMap_right _

lemma keysOf_cons (h : st.rules.Perm es) (sts : List ClsSubtable) :
    (keysOf (st :: sts)).Perm ((es.map fun e => e.head.minimatch) ++ keysOf sts) :=
  (h.map _).append_right _

lemma rulesOf_cons (h : st.rules.Perm es) (sts : List ClsSubtable) :
    (rulesOf (st :: sts)).Perm (es.flatMap ClsHead.list ++ rulesOf sts) :=
  (h.flatMap_right _).append_right _

lemma CoreOk.congr (h : CoreOk C cls sts) (hsts : sts.Perm sts') : CoreOk C cls sts' where
  segments := h.segments
  subtables st hst := h.subtables st (hsts.mem_iff.2 hst)
  indexOfs st hst := h.indexOfs st (hsts.mem_iff.2 hst)
  masks := (hsts.map _).nodup_iff.1 h.masks
  partitions := h.partitions.congr (keysOf_perm hsts)
  ids := ((rulesOf_perm hsts).map _).nodup_iff.1 h.ids
  bound m hm := h.bound m ((rulesOf_perm hsts).mem_iff.2 hm)

/-- A head has the match of the rules in its list. -/
lemma CoreOk.minimatch_mem_keysOf (h : CoreOk C cls sts) {r : ClsMatch} (hr : r ∈ rulesOf sts) :
    r.minimatch ∈ keysOf sts := by
  obtain ⟨st, hst, hr⟩ := mem_flatMap.1 hr
  obtain ⟨e, he, hr⟩ := mem_flatMap.1 hr
  rw [((h.subtables st hst).heads e he).same r hr]
  exact mem_flatMap.2 ⟨st, hst, mem_map_of_mem he⟩

lemma SlotOk.congr (h : SlotOk C cls sts i) (hsts : sts.Perm sts') : SlotOk C cls sts' i :=
  ⟨h.trie.congr (keysOf_perm hsts), fun st hst => h.plen st (hsts.mem_iff.2 hst)⟩

/-- A new subtable. -/
lemma CoreOk.new (h : CoreOk C cls sts) {mask : Flow} (hmask : mask ∉ sts.map ClsSubtable.mask) :
    CoreOk C cls (cls.newSubtable C mask :: sts) :=
  { h with
    subtables := forall_mem_cons.2 ⟨.new cls mask, h.subtables⟩
    indexOfs := forall_mem_cons.2 ⟨rfl, h.indexOfs⟩
    masks := nodup_cons.2 ⟨hmask, h.masks⟩ }

lemma SlotOk.new (h : SlotOk C cls sts i) (hi : i < cls.nTries) (mask : Flow) :
    SlotOk C cls (cls.newSubtable C mask :: sts) i :=
  ⟨h.trie, forall_mem_cons.2 ⟨if_pos hi, h.plen⟩⟩

/-- A subtable without rules goes. -/
lemma CoreOk.of_empty (h : CoreOk C cls (st :: sts)) (hempty : st.rules = []) :
    CoreOk C cls sts where
  segments := h.segments
  subtables := (forall_mem_cons.1 h.subtables).2
  indexOfs := (forall_mem_cons.1 h.indexOfs).2
  masks := (nodup_cons.1 h.masks).2
  partitions := by simpa [keysOf, hempty] using h.partitions
  ids := by simpa [rulesOf, hempty] using h.ids
  bound := by simpa [rulesOf, hempty] using h.bound

lemma SlotOk.of_empty (h : SlotOk C cls (st :: sts) i) (hempty : st.rules = []) :
    SlotOk C cls sts i :=
  ⟨by simpa [keysOf, hempty] using h.trie, (forall_mem_cons.1 h.plen).2⟩

/-- **The first rule of a match comes into the classifier.** -/
lemma CoreOk.addHead (h : CoreOk C cls (st :: sts)) {new : ClsMatch}
    (hmask : new.minimatch.mask = st.mask)
    (hflow : new.minimatch.flow ∉ st.rules.map fun e => e.head.minimatch.flow)
    (hid : new.id ∉ (rulesOf (st :: sts)).map ClsMatch.id) (hbound : intMin < new.priority) :
    CoreOk C (addMatch C cls st new.minimatch) (addHead C st new :: sts) where
  segments := h.segments
  subtables := forall_mem_cons.2
    ⟨(forall_mem_cons.1 h.subtables).1.addHead hmask hflow, (forall_mem_cons.1 h.subtables).2⟩
  indexOfs := forall_mem_cons.2 (forall_mem_cons.1 h.indexOfs)
  masks := h.masks
  partitions := by
    have htag := (forall_mem_cons.1 h.subtables).1.tag
    show PartitionsOk C (if _ then _ else _) (new.minimatch :: keysOf (st :: sts))
    split
    · rename_i hexact
      rw [htag, ← hmask]
      exact h.partitions.create (by simp [matchPartition, hexact])
    · rename_i hexact
      exact (PartitionsOk.cons_iff (by simp [matchPartition, hexact])).2 h.partitions
  ids := nodup_cons.2 ⟨hid, h.ids⟩
  bound := forall_mem_cons.2 ⟨hbound, h.bound⟩

@[simp] lemma trieInsert_field (C : ClsConfig) (trie : ClsTrie) (m : Match flowBits) (mlen : ℕ) :
    (trieInsert C trie m mlen).field = trie.field := by
  unfold trieInsert
  split <;> rfl

@[simp] lemma trieRemove_field (C : ClsConfig) (trie : ClsTrie) (m : Match flowBits) (mlen : ℕ) :
    (trieRemove C trie m mlen).field = trie.field := by
  unfold trieRemove
  split <;> rfl

lemma triePrefixLen_congr {trie trie' : ClsTrie} (h : trie'.field = trie.field) (mask : Flow) :
    triePrefixLen C trie' mask = triePrefixLen C trie mask := by
  unfold triePrefixLen
  rw [h]

/-- The trie changes unless no prefix is in it.  Lengths of prefixes depend on its field only. -/
lemma SlotOk.of_trie (h : SlotOk C cls (st :: sts) i) (hi : i < cls.nTries) {trie : ClsTrie}
    (htries : cls'.tries i = if i < cls.nTries ∧ st.triePlen i ≠ 0 then trie else cls.tries i)
    (hfield : trie.field = (cls.tries i).field)
    (htrie : st.triePlen i ≠ 0 → TrieOk C trie (keysOf (st' :: sts)))
    (hsame : st.triePlen i = 0 → TrieOk C (cls.tries i) (keysOf (st' :: sts)))
    (hmask : st'.mask = st.mask) (hplen : st'.triePlen i = st.triePlen i) :
    SlotOk C cls' (st' :: sts) i := by
  obtain ⟨hst, hsts⟩ := forall_mem_cons.1 h.plen
  have hfield' : (cls'.tries i).field = (cls.tries i).field := by
    rw [htries]
    split
    · exact hfield
    · rfl
  refine ⟨?_, forall_mem_cons.2 ⟨?_, fun st'' hst'' => ?_⟩⟩
  · rw [htries]
    split
    · rename_i hlen
      exact htrie hlen.2
    · rename_i hlen
      exact hsame (not_not.1 fun hne => hlen ⟨hi, hne⟩)
  · rw [hplen, hst, hmask, triePrefixLen_congr hfield']
  · rw [hsts st'' hst'', triePrefixLen_congr hfield']

lemma SlotOk.addHead (h : SlotOk C cls (st :: sts) i) (hi : i < cls.nTries) {new : ClsMatch}
    (hmask : new.minimatch.mask = st.mask) :
    SlotOk C (addMatch C cls st new.minimatch) (addHead C st new :: sts) i := by
  have hplen : st.triePlen i = triePrefixLen C (cls.tries i) new.minimatch.mask := by
    rw [hmask]
    exact h.plen st mem_cons_self
  refine h.of_trie hi rfl (trieInsert_field ..) (fun hlen => ?_)
    (fun hlen => (TrieOk.cons_iff (hplen ▸ hlen)).2 h.trie) rfl rfl
  rw [hplen] at hlen ⊢
  exact h.trie.insert hlen

/-- **The last rule of a match goes from the classifier.** -/
lemma CoreOk.removeHead (h : CoreOk C cls (st :: sts)) (he : e ∈ st.rules) :
    CoreOk C (removeMatch C cls st e) (Classifier.removeHead C st e :: sts) := by
  have hperm : st.rules.Perm (e :: st.rules.erase e) := perm_cons_erase he
  obtain ⟨hst, hsts⟩ := forall_mem_cons.1 h.subtables
  have hkeys : (keysOf (st :: sts)).Perm
      (e.head.minimatch :: keysOf (Classifier.removeHead C st e :: sts)) := keysOf_cons hperm sts
  have hrules : (rulesOf (st :: sts)).Perm
      (e.list ++ rulesOf (Classifier.removeHead C st e :: sts)) := by
    refine (rulesOf_cons hperm sts).trans (.of_eq ?_)
    rw [flatMap_cons, append_assoc]
    rfl
  refine ⟨h.segments, ?_, ?_, h.masks, ?_, ?_, fun m hm => ?_⟩
  · exact forall_mem_cons.2 ⟨(hst.congr hperm).removeHead, hsts⟩
  · exact forall_mem_cons.2 (forall_mem_cons.1 h.indexOfs)
  · have hpartitions := h.partitions.congr hkeys
    have hhead := hst.heads e he
    simp only [removeMatch, hhead.partition]
    split
    · rename_i hnone
      exact (PartitionsOk.cons_iff hnone).1 hpartitions
    · rename_i metadata hsome
      rw [hst.tag, ← hhead.mask]
      exact hpartitions.subtract hsome
  · have hids := (hrules.map ClsMatch.id).nodup_iff.1 h.ids
    rw [map_append] at hids
    exact hids.of_append_right
  · exact h.bound m (hrules.mem_iff.2 (mem_append_right _ hm))

lemma SlotOk.removeHead (h : SlotOk C cls (st :: sts) i) (hi : i < cls.nTries) (he : e ∈ st.rules)
    (hmask : e.head.minimatch.mask = st.mask) :
    SlotOk C (removeMatch C cls st e) (Classifier.removeHead C st e :: sts) i := by
  have hplen : st.triePlen i = triePrefixLen C (cls.tries i) e.head.minimatch.mask := by
    rw [hmask]
    exact h.plen st mem_cons_self
  have hkeys : (keysOf (st :: sts)).Perm
      (e.head.minimatch :: keysOf (Classifier.removeHead C st e :: sts)) :=
    keysOf_cons (perm_cons_erase he) sts
  have htrie := h.trie.congr hkeys
  refine h.of_trie hi rfl (trieRemove_field ..) (fun hlen => ?_)
    (fun hlen => (TrieOk.cons_iff (hplen ▸ hlen)).1 htrie) rfl rfl
  rw [hplen] at hlen ⊢
  exact htrie.remove hlen

/-- The keys do not change with a list of equal matches. -/
lemma keysOf_update {e' : ClsHead} {R : List ClsHead} (hst : st.rules.Perm (e :: R))
    (hst' : st'.rules.Perm (e' :: R)) (hmatch : e'.head.minimatch = e.head.minimatch)
    (sts : List ClsSubtable) : (keysOf (st :: sts)).Perm (keysOf (st' :: sts)) := by
  refine (keysOf_cons hst sts).trans (.trans (.of_eq ?_) (keysOf_cons hst' sts).symm)
  rw [map_cons, map_cons, hmatch]

/-- **A list of equal matches changes.**  Its rules are rules that it had, and the rules of
`new`. -/
lemma CoreOk.update {e' : ClsHead} {R : List ClsHead} {new : List ClsMatch}
    (h : CoreOk C cls (st :: sts)) (hst : st.rules.Perm (e :: R))
    (hst' : SubtableOk C st' (e' :: R)) (hmask : st'.mask = st.mask)
    (hofs : st'.indexOfs = st.indexOfs) (hmatch : e'.head.minimatch = e.head.minimatch)
    (hlist : e'.list.Subperm (new ++ e.list))
    (hids : ((new ++ rulesOf (st :: sts)).map ClsMatch.id).Nodup)
    (hbound : ∀ m ∈ new, intMin < m.priority) : CoreOk C cls (st' :: sts) := by
  have hrules : (rulesOf (st' :: sts)).Subperm (new ++ rulesOf (st :: sts)) := by
    have hold : (new ++ rulesOf (st :: sts)).Perm
        ((new ++ e.list) ++ (R.flatMap ClsHead.list ++ rulesOf sts)) := by
      refine ((rulesOf_cons hst sts).append_left new).trans (.of_eq ?_)
      simp only [flatMap_cons, append_assoc]
    have hnew : (rulesOf (st' :: sts)).Perm
        (e'.list ++ (R.flatMap ClsHead.list ++ rulesOf sts)) := by
      refine (rulesOf_cons hst'.rules sts).trans (.of_eq ?_)
      simp only [flatMap_cons, append_assoc]
    exact hnew.subperm.trans (((subperm_append_right _).2 hlist).trans hold.symm.subperm)
  refine ⟨h.segments, ?_, ?_, ?_, h.partitions.congr (keysOf_update hst hst'.rules hmatch sts), ?_,
    ?_⟩
  · exact forall_mem_cons.2
      ⟨hst'.congr hst'.rules.symm, (forall_mem_cons.1 h.subtables).2⟩
  · obtain ⟨hofs', hsts⟩ := forall_mem_cons.1 h.indexOfs
    exact forall_mem_cons.2 ⟨by rw [hofs, hmask, hofs'], hsts⟩
  · simpa [hmask] using h.masks
  · obtain ⟨l, hl, hsub⟩ := hrules
    exact (hl.map _).nodup_iff.1 (hids.sublist (hsub.map _))
  · intro m hm
    obtain hm | hm := mem_append.1 (hrules.subset hm)
    · exact hbound m hm
    · exact h.bound m hm

/-- What is said of the subtables and the partitions depends on them only. -/
lemma CoreOk.of_eq (h : CoreOk C cls sts) (hsegments : cls'.flowSegments = cls.flowSegments)
    (hpartitions : cls'.partitions = cls.partitions) : CoreOk C cls' sts :=
  { h with
    segments := hsegments ▸ h.segments
    indexOfs st hst := by rw [h.indexOfs st hst, hsegments]
    partitions := hpartitions ▸ h.partitions }

lemma SlotOk.of_eq (h : SlotOk C cls sts i) (htries : cls'.tries i = cls.tries i) :
    SlotOk C cls' sts i :=
  ⟨htries ▸ h.trie, fun st hst => by rw [h.plen st hst, htries]⟩

/-- `max_priority` is the greatest priority of the heads, and `max_count` how many have it. -/
def MaxOk (st : ClsSubtable) : Prop :=
  IsMaxCount (priorities st.rules) st.maxPriority st.maxCount

/-- The subtable with another greatest priority. -/
def ClsSubtable.setMax (st : ClsSubtable) (priority : ℤ) (count : ℕ) : ClsSubtable :=
  { st with maxPriority := priority, maxCount := count }

lemma SubtableOk.setMax (h : SubtableOk C st es) (priority : ℤ) (count : ℕ) :
    SubtableOk C (st.setMax priority count) es :=
  { h with
    heads e he := (h.heads e he).congr rfl rfl }

lemma CoreOk.setMax (h : CoreOk C cls (st :: sts)) (priority : ℤ) (count : ℕ) :
    CoreOk C cls (st.setMax priority count :: sts) :=
  { h with
    subtables := forall_mem_cons.2
      ⟨(forall_mem_cons.1 h.subtables).1.setMax _ _, (forall_mem_cons.1 h.subtables).2⟩
    indexOfs := forall_mem_cons.2 (forall_mem_cons.1 h.indexOfs) }

lemma SlotOk.setMax (h : SlotOk C cls (st :: sts) i) (priority : ℤ) (count : ℕ) :
    SlotOk C cls (st.setMax priority count :: sts) i :=
  ⟨h.trie, forall_mem_cons.2 (forall_mem_cons.1 h.plen)⟩

/-! ## The vector of subtables -/

/-- The entries of the vector. -/
def entriesOf (sts : List ClsSubtable) : List (Flow × ℤ) :=
  sts.map fun st => (st.mask, st.maxPriority)

variable (C)

/-- The classifier has the subtables `sts`. -/
structure LinkedOk (cls : Classifier) (sts : List ClsSubtable) : Prop where
  map : cls.subtablesMap.Perm sts
  core : CoreOk C cls sts
  slots : ∀ i < cls.nTries, SlotOk C cls sts i
  max : ∀ st ∈ sts, MaxOk st
  vector : cls.subtables.Holds (entriesOf sts)
  nRules : cls.nRules = (rulesOf sts).length

/-- The classifier has the subtables `sts`, and what is to be published has been. -/
structure ClassifierOk (cls : Classifier) (sts : List ClsSubtable) : Prop
    extends LinkedOk C cls sts where
  published : cls.publish → cls.subtables.temp = none

variable {C}

lemma LinkedOk.congr (h : LinkedOk C cls sts) (hsts : sts.Perm sts') : LinkedOk C cls sts' where
  map := h.map.trans hsts
  core := h.core.congr hsts
  slots i hi := (h.slots i hi).congr hsts
  max st hst := h.max st (hsts.mem_iff.2 hst)
  vector := h.vector.congr (hsts.map _)
  nRules := by rw [h.nRules, (rulesOf_perm hsts).length_eq]

lemma mem_rulesOf_of_head (hst : st ∈ sts) (he : e ∈ st.rules) {m : ClsMatch} (hm : m ∈ e.list) :
    m ∈ rulesOf sts :=
  mem_flatMap.2 ⟨st, hst, mem_flatMap.2 ⟨e, he, hm⟩⟩

/-- No entry has the priority of a gap. -/
lemma LinkedOk.bound (h : LinkedOk C cls sts) : ∀ q ∈ entriesOf sts, intMin < q.2 := by
  refine forall_mem_map.2 fun st hst => ?_
  obtain ⟨e, he, heq⟩ := mem_map.1 (h.max st hst).mem
  exact heq ▸ h.core.bound _ (mem_rulesOf_of_head hst he mem_cons_self)

lemma LinkedOk.publish (h : LinkedOk C cls sts) :
    LinkedOk C { cls with subtables := cls.subtables.publish C.qsort } sts :=
  { h with
    core := h.core.of_eq rfl rfl
    slots i hi := (h.slots i hi).of_eq rfl
    vector := h.vector.publish _ h.bound }

/-- **Publishing.** -/
lemma LinkedOk.publishIf (h : LinkedOk C cls sts) :
    ClassifierOk C (Classifier.publishIf C cls) sts := by
  unfold Classifier.publishIf
  split
  · exact ⟨h.publish, fun _ => PVector.publish_temp _⟩
  · rename_i hpublish
    exact ⟨h, fun h => absurd h hpublish⟩

end

end OVS
