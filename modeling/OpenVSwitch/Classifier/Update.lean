import OpenVSwitch.Classifier.Core

/-!
# Insertion and removal of rules

`classifier_replace()` and `classifier_remove()` keep everything that is said of a classifier, and
do to the rules what they should: `replaceRules` has the new rule in the place of the one with the
same match and priority, and a rule that is removed is gone.

**The greatest priority.**  What is left of an operation after its subtable has changed is to set
`max_priority`, `max_count` and the entry in the vector.  `Changed` is what holds in between.
-/

namespace OVS

open Flow List Classifier ClsHead

section

variable {C : ClsConfig}

variable {cls : Classifier} {st st' : ClsSubtable} {sts : List ClsSubtable} {new : ClsMatch}
  {e : ClsHead} {R : List ClsHead} {rule : ClsMatch} {m : ClsMatch} {p : ℤ}

/-- Everything about a changed subtable, but its greatest priority and its entry in the vector.
`st` is what is in the hash table. -/
structure Changed (C : ClsConfig) (cls : Classifier) (st st' : ClsSubtable)
    (sts : List ClsSubtable) : Prop where
  map : cls.subtablesMap.Perm (st :: sts)
  mask : st'.mask = st.mask
  core : CoreOk C cls (st' :: sts)
  slots : ∀ i < cls.nTries, SlotOk C cls (st' :: sts) i
  max : ∀ st ∈ sts, MaxOk st
  nRules : cls.nRules = (rulesOf (st' :: sts)).length

/-- The subtable gets its greatest priority and its entry. -/
lemma Changed.linked (h : Changed C cls st st' sts) {priority : ℤ} {count : ℕ}
    (hmax : IsMaxCount (priorities st'.rules) priority count) {subtables : PVector Flow}
    (hvector : subtables.Holds ((st'.mask, priority) :: entriesOf sts)) :
    LinkedOk C { cls.setSubtable (st'.setMax priority count) with subtables := subtables }
      (st'.setMax priority count :: sts) where
  map := by
    refine (h.map.map _).trans ?_
    rw [map_cons, if_pos (show st.mask = (st'.setMax priority count).mask from h.mask.symm)]
    refine Perm.cons _ ((Perm.of_eq (map_congr_left fun st'' hst'' => ?_)).trans (by rw [map_id]))
    have hne : st''.mask ≠ st'.mask := fun heq =>
      (nodup_cons.1 h.core.masks).1 (heq ▸ mem_map_of_mem hst'')
    exact if_neg hne
  core := (h.core.setMax _ _).of_eq rfl rfl
  slots i hi := ((h.slots i hi).setMax _ _).of_eq rfl
  max := forall_mem_cons.2 ⟨hmax, h.max⟩
  vector := hvector
  nRules := h.nRules

lemma Changed.not_mem (h : Changed C cls st st' sts) : st'.mask ∉ (entriesOf sts).map Prod.fst := by
  have hmasks := (nodup_cons.1 h.core.masks).1
  simpa [entriesOf] using hmasks

/-- What a new head does to the greatest priority. -/
lemma IsMaxCount.added {l l' : List ℤ} {max p : ℤ} {count : ℕ} (h : IsMaxCount l max count)
    (hl : l'.Perm (p :: l) ∨ ∃ q r, q < p ∧ l.Perm (q :: r) ∧ l'.Perm (p :: r)) :
    IsMaxCount l' (if max < p then p else max)
      (if p = max then count + 1 else if max < p then 1 else count) := by
  obtain hl | ⟨q, r, hq, hold, hl⟩ := hl
  · refine .congr ?_ hl.symm
    obtain hlt | rfl | hgt := lt_trichotomy p max
    · simpa [hlt.ne, hlt.not_gt] using h.cons_lt hlt
    · simpa using h.cons_eq
    · simpa [hgt.ne', hgt] using isMaxCount_cons_gt fun q hq => (h.le q hq).trans_lt hgt
  · refine .congr ?_ hl.symm
    have h' := h.congr hold
    obtain hlt | rfl | hgt := lt_trichotomy p max
    · simpa [hlt.ne, hlt.not_gt] using (h'.of_cons_lt (hq.trans hlt)).cons_lt hlt
    · simpa using (h'.of_cons_lt hq).cons_eq
    · simpa [hgt.ne', hgt] using
        isMaxCount_cons_gt fun q hq => (h'.le q (mem_cons_of_mem _ hq)).trans_lt hgt

/-! ## `classifier_replace()` -/

/-- The first rule of a subtable has been added. -/
lemma Changed.first (h : Changed C { cls with nRules := cls.nRules + 1 } st st' sts)
    (hrules : priorities st'.rules = [p]) (hvector : cls.subtables.Holds (entriesOf sts)) :
    ∃ st'', rulesOf (st'' :: sts) = rulesOf (st' :: sts) ∧
      ClassifierOk C (Classifier.ruleAdded C cls st' 1 p) (st'' :: sts) := by
  refine ⟨st'.setMax p 1, rfl, LinkedOk.publishIf ?_⟩
  exact h.linked (hrules ▸ isMaxCount_cons_gt (by simp)) (hvector.insert _ _)

/-- A rule has been added to a subtable that had others. -/
lemma Changed.added {n : ℕ} {p : ℤ} (h : Changed C { cls with nRules := cls.nRules + 1 } st st' sts)
    (hn : n ≠ 1)
    (hmax : IsMaxCount (priorities st'.rules) (if st'.maxPriority < p then p else st'.maxPriority)
      (if p = st'.maxPriority then st'.maxCount + 1 else if st'.maxPriority < p then 1
        else st'.maxCount))
    (hvector : cls.subtables.Holds ((st'.mask, st'.maxPriority) :: entriesOf sts)) :
    ∃ st'', rulesOf (st'' :: sts) = rulesOf (st' :: sts) ∧
      ClassifierOk C (Classifier.ruleAdded C cls st' n p) (st'' :: sts) := by
  obtain hlt | heq | hgt := lt_trichotomy p st'.maxPriority
  · refine ⟨st'.setMax st'.maxPriority st'.maxCount, rfl, LinkedOk.publishIf ?_⟩
    rw [if_neg hn, if_neg hlt.ne, if_neg hlt.not_gt]
    rw [if_neg hlt.not_gt, if_neg hlt.ne, if_neg hlt.not_gt] at hmax
    exact h.linked hmax hvector
  · refine ⟨st'.setMax st'.maxPriority (st'.maxCount + 1), rfl, LinkedOk.publishIf ?_⟩
    rw [if_neg hn, if_pos heq]
    rw [if_neg heq.not_gt, if_pos heq] at hmax
    exact h.linked hmax hvector
  · refine ⟨st'.setMax p 1, rfl, LinkedOk.publishIf ?_⟩
    rw [if_neg hn, if_neg hgt.ne', if_pos hgt]
    rw [if_pos hgt, if_neg hgt.ne', if_pos hgt] at hmax
    exact h.linked hmax (hvector.changePriority h.not_mem p)

/-- The first rule of a match has been added, but for what `ruleAdded` does. -/
lemma Changed.addHead (h : Changed C cls st st sts) (hmask : new.minimatch.mask = st.mask)
    (hflow : new.minimatch.flow ∉ st.rules.map fun e => e.head.minimatch.flow)
    (hid : new.id ∉ (rulesOf (st :: sts)).map ClsMatch.id) (hbound : intMin < new.priority) :
    Changed C { addMatch C cls st new.minimatch with nRules := cls.nRules + 1 } st
      (addHead C st new) sts where
  map := h.map
  mask := rfl
  core := (h.core.addHead hmask hflow hid hbound).of_eq rfl rfl
  slots i hi := ((h.slots i hi).addHead hi hmask).of_eq rfl
  max := h.max
  nRules := congrArg (· + 1) h.nRules

/-- The rules that there are after `classifier_replace()`. -/
def replaceRules (rules : List ClsMatch) (new : ClsMatch) : List ClsMatch :=
  new :: rules.filter fun m => ¬(m.minimatch = new.minimatch ∧ m.priority = new.priority)

/-- A rule in a list takes the place of the one of equal priority. -/
lemma insertInList_perm_filter {l : List ClsMatch} (h : ByPriority l) (new : ClsMatch) :
    (insertInList new l).1.Perm (new :: l.filter fun m => m.priority ≠ new.priority) := by
  induction l with
  | nil => exact .refl _
  | cons iter rest ih =>
    obtain ⟨hiter, hrest⟩ := pairwise_cons.1 h
    unfold insertInList
    split
    · rename_i hlt
      rw [filter_cons_of_pos (by simpa using hlt.ne')]
      exact ((ih hrest).cons iter).trans (.swap _ _ _)
    · have hkept : rest.filter (fun m => m.priority ≠ new.priority) = rest :=
        filter_eq_self.2 fun m hm => by
          have := hiter m hm
          simp only [decide_not, Bool.not_eq_true', decide_eq_false_iff_not]
          omega
      split
      · rename_i heq
        rw [filter_cons_of_neg (by simp [heq]), hkept]
      · rename_i hne
        rw [filter_cons_of_pos (by simpa using Ne.symm hne), hkept]

lemma ClsHead.insert_minimatch (hnew : new.minimatch = e.head.minimatch) :
    (e.insert new).1.head.minimatch = e.head.minimatch := by
  obtain ⟨-, hhead⟩ | ⟨-, hhead⟩ := e.insert_head new
  · rw [hhead]
  · rw [hhead, hnew]

/-- The list of equal matches of a new rule. -/
lemma HeadOk.insert (h : HeadOk C st e) (hnew : new.minimatch = e.head.minimatch) :
    HeadOk C st (e.insert new).1 := by
  have hhead := insert_minimatch hnew
  obtain ⟨hhash, hpartition⟩ := e.insert_same new
  have hlist := (e.insert_list new).1
  refine ⟨hhead ▸ h.mask, ?_, ?_, fun m hm => ?_, ?_⟩
  · rw [hhash, hhead, h.hash]
  · rw [hpartition, hhead, h.partition]
  · rw [hhead]
    rw [hlist] at hm
    obtain rfl | hm := mem_insertInList hm
    · exact hnew
    · exact h.same m hm
  · rw [hlist]
    exact h.sorted.insertInList new

/-- A rule with the mask of a subtable is in that subtable. -/
lemma CoreOk.exists_head (h : CoreOk C cls sts) (hm : m ∈ rulesOf sts) :
    ∃ st ∈ sts, ∃ e ∈ st.rules, m ∈ e.list ∧ m.minimatch = e.head.minimatch ∧
      m.minimatch.mask = st.mask := by
  obtain ⟨st, hst, hm⟩ := mem_flatMap.1 hm
  obtain ⟨e, he, hm⟩ := mem_flatMap.1 hm
  have hhead := (h.subtables st hst).heads e he
  exact ⟨st, hst, e, he, hm, hhead.same m hm, by rw [hhead.same m hm, hhead.mask]⟩

/-- All rules of a match are in one list. -/
lemma CoreOk.mem_list (h : CoreOk C cls sts) (hst : st ∈ sts) (he : e ∈ st.rules)
    (hm : m ∈ rulesOf sts) (hmatch : m.minimatch = e.head.minimatch) : m ∈ e.list := by
  obtain ⟨st', hst', e', he', hmem, hhead, hmask⟩ := h.exists_head hm
  have heq : st' = st := inj_on_of_nodup_map h.masks hst' hst (by
    rw [← hmask, hmatch, ((h.subtables st hst).heads e he).mask])
  subst heq
  have heq : e' = e := inj_on_of_nodup_map (h.subtables st' hst).nodup he' he (by
    rw [← hhead, hmatch])
  exact heq ▸ hmem

/-- Rules of other lists have other matches. -/
lemma CoreOk.ne_of_others (h : CoreOk C cls (st :: sts)) {x : Match flowBits}
    (hmask : x.mask = st.mask) (hR : ∀ e ∈ R, e ∈ st.rules)
    (hflow : ∀ e ∈ R, e.head.minimatch.flow ≠ x.flow)
    (hm : m ∈ R.flatMap list ++ rulesOf sts) : m.minimatch ≠ x := by
  rintro rfl
  obtain hm | hm := mem_append.1 hm
  · obtain ⟨e, he, hm⟩ := mem_flatMap.1 hm
    have hhead := (h.subtables st mem_cons_self).heads e (hR e he)
    exact hflow e he (by rw [hhead.same m hm])
  · obtain ⟨st', hst', hm⟩ := mem_flatMap.1 hm
    obtain ⟨e, he, hm⟩ := mem_flatMap.1 hm
    have hhead := (h.subtables st' (mem_cons_of_mem _ hst')).heads e he
    refine (nodup_cons.1 h.masks).1 (mem_map.2 ⟨st', hst', ?_⟩)
    rw [← hmask, hhead.same m hm, hhead.mask]

lemma replaceRules_perm {rules rules' : List ClsMatch} (h : rules.Perm rules') (new : ClsMatch) :
    (replaceRules rules new).Perm (replaceRules rules' new) :=
  (h.filter _).cons new

/-- What `find_subtable()` and `insert_subtable()` give. -/
lemma ClassifierOk.findOrInsertSubtable (h : ClassifierOk C cls sts) (mask : Flow) :
    ∃ cls' st sts', cls.findOrInsertSubtable C mask = (cls', st) ∧ st.mask = mask ∧
      cls'.publish = cls.publish ∧ cls'.subtables = cls.subtables ∧ Changed C cls' st st sts' ∧
      (rulesOf sts).Perm (rulesOf (st :: sts')) ∧
      ((st.rules = [] ∧ cls.subtables.Holds (entriesOf sts')) ∨
        (MaxOk st ∧ cls.subtables.Holds (entriesOf (st :: sts')))) := by
  unfold Classifier.findOrInsertSubtable
  split
  · rename_i st hfind
    have hst : st ∈ sts := h.map.mem_iff.1 (mem_of_find?_eq_some hfind)
    obtain ⟨a, b, rfl⟩ := append_of_mem hst
    have h' := h.toLinkedOk.congr perm_middle
    obtain ⟨hmax, hmaxs⟩ := forall_mem_cons.1 h'.max
    refine ⟨cls, st, a ++ b, rfl, by simpa using find?_some hfind, rfl, rfl,
      ⟨h'.map, rfl, h'.core, h'.slots, hmaxs, h'.nRules⟩, rulesOf_perm perm_middle,
      .inr ⟨hmax, h'.vector⟩⟩
  · rename_i hfind
    have hmask : mask ∉ sts.map ClsSubtable.mask := by
      rw [← (h.map.map _).mem_iff]
      simpa using find?_eq_none.1 hfind
    refine ⟨_, _, sts, rfl, rfl, rfl, rfl, ⟨h.map.cons _, rfl, (h.core.new hmask).of_eq rfl rfl,
      fun i hi => ((h.slots i hi).new hi mask).of_eq rfl, h.max, h.nRules⟩, .refl _,
      .inl ⟨rfl, h.vector⟩⟩

/-- The same match is found. -/
lemma SubtableOk.findEqual (h : SubtableOk C st st.rules) (flow : Flow) :
    match st.findEqual flow (fullHash C st.mask st.indexOfs flow) with
    | none => flow ∉ st.rules.map fun e => e.head.minimatch.flow
    | some e => e ∈ st.rules ∧ e.head.minimatch.flow = flow := by
  split
  · rename_i hfind
    intro hmem
    obtain ⟨e, he, rfl⟩ := mem_map.1 hmem
    have hne := find?_eq_none.1 hfind e he
    simp [(h.heads e he).hash] at hne
  · rename_i e hfind
    have heq := find?_some hfind
    simp only [decide_eq_true_eq] at heq
    exact ⟨mem_of_find?_eq_some hfind, heq.2⟩

/-- The priorities of the heads when a list gets another head. -/
lemma priorities_perm {l : List ClsHead} (h : l.Perm (e :: R)) :
    (priorities l).Perm (e.head.priority :: priorities R) :=
  h.map _

/-- The rules when a list of equal matches changes. -/
lemma rulesOf_update (h : st.rules.Perm (e :: R)) (sts : List ClsSubtable) :
    (rulesOf (st :: sts)).Perm (e.list ++ (R.flatMap list ++ rulesOf sts)) := by
  refine (rulesOf_cons h sts).trans (.of_eq ?_)
  rw [flatMap_cons, append_assoc]

/-- The ids of the heads of a subtable are different. -/
lemma CoreOk.id_not_mem (h : CoreOk C cls (st :: sts)) (hR : st.rules.Perm (e :: R)) :
    e.head.id ∉ R.map fun e => e.head.id := by
  intro hmem
  obtain ⟨e', he', heq⟩ := mem_map.1 hmem
  have hids := ((rulesOf_update hR sts).map ClsMatch.id).nodup_iff.1 h.ids
  rw [map_append, nodup_append] at hids
  refine hids.2.2 e.head.id (mem_map_of_mem mem_cons_self) e'.head.id
    (mem_map_of_mem (mem_append_left _ ?_)) heq.symm
  exact mem_flatMap.2 ⟨e', he', mem_cons_self⟩

/-- The subtable that `classifier_replace()` makes when there is an equal match. -/
def subtableReplaceEqual (C : ClsConfig) (st : ClsSubtable) (e : ClsHead) (new : ClsMatch) :
    ClsSubtable :=
  if new.priority < e.head.priority then st.setHead e (e.insert new).1
  else subtableReplaceHeadRule C st e (e.insert new).1

/-- The fields of a subtable that stay when a list of equal matches changes. -/
lemma subtableReplaceEqual_same (st : ClsSubtable) (e : ClsHead) (new : ClsMatch) :
    (subtableReplaceEqual C st e new).mask = st.mask ∧
      (subtableReplaceEqual C st e new).indexOfs = st.indexOfs ∧
      (subtableReplaceEqual C st e new).triePlen = st.triePlen ∧
      (subtableReplaceEqual C st e new).maxPriority = st.maxPriority ∧
      (subtableReplaceEqual C st e new).maxCount = st.maxCount := by
  unfold subtableReplaceEqual
  split <;> exact ⟨rfl, rfl, rfl, rfl, rfl⟩

lemma SubtableOk.replaceEqual (h : SubtableOk C st (e :: R))
    (hnew : new.minimatch = e.head.minimatch) (hids : e.head.id ∉ R.map fun e => e.head.id) :
    SubtableOk C (subtableReplaceEqual C st e new) ((e.insert new).1 :: R) := by
  have hhead : HeadOk C st (e.insert new).1 := (h.heads e mem_cons_self).insert hnew
  unfold subtableReplaceEqual
  obtain ⟨hlt, heq⟩ | ⟨hle, heq⟩ := e.insert_head new
  · rw [if_pos hlt]
    exact h.setHead hhead heq
  · rw [if_neg hle.not_gt]
    exact h.replaceHead hhead (by rw [heq, hnew]) hids

/-- **A rule comes to a list of equal matches**, but for what `ruleAdded` does. -/
lemma Changed.replaceEqual (h : Changed C cls st st sts) (hR : st.rules.Perm (e :: R))
    (hnew : new.minimatch = e.head.minimatch) (hid : new.id ∉ (rulesOf (st :: sts)).map ClsMatch.id)
    (hbound : intMin < new.priority) {n : ℤ}
    (hn : n = (rulesOf (subtableReplaceEqual C st e new :: sts)).length) :
    Changed C { cls with nRules := n } st (subtableReplaceEqual C st e new) sts := by
  obtain ⟨hmask, hofs, hplen, -, -⟩ := subtableReplaceEqual_same st e new
  have hst : SubtableOk C st (e :: R) :=
    (h.core.subtables st mem_cons_self).congr hR
  have hst' := hst.replaceEqual hnew (h.core.id_not_mem hR)
  have hmatch := insert_minimatch hnew
  have hlist : (e.insert new).1.list.Subperm ([new] ++ e.list) := by
    rw [(e.insert_list new).1]
    exact (insertInList_perm_filter (hst.heads e mem_cons_self).sorted new).subperm.trans
      (filter_sublist.cons_cons new).subperm
  refine ⟨h.map, hmask, ?_, fun i hi => ?_, h.max, hn⟩
  · refine (h.core.update hR hst' hmask hofs hmatch hlist ?_ (by simpa using hbound)).of_eq rfl rfl
    exact nodup_cons.2 ⟨hid, h.core.ids⟩
  · have hslot := h.slots i hi
    have htrie := hslot.trie.congr (keysOf_update hR hst'.rules hmatch sts)
    exact hslot.of_trie hi (ite_self _).symm rfl (fun _ => htrie) (fun _ => htrie) hmask
      (by rw [hplen])

/-- The priorities of the heads after a rule has come to a list of equal matches. -/
lemma priorities_replaceEqual (hR : st.rules.Perm ((e.insert new).1 :: R)) :
    (priorities st.rules).Perm
      ((if e.head.priority < new.priority then new.priority else e.head.priority) ::
        priorities R) := by
  refine (priorities_perm hR).trans (.of_eq ?_)
  obtain ⟨hlt, heq⟩ | ⟨hle, heq⟩ := e.insert_head new
  · rw [heq, if_neg hlt.not_gt]
  · rw [heq]
    split
    · rfl
    · rw [le_antisymm hle (not_lt.1 ‹_›)]

lemma ByPriority.le_head (h : ByPriority e.list) (hm : m ∈ e.list) :
    m.priority ≤ e.head.priority := by
  obtain rfl | hm := mem_cons.1 hm
  · exact le_rfl
  · exact ((pairwise_cons.1 h).1 m hm).le

lemma ClsHead.priority_ne_of_insert (h : (e.insert new).2 = none) :
    new.priority ≠ e.head.priority := by
  intro heq
  simp [insert, heq] at h

/-- The rules after a rule has come to a list of equal matches. -/
lemma CoreOk.rulesOf_replaceEqual (h : CoreOk C cls (st :: sts)) (hR : st.rules.Perm (e :: R))
    (hnew : new.minimatch = e.head.minimatch) :
    (rulesOf (subtableReplaceEqual C st e new :: sts)).Perm
      (replaceRules (rulesOf (st :: sts)) new) := by
  have hst := (h.subtables st mem_cons_self).congr hR
  have hhead := hst.heads e mem_cons_self
  have hst' := hst.replaceEqual hnew (h.id_not_mem hR)
  have hothers : ∀ m ∈ R.flatMap list ++ rulesOf sts, m.minimatch ≠ new.minimatch := by
    intro m hm
    refine h.ne_of_others (hnew ▸ hhead.mask)
      (fun e' he' => hR.mem_iff.2 (mem_cons_of_mem _ he')) (fun e' he' heq => ?_) hm
    rw [hnew] at heq
    exact (nodup_cons.1 hst.nodup).1 (mem_map.2 ⟨e', he', heq⟩)
  refine (rulesOf_update hst'.rules sts).trans
    (.trans ?_ (replaceRules_perm (rulesOf_update hR sts).symm new))
  rw [(e.insert_list new).1]
  have hlist : (e.list.filter fun m => m.priority ≠ new.priority) =
      e.list.filter fun m => ¬(m.minimatch = new.minimatch ∧ m.priority = new.priority) :=
    filter_congr fun m hm => by simp [(hhead.same m hm).trans hnew.symm]
  refine ((insertInList_perm_filter hhead.sorted new).append_right _).trans (.of_eq ?_)
  rw [replaceRules, filter_append, cons_append, hlist]
  congr 2
  exact (filter_eq_self.2 fun m hm => by simp [hothers m hm]).symm

/-- How many rules there are then. -/
lemma length_rulesOf_replaceEqual (hR : st.rules.Perm (e :: R))
    (hR' : st'.rules.Perm ((e.insert new).1 :: R)) (sts : List ClsSubtable) :
    (rulesOf (st' :: sts)).length =
      (rulesOf (st :: sts)).length + if (e.insert new).2 = none then 1 else 0 := by
  have hlength : (e.insert new).1.list.length =
      e.list.length + if (e.insert new).2 = none then 1 else 0 := by
    rw [(e.insert_list new).1, (e.insert_list new).2]
    obtain ⟨hnone, hperm⟩ | ⟨old, l, hsome, -, hl, hl'⟩ := insertInList_perm new e.list
    · rw [hnone, if_pos rfl, hperm.length_eq, length_cons]
    · rw [hsome, if_neg (by simp), hl.length_eq, hl'.length_eq, length_cons, length_cons]
  have hold := (rulesOf_update hR sts).length_eq
  have hnew := (rulesOf_update hR' sts).length_eq
  rw [length_append] at hold hnew
  omega

/-- **A rule comes to a list of equal matches.** -/
lemma Changed.addEqual (h : Changed C cls st st sts) (hmax : MaxOk st)
    (hvector : cls.subtables.Holds (entriesOf (st :: sts)))
    (hpublished : cls.publish → cls.subtables.temp = none) (he : e ∈ st.rules)
    (hnew : new.minimatch = e.head.minimatch) (hid : new.id ∉ (rulesOf (st :: sts)).map ClsMatch.id)
    (hbound : intMin < new.priority) :
    ∃ sts', ClassifierOk C (Classifier.addEqual C cls st e new).1 sts' ∧
      (rulesOf sts').Perm (replaceRules (rulesOf (st :: sts)) new) := by
  have hR : st.rules.Perm (e :: st.rules.erase e) := perm_cons_erase he
  have hst := (h.core.subtables st mem_cons_self).congr hR
  have hhead := hst.heads e mem_cons_self
  have hst' := hst.replaceEqual hnew (h.core.id_not_mem hR)
  obtain ⟨hmask, -, -, hpri, hcount⟩ := subtableReplaceEqual_same st e new
  have hrules := h.core.rulesOf_replaceEqual hR hnew
  have hpriorities := priorities_replaceEqual hst'.rules
  have hlength := length_rulesOf_replaceEqual hR hst'.rules sts
  have hvector' : cls.subtables.Holds (((subtableReplaceEqual C st e new).mask,
      (subtableReplaceEqual C st e new).maxPriority) :: entriesOf sts) := by
    rw [hmask, hpri]
    exact hvector
  unfold Classifier.addEqual
  cases hold : (e.insert new).2 with
  | none =>
    rw [hold] at hlength
    have hchanged := h.replaceEqual (n := cls.nRules + 1) hR hnew hid hbound (by
      rw [h.nRules, hlength]
      rfl)
    have hmax' : IsMaxCount (priorities (subtableReplaceEqual C st e new).rules)
        (if st.maxPriority < new.priority then new.priority else st.maxPriority)
        (if new.priority = st.maxPriority then st.maxCount + 1
          else if st.maxPriority < new.priority then 1 else st.maxCount) := by
      by_cases hlt : e.head.priority < new.priority
      · rw [if_pos hlt] at hpriorities
        exact IsMaxCount.added hmax (.inr ⟨_, _, hlt, priorities_perm hR, hpriorities⟩)
      · -- the head stays, and the new rule is below it
        have hlt' : new.priority < e.head.priority :=
          lt_of_le_of_ne (not_lt.1 hlt) (priority_ne_of_insert hold)
        have hlt'' : new.priority < st.maxPriority :=
          hlt'.trans_le (hmax.le _ (mem_map_of_mem he))
        rw [if_neg hlt] at hpriorities
        rw [if_neg hlt''.not_gt, if_neg hlt''.ne, if_neg hlt''.not_gt]
        exact IsMaxCount.congr hmax ((priorities_perm hR).trans hpriorities.symm)
    rw [← hpri, ← hcount] at hmax'
    obtain ⟨st'', hst'', hok⟩ := hchanged.added (by decide : (0 : ℕ) ≠ 1) hmax' hvector'
    exact ⟨st'' :: sts, hok, hst'' ▸ hrules⟩
  | some old =>
    -- a rule that replaces another one is not above the head
    have hle : new.priority ≤ e.head.priority := by
      have hsome := (e.insert_list new).2.symm.trans hold
      obtain ⟨hnone, -⟩ | ⟨old', l, -, heq, hl, -⟩ := insertInList_perm new e.list
      · rw [hnone] at hsome
        cases hsome
      · rw [← heq]
        exact hhead.sorted.le_head (hl.mem_iff.2 mem_cons_self)
    rw [if_neg hle.not_gt] at hpriorities
    rw [hold, if_neg (by simp), Nat.add_zero] at hlength
    have hchanged := h.replaceEqual (n := cls.nRules) hR hnew hid hbound (by
      rw [h.nRules, hlength])
    have hmax' : MaxOk (subtableReplaceEqual C st e new) := by
      unfold MaxOk
      rw [hpri, hcount]
      exact IsMaxCount.congr hmax ((priorities_perm hR).trans hpriorities.symm)
    exact ⟨subtableReplaceEqual C st e new :: sts, ⟨hchanged.linked hmax' hvector', hpublished⟩,
      hrules⟩

/-- **`classifier_replace()`.** -/
lemma ClassifierOk.replace (h : ClassifierOk C cls sts)
    (hid : new.id ∉ (rulesOf sts).map ClsMatch.id) (hbound : intMin < new.priority) :
    ∃ sts', ClassifierOk C (Classifier.replace C cls new).1 sts' ∧
      (rulesOf sts').Perm (replaceRules (rulesOf sts) new) := by
  obtain ⟨cls', st, sts', hfind, hmask, hpublish, hsubtables, hchanged, hrules, hcases⟩ :=
    h.findOrInsertSubtable new.minimatch.mask
  have hid' : new.id ∉ (rulesOf (st :: sts')).map ClsMatch.id :=
    fun hmem => hid ((hrules.map _).mem_iff.2 hmem)
  have hst := hchanged.core.subtables st mem_cons_self
  have hequal := hst.findEqual new.minimatch.flow
  unfold Classifier.replace
  simp only [hfind]
  split
  · rename_i hnone
    rw [hnone] at hequal
    have hne : ∀ m ∈ rulesOf (st :: sts'), m.minimatch ≠ new.minimatch := by
      intro m hm
      refine hchanged.core.ne_of_others hmask.symm (fun e he => he) (fun e he heq => ?_) hm
      exact hequal (heq ▸ mem_map_of_mem he)
    have hchanged' := hchanged.addHead hmask.symm hequal hid' hbound
    have hreplace : (rulesOf (addHead C st new :: sts')).Perm
        (replaceRules (rulesOf sts) new) := by
      refine .trans (.of_eq ?_) (replaceRules_perm hrules.symm new)
      rw [replaceRules, filter_eq_self.2 fun m hm => by simp [hne m hm]]
      rfl
    have hok : ∃ st'', rulesOf (st'' :: sts') = rulesOf (addHead C st new :: sts') ∧
        ClassifierOk C (Classifier.ruleAdded C (addMatch C cls' st new.minimatch)
          (addHead C st new) (addHead C st new).rules.length new.priority)
          (st'' :: sts') := by
      obtain ⟨hempty, hvector⟩ | ⟨hmax, hvector⟩ := hcases
      · have hlength : (addHead C st new).rules.length = 1 := by
          simp [addHead, hempty]
        rw [hlength]
        refine hchanged'.first ?_ (hsubtables ▸ hvector)
        simp [addHead, hempty, priorities]
      · refine hchanged'.added ?_ ?_ (hsubtables ▸ hvector)
        · obtain ⟨e, he, -⟩ := mem_map.1 hmax.mem
          have := length_pos_of_mem he
          simp only [addHead, length_cons]
          omega
        · exact IsMaxCount.added hmax (.inl (.refl _))
    obtain ⟨st'', hst'', hok⟩ := hok
    exact ⟨st'' :: sts', hok, hst'' ▸ hreplace⟩
  · rename_i e hsome
    rw [hsome] at hequal
    obtain ⟨he, hflow⟩ := hequal
    have hnew : new.minimatch = e.head.minimatch :=
      Match.ext (hflow.symm) (hmask.symm.trans (hst.heads e he).mask.symm)
    obtain ⟨hempty, -⟩ | ⟨hmax, hvector⟩ := hcases
    · rw [hempty] at he
      cases he
    · obtain ⟨sts'', hok, hperm⟩ := hchanged.addEqual hmax (hsubtables ▸ hvector)
        (by rw [hpublish, hsubtables]; exact h.published) he hnew hid' hbound
      exact ⟨sts'', hok, hperm.trans (replaceRules_perm hrules.symm new)⟩

/-! ## `classifier_remove()` -/

/-- What the greatest priority is when the head with priority `p` has gone, or another one with a
lower priority is in its place. -/
lemma Changed.checkPriority (h : Changed C cls st st' sts) {r : List ℤ}
    (hold : IsMaxCount (p :: r) st'.maxPriority st'.maxCount)
    (hnew : (priorities st'.rules).Perm r ∨ ∃ q < p, (priorities st'.rules).Perm (q :: r))
    (hne : st'.rules ≠ [])
    (hvector : cls.subtables.Holds ((st'.mask, st'.maxPriority) :: entriesOf sts)) :
    ∃ st'', rulesOf (st'' :: sts) = rulesOf (st' :: sts) ∧
      LinkedOk C (Classifier.checkPriority cls st' p) (st'' :: sts) := by
  have hkept : ∀ {max count}, IsMaxCount r max count → p ≤ max →
      IsMaxCount (priorities st'.rules) max count := by
    intro max count hr hp
    obtain hnew | ⟨q, hq, hnew⟩ := hnew
    · exact hr.congr hnew.symm
    · exact (hr.cons_lt (hq.trans_le hp)).congr hnew.symm
  unfold Classifier.checkPriority
  split
  · rename_i heq
    rw [heq] at hold
    split
    · -- no head has the greatest priority any more
      have hloop := isMaxCount_maxPriorityLoop st'.rules [] intMin 0
        (fun e he => h.core.bound _ (mem_rulesOf_of_head mem_cons_self he mem_cons_self))
        (.inl ⟨rfl, rfl, rfl⟩) (.inr hne)
      rw [append_nil] at hloop
      refine ⟨st'.setMax (maxPriorityLoop st'.rules intMin 0).1
        (maxPriorityLoop st'.rules intMin 0).2, rfl, ?_⟩
      exact h.linked hloop (hvector.changePriority h.not_mem _)
    · rename_i hcount
      have hmax := hkept ⟨fun q hq => hold.le q (mem_cons_of_mem _ hq), by
        rw [hold.count_eq, count_cons_self, Nat.add_sub_cancel], Nat.pos_of_ne_zero hcount⟩ le_rfl
      rw [← heq] at hmax
      exact ⟨st'.setMax st'.maxPriority (st'.maxCount - 1), rfl, h.linked hmax hvector⟩
  · rename_i hne'
    have hlt : p < st'.maxPriority :=
      lt_of_le_of_ne (hold.le p mem_cons_self) (Ne.symm hne')
    exact ⟨st'.setMax _ _, rfl, h.linked (hkept (hold.of_cons_lt hlt) hlt.le) hvector⟩

/-- Some of the rules of a list of equal matches. -/
lemma HeadOk.of_sublist {e' : ClsHead} (h : HeadOk C st e) (hlist : e'.list.Sublist e.list)
    (hhash : e'.hash = e.hash) (hpartition : e'.partition = e.partition) : HeadOk C st e' := by
  have hhead : e'.head.minimatch = e.head.minimatch :=
    h.same _ (hlist.subset mem_cons_self)
  refine ⟨hhead ▸ h.mask, ?_, ?_, fun m hm => ?_, h.sorted.sublist hlist⟩
  · rw [hhash, hhead, h.hash]
  · rw [hpartition, hhead, h.partition]
  · rw [hhead]
    exact h.same m (hlist.subset hm)

/-- A rule goes from a list of equal matches that has others. -/
lemma LinkedOk.shrink (h : LinkedOk C cls (st :: sts)) {e' : ClsHead} (hR : st.rules.Perm (e :: R))
    (hst' : SubtableOk C st' (e' :: R)) (hmask : st'.mask = st.mask)
    (hofs : st'.indexOfs = st.indexOfs) (hplen : st'.triePlen = st.triePlen) (rule : ClsMatch)
    (hsub : e'.list.Sublist e.list) (hlist : e.list.Perm (rule :: e'.list)) :
    Changed C { cls with nRules := cls.nRules - 1 } st st' sts ∧
      (rulesOf (st :: sts)).Perm (rule :: rulesOf (st' :: sts)) := by
  have hhead := ((h.core.subtables st mem_cons_self).congr hR).heads e mem_cons_self
  have hmatch : e'.head.minimatch = e.head.minimatch :=
    hhead.same _ (hsub.subset mem_cons_self)
  have hrules : (rulesOf (st :: sts)).Perm (rule :: rulesOf (st' :: sts)) :=
    (rulesOf_update hR sts).trans
      ((hlist.append_right _).trans ((rulesOf_update hst'.rules sts).symm.cons rule))
  refine ⟨⟨h.map, hmask, ?_, fun i hi => ?_, (forall_mem_cons.1 h.max).2, ?_⟩, hrules⟩
  · have hnone : e'.list.Subperm ([] ++ e.list) := hsub.subperm
    exact (h.core.update hR hst' hmask hofs hmatch hnone h.core.ids (by simp)).of_eq rfl rfl
  · have hslot := h.slots i hi
    have htrie := hslot.trie.congr (keysOf_update hR hst'.rules hmatch sts)
    exact hslot.of_trie hi (ite_self _).symm rfl (fun _ => htrie) (fun _ => htrie) hmask
      (by rw [hplen])
  · have hlength := hrules.length_eq
    rw [length_cons] at hlength
    simp only [h.nRules]
    omega

lemma others_append {pre post : List ClsMatch} (h : rule ∉ pre) :
    others rule (pre ++ rule :: post) = post ++ pre := by
  have hpre : ∀ m ∈ pre, decide (m ≠ rule) = true := fun m hm => by
    simpa using fun heq : m = rule => h (heq ▸ hm)
  unfold others
  rw [dropWhile_append_of_pos hpre, takeWhile_append_of_pos hpre]
  simp

/-- The rule is not the head of its list. -/
lemma removeFrom_rest (hsorted : ByPriority e.list) (hrule : rule ∈ e.rest) :
    removeFrom C cls st e rule =
      some (setSubtable { cls with nRules := cls.nRules - 1 }
        (st.setHead e { e with rest := e.rest.erase rule })) := by
  obtain ⟨pre, post, hrest⟩ := append_of_mem hrule
  have hlist : e.list = (e.head :: pre) ++ rule :: post := by
    rw [list, hrest, cons_append]
  rw [hlist] at hsorted
  have hgt : ∀ m ∈ e.head :: pre, rule.priority < m.priority := fun m hm =>
    (pairwise_append.1 hsorted).2.2 m hm rule mem_cons_self
  have hothers : others rule e.list = post ++ (e.head :: pre) := by
    rw [hlist, others_append fun hmem => (hgt rule hmem).false]
  unfold removeFrom
  rw [if_pos]
  rw [hothers, getLastD_eq_getLast?, getLast?_append_of_ne_nil _ (cons_ne_nil _ _)]
  exact hgt _ (getLast_mem _)

/-- The rule is the head of a list that has others. -/
lemma removeFrom_head {next : ClsMatch} {rest : List ClsMatch} (hsorted : ByPriority e.list)
    (hrest : e.rest = next :: rest) : removeFrom C cls st e e.head =
      some (publishIf C (Classifier.checkPriority { cls with nRules := cls.nRules - 1 }
        (subtableReplaceHeadRule C st e { e with head := next, rest := rest })
        e.head.priority)) := by
  have hothers : others e.head e.list = next :: rest := by
    rw [← hrest]
    exact (others_append (not_mem_nil)).trans (append_nil _)
  have hlt : ∀ m ∈ next :: rest, m.priority < e.head.priority := fun m hm =>
    (pairwise_cons.1 hsorted).1 m (hrest ▸ hm)
  unfold removeFrom
  simp only [hothers]
  rw [if_neg, if_pos]
  · rfl
  · exact hlt next mem_cons_self
  · exact (hlt _ (getLast_mem _)).not_gt

/-- The last rule of a subtable has gone, and the subtable with it. -/
lemma LinkedOk.destroySubtable {cls' : Classifier} (h : LinkedOk C cls (st :: sts))
    (hempty : st'.rules = []) (hmask : st'.mask = st.mask)
    (hmap : cls'.subtablesMap = cls.subtablesMap) (hsubtables : cls'.subtables = cls.subtables)
    (hcore : CoreOk C cls' (st' :: sts)) (hslots : ∀ i < cls'.nTries, SlotOk C cls' (st' :: sts) i)
    (hnRules : cls'.nRules = (rulesOf (st' :: sts)).length) :
    LinkedOk C (cls'.destroySubtable st'.mask) sts := by
  have hmasks := (nodup_cons.1 h.core.masks).1
  refine ⟨?_, (hcore.of_empty hempty).of_eq rfl rfl, fun i hi =>
    ((hslots i hi).of_empty hempty).of_eq rfl, (forall_mem_cons.1 h.max).2, ?_, ?_⟩
  · show (cls'.subtablesMap.filter _).Perm sts
    rw [hmap, hmask]
    refine (h.map.filter _).trans (.of_eq ?_)
    rw [filter_cons_of_neg (by simp), filter_eq_self.2 fun st'' hst'' => ?_]
    simpa using fun heq : st''.mask = st.mask => hmasks (heq ▸ mem_map_of_mem hst'')
  · show (cls'.subtables.remove st'.mask).Holds _
    rw [hsubtables, hmask]
    refine h.vector.remove ?_
    simpa using hmasks
  · show cls'.nRules = _
    rw [hnRules]
    simp [rulesOf, hempty]

/-- **The last rule of a match goes.** -/
lemma LinkedOk.removeLast {cls₁ : Classifier} (h : LinkedOk C cls (st :: sts)) (he : e ∈ st.rules)
    (hrest : e.rest = []) (hremove : Classifier.removeLast C
      { cls with nRules := cls.nRules - 1 } st e e.head.priority = some cls₁) :
    ∃ sts', ClassifierOk C cls₁ sts' ∧ (rulesOf (st :: sts)).Perm (e.head :: rulesOf sts') := by
  have hR : st.rules.Perm (e :: st.rules.erase e) := perm_cons_erase he
  have hhead := (h.core.subtables st mem_cons_self).heads e he
  obtain ⟨hmax, hmaxs⟩ := forall_mem_cons.1 h.max
  set cls' := removeMatch C { cls with nRules := cls.nRules - 1 } st e with hcls'
  set st' := removeHead C st e with hst'
  have hcore : CoreOk C cls' (st' :: sts) := (h.core.removeHead he).of_eq rfl rfl
  have hslots : ∀ i < cls'.nTries, SlotOk C cls' (st' :: sts) i := fun i hi =>
    ((h.slots i hi).removeHead hi he hhead.mask).of_eq rfl
  have hrules : (rulesOf (st :: sts)).Perm (e.head :: rulesOf (st' :: sts)) := by
    refine (rulesOf_cons hR sts).trans (.of_eq ?_)
    rw [flatMap_cons, list, hrest]
    rfl
  have hnRules : cls'.nRules = (rulesOf (st' :: sts)).length := by
    show cls.nRules - 1 = _
    rw [h.nRules, hrules.length_eq, length_cons]
    omega
  have hmap : cls'.subtablesMap = cls.subtablesMap := rfl
  unfold Classifier.removeLast at hremove
  obtain ⟨-, hremove⟩ := Option.ite_none_right_eq_some.1 hremove
  obtain rfl := Option.some.inj hremove
  simp only [← hst']
  split
  · rename_i hempty
    refine ⟨sts, (h.destroySubtable hempty rfl hmap rfl hcore hslots hnRules).publishIf,
      hrules.trans (.of_eq ?_)⟩
    simp [rulesOf, hempty]
  · rename_i hne
    have hchanged : Changed C cls' st st' sts := ⟨h.map, rfl, hcore, hslots, hmaxs, hnRules⟩
    obtain ⟨st'', hst'', hok⟩ := hchanged.checkPriority (IsMaxCount.congr hmax (priorities_perm hR))
      (.inl (.refl _)) hne h.vector
    exact ⟨st'' :: sts, hok.publishIf, hst''.symm ▸ hrules⟩

/-- **A rule goes from its list of equal matches.** -/
lemma ClassifierOk.removeFrom {cls₁ : Classifier} (h : ClassifierOk C cls (st :: sts))
    (he : e ∈ st.rules) (hrule : rule ∈ e.list)
    (hremove : removeFrom C cls st e rule = some cls₁) :
    ∃ sts', ClassifierOk C cls₁ sts' ∧ (rulesOf (st :: sts)).Perm (rule :: rulesOf sts') := by
  have hR : st.rules.Perm (e :: st.rules.erase e) := perm_cons_erase he
  have hst := (h.core.subtables st mem_cons_self).congr hR
  have hhead := hst.heads e mem_cons_self
  obtain ⟨hmax, hmaxs⟩ := forall_mem_cons.1 h.max
  obtain rfl | hrule := mem_cons.1 hrule
  · cases hrest : e.rest with
    | nil =>
      -- the rule is the only one of its match
      have hothers : others e.head e.list = [] := by
        rw [list, hrest]
        exact others_append not_mem_nil
      exact h.toLinkedOk.removeLast he hrest (by simpa [removeFrom, hothers] using hremove)
    | cons next rest =>
      have hsub : (next :: rest).Sublist e.list := by
        rw [list, hrest]
        exact sublist_cons_self _ _
      have hnext : HeadOk C st { e with head := next, rest := rest } :=
        hhead.of_sublist hsub rfl rfl
      have hst' := hst.replaceHead hnext (hhead.same next (hsub.subset mem_cons_self))
        (h.core.id_not_mem hR)
      obtain ⟨hchanged, hrules⟩ := h.toLinkedOk.shrink hR hst' rfl rfl rfl e.head hsub (by
        rw [list, hrest]
        rfl)
      have hlt : next.priority < e.head.priority :=
        (pairwise_cons.1 hhead.sorted).1 next (hrest ▸ mem_cons_self)
      rw [removeFrom_head hhead.sorted hrest] at hremove
      obtain rfl := Option.some.inj hremove
      obtain ⟨st'', hst'', hok⟩ := hchanged.checkPriority
        (IsMaxCount.congr hmax (priorities_perm hR))
        (.inr ⟨next.priority, hlt, priorities_perm hst'.rules⟩)
        (fun hnil => by simpa [hnil] using hst'.rules.length_eq) h.vector
      exact ⟨st'' :: sts, hok.publishIf, hst''.symm ▸ hrules⟩
  · have hsub : (e.head :: e.rest.erase rule).Sublist e.list := erase_sublist.cons_cons _
    have he' : HeadOk C st { e with rest := e.rest.erase rule } := hhead.of_sublist hsub rfl rfl
    have hst' := hst.setHead he' rfl
    obtain ⟨hchanged, hrules⟩ := h.toLinkedOk.shrink hR hst' rfl rfl rfl rule hsub
      (((perm_cons_erase hrule).cons _).trans (.swap _ _ _))
    rw [removeFrom_rest hhead.sorted hrule] at hremove
    obtain rfl := Option.some.inj hremove
    refine ⟨_, ⟨hchanged.linked ?_ h.vector, h.published⟩, hrules⟩
    exact IsMaxCount.congr hmax ((priorities_perm hR).trans (priorities_perm hst'.rules).symm)

/-- What is removed is a rule in a list of equal matches, if it is there at all. -/
lemma ClassifierOk.remove_cases (h : ClassifierOk C cls sts) (rule : ClsMatch) :
    (rule ∉ rulesOf sts ∧ Classifier.remove C cls rule = some (cls, false)) ∨
      ∃ st e sts', sts.Perm (st :: sts') ∧ e ∈ st.rules ∧ rule ∈ e.list ∧
        Classifier.remove C cls rule = (Classifier.removeFrom C cls st e rule).map (·, true) := by
  unfold Classifier.remove
  split
  · rename_i hfind
    refine .inl ⟨fun hmem => ?_, rfl⟩
    obtain ⟨st, hst, -, -, -, -, hmask⟩ := h.core.exists_head hmem
    have hne := find?_eq_none.1 hfind st (h.map.mem_iff.2 hst)
    simp [hmask] at hne
  · rename_i st hfind
    have hst : st ∈ sts := h.map.mem_iff.1 (mem_of_find?_eq_some hfind)
    have hmask : st.mask = rule.minimatch.mask := by simpa using find?_some hfind
    obtain ⟨a, b, rfl⟩ := append_of_mem hst
    split
    · rename_i hnone
      refine .inl ⟨fun hmem => ?_, rfl⟩
      refine (h.core.congr perm_middle).ne_of_others (R := []) hmask.symm (by simp) (by simp) ?_ rfl
      obtain hmem | hmem := mem_append.1 ((rulesOf_perm (@perm_middle _ st a b)).mem_iff.1 hmem)
      · obtain ⟨e, he, hmem⟩ := mem_flatMap.1 hmem
        have hne := find?_eq_none.1 hnone e he
        simp [hmem] at hne
      · exact hmem
    · rename_i e hsome
      exact .inr ⟨st, e, a ++ b, perm_middle, mem_of_find?_eq_some hsome,
        by simpa using find?_some hsome, rfl⟩

/-- **`classifier_remove()`.** -/
lemma ClassifierOk.remove {cls₁ : Classifier} {found : Bool} (h : ClassifierOk C cls sts)
    (hremove : Classifier.remove C cls rule = some (cls₁, found)) :
    ∃ sts', ClassifierOk C cls₁ sts' ∧ (rulesOf sts').Perm ((rulesOf sts).erase rule) ∧
      (found = true ↔ rule ∈ rulesOf sts) := by
  obtain ⟨hmem, heq⟩ | ⟨st, e, sts', hsts, he, hrule, heq⟩ := h.remove_cases rule
  · rw [heq] at hremove
    cases hremove
    exact ⟨sts, h, by rw [erase_of_not_mem hmem], by simp [hmem]⟩
  · rw [heq] at hremove
    obtain ⟨cls', hfrom, hpair⟩ := Option.map_eq_some_iff.1 hremove
    cases hpair
    have hperm := rulesOf_perm hsts
    obtain ⟨sts'', hok, hrules⟩ :=
      (ClassifierOk.mk (h.toLinkedOk.congr hsts) h.published).removeFrom he hrule hfrom
    have hmem : rule ∈ rulesOf sts := hperm.mem_iff.2 (mem_rulesOf_of_head mem_cons_self he hrule)
    refine ⟨sts'', hok, ?_, by simp [hmem]⟩
    have herase := (hperm.trans hrules).erase rule
    rw [erase_cons_head] at herase
    exact herase.symm

/-- The ports are too short to leave `edges[]`. -/
lemma removeFits_iff (h : LinkedOk C cls (st :: sts)) (he : e ∈ st.rules) :
    removeFits C cls st e = true ↔ ∀ i < cls.nTries,
      fitsEdges (cls.tries i).root (triePrefix C (cls.tries i) e.head.minimatch) = true := by
  have hst := h.core.subtables st mem_cons_self
  have hports : fitsEdges st.portsTrie (portsPrefix e.head.minimatch) = true := by
    refine fitsEdges_of_length hst.portsWf ?_
    have hle : (portsPrefix e.head.minimatch).length ≤ 32 :=
      (length_take_le' _ _).trans (length_beBits _ _ _).le
    exact hle.trans_lt (by decide)
  simp only [removeFits, hports, Bool.or_true, Bool.true_and, all_eq_true, mem_range,
    Bool.or_eq_true, decide_eq_true_eq]
  refine forall₂_congr fun i hi => ?_
  rw [(h.slots i hi).plen st mem_cons_self, ← (hst.heads e he).mask]
  cases hfield : (cls.tries i).field with
  | none => simp [trieFits, triePrefix, hfield, fitsEdges_nil]
  | some id =>
    simp only [trieFits, triePrefix, hfield]
    refine or_iff_right_of_imp fun hzero => ?_
    rw [hzero, minimatchGetPrefix]
    split <;> exact fitsEdges_nil _

/-- **When a removal leaves `edges[]`**: the rule is the only one of its match, and on the way to
its prefix in one of the tries there are too many nodes. -/
lemma ClassifierOk.remove_eq_none_iff (h : ClassifierOk C cls sts) :
    Classifier.remove C cls rule = none ↔ rule ∈ rulesOf sts ∧
      (∀ r ∈ rulesOf sts, r.minimatch = rule.minimatch → r = rule) ∧ ∃ i < cls.nTries,
        fitsEdges (cls.tries i).root (triePrefix C (cls.tries i) rule.minimatch) = false := by
  obtain ⟨hmem, heq⟩ | ⟨st, e, sts', hsts, he, hrule, heq⟩ := h.remove_cases rule
  · simp [heq, hmem]
  have hperm := rulesOf_perm hsts
  have h' := h.toLinkedOk.congr hsts
  have hhead := (h'.core.subtables st mem_cons_self).heads e he
  have hin : ∀ r ∈ e.list, r ∈ rulesOf sts := fun r hr =>
    hperm.mem_iff.2 (mem_rulesOf_of_head mem_cons_self he hr)
  rw [heq, Option.map_eq_none_iff]
  -- the rule is not the only one if there is another one in its list
  have hother : ∀ r ∈ e.list, r ≠ rule → ¬∀ r ∈ rulesOf sts, r.minimatch = rule.minimatch →
      r = rule := fun r hr hne honly =>
    hne (honly r (hin r hr) ((hhead.same r hr).trans (hhead.same rule hrule).symm))
  have hsorted := hhead.sorted
  obtain rfl | hrest := mem_cons.1 hrule
  · cases hrest : e.rest with
    | nil =>
      have hothers : others e.head e.list = [] := by
        rw [list, hrest]
        exact others_append not_mem_nil
      have honly : ∀ r ∈ rulesOf sts, r.minimatch = e.head.minimatch → r = e.head := by
        intro r hr hmatch
        have hmem := h'.core.mem_list mem_cons_self he (hperm.mem_iff.1 hr) hmatch
        simpa [list, hrest] using hmem
      have hlast : Classifier.removeFrom C cls st e e.head = Classifier.removeLast C
          { cls with nRules := cls.nRules - 1 } st e e.head.priority := by
        simp [Classifier.removeFrom, hothers]
      have hfits := (removeFits_iff h' he).not
      have hmem := hin e.head mem_cons_self
      rw [hlast, Classifier.removeLast, and_iff_right hmem, and_iff_right honly]
      simpa [removeFits] using hfits
    | cons next rest =>
      have hlt : next.priority < e.head.priority :=
        (pairwise_cons.1 hsorted).1 next (hrest ▸ mem_cons_self)
      rw [removeFrom_head hsorted hrest]
      have hno := hother next (by simp [list, hrest]) fun heq => (heq ▸ hlt).false
      simp [hno]
  · have hlt : rule.priority < e.head.priority := (pairwise_cons.1 hsorted).1 rule hrest
    rw [removeFrom_rest hsorted hrest]
    have hno := hother e.head mem_cons_self fun heq => (heq ▸ hlt).false
    simp [hno]

end

end OVS
