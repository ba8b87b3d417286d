import OpenVSwitch.Classifier.Update

/-!
# Runs of the classifier

`classifier_replace()`, `classifier_remove()` and `classifier_set_prefix_fields()` in any order,
with publishing of the vector of subtables deferred or not.  `Run` has the classifiers that this
leads to, together with the rules that they should have.

**The least priority.**  The vector gives entries that are to go the priority `INT_MIN`.  Rules must
not have it: `vector_lacks_subtable` is a run in which one has.
-/

namespace OVS

open Flow List Function Classifier

section

variable {C : ClsConfig}

/-! ## `classifier_set_prefix_fields()` -/

lemma TrieOk.nil (field : Option ℕ) : TrieOk C ⟨field, .nil⟩ [] := ⟨trivial, fun _ => rfl⟩

variable {trie : ClsTrie} {keys : List (Match flowBits)} {st : ClsSubtable} {sts : List ClsSubtable}
  {cls : Classifier} {rules : List ClsMatch} {metadata : BitVec 64} {slot : ℕ → Prop}
  {field : Option ℕ} {es : List ClsHead}

/-- Matches without a prefix are not in the trie. -/
lemma TrieOk.append (h : TrieOk C trie keys) {ms : List (Match flowBits)}
    (hms : ∀ m ∈ ms, triePrefixLen C trie m.mask = 0) : TrieOk C trie (ms ++ keys) := by
  induction ms with
  | nil => exact h
  | cons m ms ih =>
    obtain ⟨hm, hms⟩ := forall_mem_cons.1 hms
    exact (TrieOk.cons_iff hm).2 (ih hms)

/-- The matches of a subtable come into the trie. -/
lemma TrieOk.insertSubtable (hst : ∀ e ∈ st.rules, e.head.minimatch.mask = st.mask)
    (h : TrieOk C trie keys) : TrieOk C (trieInsertSubtable C trie st)
        ((st.rules.map fun e => e.head.minimatch) ++ keys) ∧
      (trieInsertSubtable C trie st).field = trie.field := by
  unfold trieInsertSubtable
  simp only
  split
  · rename_i hne
    generalize hplen : triePrefixLen C trie st.mask = plen at hne ⊢
    generalize st.rules = es at hst ⊢
    induction es generalizing trie keys with
    | nil => exact ⟨h, rfl⟩
    | cons e es ih =>
      obtain ⟨he, hst⟩ := forall_mem_cons.1 hst
      have hplen' : triePrefixLen C trie e.head.minimatch.mask = plen := he ▸ hplen
      have h' := h.insert (hplen'.symm ▸ hne)
      rw [hplen'] at h'
      have hfield := trieInsert_field C trie e.head.minimatch plen
      obtain ⟨hok, hsame⟩ := ih h' ((triePrefixLen_congr hfield st.mask).trans hplen) hst
      exact ⟨hok.congr perm_middle, hsame.trans hfield⟩
  · rename_i hlen
    refine ⟨h.append fun m hm => ?_, rfl⟩
    obtain ⟨e, he, rfl⟩ := mem_map.1 hm
    rw [hst e he]
    exact not_not.1 hlen

lemma TrieOk.insertSubtables (hsts : ∀ st ∈ sts, ∀ e ∈ st.rules, e.head.minimatch.mask = st.mask)
    (h : TrieOk C trie keys) :
    TrieOk C (sts.foldl (trieInsertSubtable C) trie) (keysOf sts ++ keys) ∧
      (sts.foldl (trieInsertSubtable C) trie).field = trie.field := by
  induction sts generalizing trie keys with
  | nil => exact ⟨h, rfl⟩
  | cons st sts ih =>
    obtain ⟨hst, hsts⟩ := forall_mem_cons.1 hsts
    obtain ⟨hok, hfield⟩ := h.insertSubtable hst
    obtain ⟨hok', hfield'⟩ := ih hsts hok
    refine ⟨hok'.congr ?_, hfield'.trans hfield⟩
    rw [← append_assoc]
    exact perm_append_comm.append_right keys

/-- The classifier has the subtables `sts`, and the tries for which `slot` holds are right. -/
structure PrefixOk (C : ClsConfig) (slot : ℕ → Prop) (cls : Classifier)
    (sts : List ClsSubtable) : Prop where
  map : cls.subtablesMap.Perm sts
  core : CoreOk C cls sts
  slots : ∀ i, slot i → SlotOk C cls sts i
  max : ∀ st ∈ sts, MaxOk st
  vector : cls.subtables.Holds (entriesOf sts)
  nRules : cls.nRules = (rulesOf sts).length

/-- The subtable with another prefix length. -/
def setPlen (C : ClsConfig) (i : ℕ) (field : Option ℕ) (st : ClsSubtable) : ClsSubtable :=
  { st with triePlen := update st.triePlen i (triePrefixLen C ⟨field, .nil⟩ st.mask) }

lemma SubtableOk.setPlen (h : SubtableOk C st es) (i : ℕ) (field : Option ℕ) :
    SubtableOk C (setPlen C i field st) es :=
  { h with
    heads e he := (h.heads e he).congr rfl rfl }

lemma keysOf_setPlen (i : ℕ) : keysOf (sts.map (setPlen C i field)) = keysOf sts :=
  flatMap_map ..

lemma rulesOf_setPlen (i : ℕ) : rulesOf (sts.map (setPlen C i field)) = rulesOf sts :=
  flatMap_map ..

lemma map_setPlen {β : Type} (f : ClsSubtable → β) (i : ℕ) (field : Option ℕ)
    (hf : ∀ st, f (setPlen C i field st) = f st) :
    (sts.map (setPlen C i field)).map f = sts.map f := by
  rw [map_map]
  exact map_congr_left fun st _ => hf st

/-- **One trie gets another field.** -/
lemma PrefixOk.trieInit (h : PrefixOk C slot cls sts) (i : ℕ) (field : Option ℕ) :
    PrefixOk C (fun j => slot j ∨ j = i) (Classifier.trieInit C cls i field)
      (sts.map (setPlen C i field)) where
  map := h.map.map _
  core := by
    refine ⟨h.core.segments,
      forall_mem_map.2 fun st hst => (h.core.subtables st hst).setPlen i field,
      forall_mem_map.2 h.core.indexOfs, ?_, ?_, ?_, ?_⟩
    · rw [map_setPlen ClsSubtable.mask i field fun _ => rfl]
      exact h.core.masks
    · rw [keysOf_setPlen]
      exact h.core.partitions
    · rw [rulesOf_setPlen]
      exact h.core.ids
    · rw [rulesOf_setPlen]
      exact h.core.bound
  slots j hj := by
    by_cases hji : j = i
    · subst hji
      have hmask : ∀ st ∈ cls.subtablesMap, ∀ e ∈ st.rules, e.head.minimatch.mask = st.mask :=
        fun st hst e he => ((h.core.subtables st (h.map.mem_iff.1 hst)).heads e he).mask
      obtain ⟨htrie, hfield⟩ := (TrieOk.nil (C := C) field).insertSubtables hmask
      rw [append_nil, ← trieOf] at htrie
      rw [← trieOf] at hfield
      have htries : (Classifier.trieInit C cls j field).tries j =
          trieOf C field cls.subtablesMap := update_self ..
      refine ⟨?_, forall_mem_map.2 fun st _ => ?_⟩
      · rw [htries, keysOf_setPlen]
        exact htrie.congr (keysOf_perm h.map)
      · rw [htries, @triePrefixLen_congr C ⟨field, .nil⟩ _ hfield]
        exact update_self ..
    · have hslot := h.slots j (hj.resolve_right hji)
      have htries : (Classifier.trieInit C cls i field).tries j = cls.tries j :=
        update_of_ne hji ..
      refine ⟨?_, forall_mem_map.2 fun st hst => ?_⟩
      · rw [htries, keysOf_setPlen]
        exact hslot.trie
      · rw [htries]
        exact (update_of_ne hji ..).trans (hslot.plen st hst)
  max := forall_mem_map.2 h.max
  vector := by
    rw [entriesOf, map_setPlen _ i field fun _ => rfl]
    exact h.vector
  nRules := by
    rw [rulesOf_setPlen]
    exact h.nRules

/-- What `trie_init()` leaves as it is. -/
def SameFrame (cls cls' : Classifier) : Prop :=
  cls'.publish = cls.publish ∧ cls'.subtables = cls.subtables ∧ cls'.nTries = cls.nTries

/-- A loop of `trie_init()`. -/
lemma PrefixOk.trieInits {α : Type} (index : α → ℕ) (field : α → Option ℕ) (l : List α)
    (h : PrefixOk C slot cls sts) : ∃ sts', PrefixOk C (fun j => slot j ∨ j ∈ l.map index)
        (l.foldl (fun cls a => Classifier.trieInit C cls (index a) (field a)) cls) sts' ∧
      rulesOf sts' = rulesOf sts ∧
      SameFrame cls (l.foldl (fun cls a => Classifier.trieInit C cls (index a) (field a)) cls) := by
  induction l generalizing slot cls sts with
  | nil => exact ⟨sts, by simpa using h, rfl, rfl, rfl, rfl⟩
  | cons a l ih =>
    obtain ⟨sts', hok, hrules, hpublish, hsubtables, hn⟩ := ih (h.trieInit (index a) (field a))
    refine ⟨sts', ?_, hrules.trans (rulesOf_setPlen ..), hpublish, hsubtables, hn⟩
    simpa [or_assoc] using hok

section

variable (h : ClassifierOk C cls sts)
include h

/-- **`classifier_set_prefix_fields()`.** -/
lemma ClassifierOk.setPrefixFields (trieFields : List ℕ) :
    ∃ sts', ClassifierOk C (Classifier.setPrefixFields C cls trieFields) sts' ∧
      rulesOf sts' = rulesOf sts := by
  unfold Classifier.setPrefixFields
  set fields := newTrieFields C trieFields []
  simp only
  split
  · have hprefix : PrefixOk C (· < cls.nTries) cls sts :=
      { h with }
    obtain ⟨sts', hok, hrules, hpublish, hsubtables, -⟩ := hprefix.trieInits (fun f => f.2)
      (fun f => some f.1) (fields.zipIdx.filter fun f => cls.trieChanged f.2 f.1)
    obtain ⟨sts'', hok', hrules', hpublish', hsubtables', -⟩ := hok.trieInits (fun i => i)
      (fun _ => none) (range' fields.length (cls.nTries - fields.length))
    refine ⟨sts'', ⟨⟨hok'.map, hok'.core.of_eq rfl rfl, fun i hi => ?_, hok'.max, hok'.vector,
      hok'.nRules⟩, fun hpub => ?_⟩, hrules'.trans hrules⟩
    · refine (hok'.slots i (.inl ?_)).of_eq rfl
      by_cases hchanged : cls.trieChanged i fields[i] = true
      · refine .inr (mem_map.2 ⟨(fields[i], i), mem_filter.2 ⟨?_, hchanged⟩, rfl⟩)
        exact mem_zipIdx_iff_getElem?.2 (getElem?_eq_getElem hi)
      · refine .inl ?_
        simp only [trieChanged, Bool.or_eq_true, decide_eq_true_eq, not_or,
          not_le] at hchanged
        exact hchanged.1
    · have hpub' : cls.publish = true := by
        rw [← hpublish, ← hpublish']
        exact hpub
      rw [hsubtables', hsubtables]
      exact h.published hpub'
  · exact ⟨sts, h, rfl⟩

omit h in
lemma ClassifierOk.init {flowSegments : List ℕ} (h : flowSegments.Pairwise (· < ·)) :
    ClassifierOk C (.init flowSegments) [] where
  map := .refl _
  core := {
    segments := by
      refine ⟨h.sublist ((take_sublist _ _).trans (takeWhile_sublist _)), fun s hs => ?_⟩
      simpa using mem_takeWhile_imp (mem_of_mem_take hs)
    subtables := by simp
    indexOfs := by simp
    masks := nodup_nil
    partitions := ⟨nodup_nil, by simp [Classifier.init], by
      simp [Classifier.init, tagsOf, keysOf]⟩
    ids := nodup_nil
    bound := by simp [rulesOf] }
  slots i hi := absurd hi (Nat.not_lt_zero i)
  max := by simp
  vector := .init
  nRules := rfl
  published _ := rfl

lemma ClassifierOk.defer : ClassifierOk C cls.defer sts :=
  { h with
    core := h.core.of_eq rfl rfl
    slots i hi := (h.slots i hi).of_eq rfl
    published hpublish := by cases hpublish }

lemma ClassifierOk.publishNow : ClassifierOk C (publishNow C cls) sts :=
  { h with
    core := h.core.of_eq rfl rfl
    slots i hi := (h.slots i hi).of_eq rfl
    vector := h.vector.publish _ h.bound
    published _ := PVector.publish_temp _ }

/-! ## Runs -/

/-- What is done to a classifier. -/
inductive ClsOp where
  | replace (new : ClsMatch)
  | remove (rule : ClsMatch)
  | setPrefixFields (trieFields : List ℕ)
  | defer
  | publish

variable (C)

/-- An operation.  There is no result if a removal leaves `edges[]`. -/
def Classifier.apply (cls : Classifier) : ClsOp → Option Classifier
  | .replace new => some (cls.replace C new).1
  | .remove rule => (cls.remove C rule).map Prod.fst
  | .setPrefixFields trieFields => some (cls.setPrefixFields C trieFields)
  | .defer => some cls.defer
  | .publish => some (cls.publishNow C)

variable {C}

/-- The rules that there should be after an operation. -/
def applyRules (rules : List ClsMatch) : ClsOp → List ClsMatch
  | .replace new => replaceRules rules new
  | .remove rule => rules.erase rule
  | _ => rules

/-- A rule that is put into a classifier is not in it yet, and is one of the rules that are
allowed. -/
def ClsOp.Ok (allowed : ClsMatch → Prop) (rules : List ClsMatch) : ClsOp → Prop
  | .replace new => new.id ∉ rules.map ClsMatch.id ∧ allowed new
  | _ => True

/-- The classifiers that sequences of operations lead to, with the rules that they should have.  The
boundaries of the segments of a flow are in order, and no removal leaves `edges[]`. -/
inductive Run (C : ClsConfig) (allowed : ClsMatch → Prop) : Classifier → List ClsMatch → Prop
  | init {flowSegments : List ℕ} (h : flowSegments.Pairwise (· < ·)) :
      Run C allowed (.init flowSegments) []
  | step {cls cls' : Classifier} {rules : List ClsMatch} (op : ClsOp) (h : Run C allowed cls rules)
      (hop : op.Ok allowed rules) (hstep : cls.apply C op = some cls') :
      Run C allowed cls' (applyRules rules op)

/-- **One operation keeps everything right.** -/
lemma ClassifierOk.apply {allowed : ClsMatch → Prop}
    (hallowed : ∀ r, allowed r → intMin < r.priority) {op : ClsOp}
    (hrules : (rulesOf sts).Perm rules) (hop : op.Ok allowed rules) {cls₁ : Classifier}
    (hstep : cls.apply C op = some cls₁) :
    ∃ sts', ClassifierOk C cls₁ sts' ∧ (rulesOf sts').Perm (applyRules rules op) := by
  cases op with
  | replace new =>
    cases hstep
    obtain ⟨sts', hok, hperm⟩ := h.replace
      (fun hmem => hop.1 ((hrules.map _).mem_iff.1 hmem)) (hallowed new hop.2)
    exact ⟨sts', hok, hperm.trans (replaceRules_perm hrules new)⟩
  | remove rule =>
    obtain ⟨⟨cls', found⟩, hremove, rfl⟩ := Option.map_eq_some_iff.1 hstep
    obtain ⟨sts', hok, hperm, -⟩ := h.remove hremove
    exact ⟨sts', hok, hperm.trans (hrules.erase rule)⟩
  | setPrefixFields trieFields =>
    cases hstep
    obtain ⟨sts', hok, hsame⟩ := h.setPrefixFields trieFields
    exact ⟨sts', hok, hsame ▸ hrules⟩
  | defer =>
    cases hstep
    exact ⟨sts, h.defer, hrules⟩
  | publish =>
    cases hstep
    exact ⟨sts, h.publishNow, hrules⟩

end

/-- **Everything is right after any run.** -/
lemma Run.classifierOk {allowed : ClsMatch → Prop} (hallowed : ∀ r, allowed r → intMin < r.priority)
    (h : Run C allowed cls rules) : ∃ sts, ClassifierOk C cls sts ∧ (rulesOf sts).Perm rules := by
  induction h with
  | init h => exact ⟨[], .init h, .refl _⟩
  | step op _ hop hstep ih =>
    obtain ⟨sts, hok, hrules⟩ := ih
    exact hok.apply hallowed hrules hop hstep

/-- The rules of a run are rules that are allowed. -/
lemma Run.allowed {allowed : ClsMatch → Prop} (h : Run C allowed cls rules) :
    ∀ r ∈ rules, allowed r := by
  induction h with
  | init => simp
  | step op _ hop _ ih =>
    intro r hr
    cases op with
    | replace new =>
      obtain rfl | hr := mem_cons.1 hr
      · exact hop.2
      · exact ih r (mem_of_mem_filter hr)
    | remove rule => exact ih r (mem_of_mem_erase hr)
    | setPrefixFields | defer | publish => exact ih r hr

/-- A classifier with rules. -/
def classifierOf (C : ClsConfig) (rules : List ClsMatch) : Classifier :=
  rules.foldl (fun cls rule => (cls.replace C rule).1) (.init flowSegmentU64s)

/-- Rules with different numbers and matches can be put into a classifier one by one. -/
lemma run_classifierOf {allowed : ClsMatch → Prop} {new : List ClsMatch}
    (hids : (new.map ClsMatch.id).Nodup) (hmatch : (new.map ClsMatch.minimatch).Nodup)
    (hnew : ∀ r ∈ new, allowed r) : Run C allowed (classifierOf C new) new.reverse := by
  induction new using reverseRecOn with
  | nil => exact .init flowSegmentU64s_sorted
  | append_singleton new rule ih =>
    rw [map_append, nodup_append] at hids hmatch
    have hrun := ih hids.1 hmatch.1 fun r hr => hnew r (mem_append_left _ hr)
    have hrules : applyRules new.reverse (.replace rule) = (new ++ [rule]).reverse := by
      rw [reverse_append, applyRules, replaceRules, filter_eq_self.2]
      · rfl
      · intro r hr
        have hne := hmatch.2.2 r.minimatch (mem_map_of_mem (mem_reverse.1 hr)) rule.minimatch
          (by simp)
        simp [hne]
    rw [← hrules, classifierOf, foldl_append]
    refine .step (.replace rule) hrun ⟨fun hid => ?_, hnew rule (by simp)⟩ rfl
    obtain ⟨r, hr, hid⟩ := mem_map.1 hid
    exact hids.2.2 r.id (mem_map_of_mem (mem_reverse.1 hr)) rule.id (by simp) hid

/-! ## The representation invariant -/

/-- The heads of a subtable have the value of `metadata`. -/
def ClsSubtable.HasMetadata (st : ClsSubtable) (metadata : BitVec 64) : Prop :=
  ∃ e ∈ st.rules, metadataExact e.head.minimatch.mask ∧
    word e.head.minimatch.flow metadataOfs64 = metadata

/-- All data structures of a published classifier agree. -/
structure Consistent (cls : Classifier) : Prop where
  nonempty : ∀ st ∈ cls.subtablesMap, st.rules ≠ []
  once : ∀ st ∈ cls.subtablesMap,
    (cls.subtables.impl.vector.map PVectorEntry.ptr).count (some st.mask) = 1
  entries : ∀ entry ∈ cls.subtables.impl.vector, ∃ st ∈ cls.subtablesMap,
    entry.ptr = some st.mask ∧ entry.priority = st.maxPriority
  sorted : cls.subtables.impl.vector.Pairwise fun a b => b.priority ≤ a.priority
  maxPriority : ∀ st ∈ cls.subtablesMap, IsGreatest
    { p | ∃ e ∈ st.rules, ∃ m ∈ e.list, m.priority = p } st.maxPriority
  maxCount : ∀ st ∈ cls.subtablesMap,
    st.maxCount = st.rules.countP fun e => e.head.priority = st.maxPriority
  decreasing : ∀ st ∈ cls.subtablesMap, ∀ e ∈ st.rules, ByPriority e.list
  nRules : cls.nRules = (rulesOf cls.subtablesMap).length
  partitions : ∀ metadata, (∃ p ∈ cls.partitions, p.metadata = metadata) ↔
    ∃ st ∈ cls.subtablesMap, st.HasMetadata metadata
  tags : ∀ p ∈ cls.partitions, ∀ st ∈ cls.subtablesMap, st.HasMetadata p.metadata →
    st.tag &&& p.tracker.tags = st.tag

/-- The vector has an entry for each subtable. -/
lemma ClassifierOk.ptr_perm (h : ClassifierOk C cls sts) (hpublish : cls.publish = true) :
    (cls.subtables.impl.vector.map fun entry => (entry.ptr, entry.priority)).Perm
      (sts.map fun st => (some st.mask, st.maxPriority)) := by
  have htemp := h.published hpublish
  have hperm := h.vector.perm
  rw [PVector.current_of_none htemp] at hperm
  have hmap := hperm.map fun q => (some q.1, q.2)
  rw [entriesOf, map_map] at hmap
  refine .trans (.of_eq ?_) hmap
  rw [map_filterMap]
  refine (filterMap_eq_map_iff_forall_eq_some.2 fun entry hentry => ?_).symm
  obtain ⟨ptr, hptr⟩ := Option.ne_none_iff_exists'.1
    ((h.vector.published htemp).1 entry hentry)
  simp [PVector.pair?, hptr]

/-- The partition of a head. -/
lemma matchPartition_eq_some {m : Match flowBits} : matchPartition m = some metadata ↔
      metadataExact m.mask ∧ word m.flow metadataOfs64 = metadata := by
  unfold matchPartition
  split <;> simp [*]

/-- The tags of a value of `metadata` are those of the subtables that have it. -/
lemma CoreOk.mem_tagsOf (h : CoreOk C cls sts) {tag : BitVec 32} :
    tag ∈ tagsOf C (keysOf sts) metadata ↔ ∃ st ∈ sts, st.HasMetadata metadata ∧ st.tag = tag := by
  constructor
  · intro hmem
    obtain ⟨m, hm, rfl⟩ := mem_map.1 hmem
    obtain ⟨hm, hpartition⟩ := mem_filter.1 hm
    obtain ⟨st, hst, hm⟩ := mem_flatMap.1 hm
    obtain ⟨e, he, rfl⟩ := mem_map.1 hm
    refine ⟨st, hst, ⟨e, he, matchPartition_eq_some.1 (of_decide_eq_true hpartition)⟩, ?_⟩
    rw [(h.subtables st hst).tag, ((h.subtables st hst).heads e he).mask]
  · rintro ⟨st, hst, ⟨e, he, hmeta⟩, rfl⟩
    refine mem_map.2 ⟨e.head.minimatch, mem_filter.2 ⟨?_, ?_⟩, ?_⟩
    · exact mem_flatMap.2 ⟨st, hst, mem_map_of_mem he⟩
    · exact decide_eq_true (matchPartition_eq_some.2 hmeta)
    · rw [(h.subtables st hst).tag, ((h.subtables st hst).heads e he).mask]

lemma ClassifierOk.consistent (h : ClassifierOk C cls sts) (hpublish : cls.publish = true) :
    Consistent cls := by
  have hmem : ∀ {st}, st ∈ cls.subtablesMap ↔ st ∈ sts := h.map.mem_iff
  have hptr := h.ptr_perm hpublish
  have hsorted : ∀ st ∈ cls.subtablesMap, ∀ e ∈ st.rules, ByPriority e.list :=
    fun st hst e he => ((h.core.subtables st (hmem.1 hst)).heads e he).sorted
  refine ⟨fun st hst hnil => ?_, fun st hst => ?_, fun entry hentry => ?_,
    (h.vector.published (h.published hpublish)).2,
    fun st hst => ⟨?_, ?_⟩, fun st hst => ?_, hsorted,
    by rw [h.nRules, (rulesOf_perm h.map).length_eq], fun metadata => ?_,
    fun p hp st hst hmeta => ?_⟩
  · obtain ⟨e, he, -⟩ := mem_map.1 (h.max st (hmem.1 hst)).mem
    rw [hnil] at he
    cases he
  · have hmap : (cls.subtables.impl.vector.map PVectorEntry.ptr).Perm
        ((sts.map ClsSubtable.mask).map some) := by
      have hfst := hptr.map Prod.fst
      rw [map_map, map_map] at hfst
      rw [map_map]
      exact hfst
    refine (hmap.count_eq _).trans (count_eq_one_of_mem ?_ ?_)
    · exact h.core.masks.map (Option.some_injective _)
    · exact mem_map_of_mem (mem_map_of_mem (hmem.1 hst))
  · obtain ⟨st, hst, heq⟩ := mem_map.1 (hptr.mem_iff.1 (mem_map_of_mem hentry))
    rw [Prod.mk.injEq] at heq
    exact ⟨st, hmem.2 hst, heq.1.symm, heq.2.symm⟩
  · obtain ⟨e, he, heq⟩ := mem_map.1 (h.max st (hmem.1 hst)).mem
    exact ⟨e, he, e.head, mem_cons_self, heq⟩
  · rintro p ⟨e, he, m, hm, rfl⟩
    exact ((hsorted st hst e he).le_head hm).trans
      ((h.max st (hmem.1 hst)).le _ (mem_map_of_mem he))
  · rw [(h.max st (hmem.1 hst)).count_eq, count_eq_countP, priorities, countP_map]
    rfl
  · rw [← mem_map, h.core.partitions.exist, ← length_pos_iff_ne_nil, length_pos_iff_exists_mem]
    simp only [h.core.mem_tagsOf, hmem]
    constructor
    · rintro ⟨-, st, hst, hmeta, -⟩
      exact ⟨st, hst, hmeta⟩
    · rintro ⟨st, hst, hmeta⟩
      exact ⟨st.tag, st, hst, hmeta, rfl⟩
  · have htag := h.core.mem_tagsOf.2 ⟨st, hmem.1 hst, hmeta, rfl⟩
    refine BitVec.eq_of_getLsbD_eq fun b _ => ?_
    rw [BitVec.getLsbD_and, Bool.and_eq_left_iff_imp]
    exact (h.core.partitions.tracks p hp).getLsbD htag

/-- **A classifier with publishing enabled is consistent**, whatever rules have been inserted and
removed, as long as none has the priority `INT_MIN`. -/
theorem consistent_of_run {cls : Classifier} {rules : List ClsMatch}
    (h : Run C (fun r => intMin < r.priority) cls rules) (hpublish : cls.publish = true) :
    Consistent cls := by
  obtain ⟨sts, hok, -⟩ := h.classifierOk fun _ hr => hr
  exact hok.consistent hpublish

end

/-- A configuration to try the classifier with. -/
def plainConfig : ClsConfig where
  hashWords _ := 0
  minimaskHash _ := 0
  mfFromId _ := ⟨none, 0, fun _ => true⟩
  qsort := stableSort

/-- A rule that matches one word of the flow. -/
def wordRule (id i : ℕ) (priority : ℤ) : ClsMatch :=
  ⟨id, .ofMasked (ofWord i 1) (ofWord i 1), priority, []⟩

/-- Two rules in two subtables. -/
theorem consistent_of_run_twoRules :
    Consistent (((Classifier.init flowSegmentU64s).replace plainConfig
      (wordRule 1 0 5)).1.replace plainConfig (wordRule 2 20 7)).1 :=
  consistent_of_run (.step (.replace _) (.step (.replace _) (.init flowSegmentU64s_sorted)
    ⟨by decide, by decide⟩ rfl) ⟨by decide +kernel, by decide⟩ rfl) (by decide +kernel)

/-- The classifier after a rule of the least priority, and one of another mask. -/
def leastPriority : Classifier :=
  (((Classifier.init flowSegmentU64s).replace plainConfig (wordRule 1 0 intMin)).1.replace
    plainConfig (wordRule 2 20 0)).1

/-- The subtable of the least priority goes from the vector as if it were a gap. -/
theorem vector_lacks_subtable :
    ∃ cls rules, Run plainConfig (fun _ => True) cls rules ∧ cls.publish = true ∧
      ¬ Consistent cls := by
  refine ⟨leastPriority, _, .step (.replace _) (.step (.replace _) (.init flowSegmentU64s_sorted)
    ⟨by decide, trivial⟩ rfl) ⟨by decide +kernel, trivial⟩ rfl, by decide +kernel, fun h => ?_⟩
  have hmem : ofWord 0 1 ∈ leastPriority.subtablesMap.map ClsSubtable.mask := by
    decide +kernel
  obtain ⟨st, hst, hmask⟩ := mem_map.1 hmem
  have honce := h.once st hst
  rw [hmask] at honce
  revert honce
  decide +kernel

end OVS
