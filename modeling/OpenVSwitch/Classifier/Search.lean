import Mathlib.Data.List.Flatten
import OpenVSwitch.Classifier.Lookup
import OpenVSwitch.Lib.Keyed

/-!
# Lookup finds what a search of all rules finds

**One subtable.**  All heads of a subtable have the same mask and different values, so at most one
matches a flow (`subtableMatch`).  The tries, the indices and the tags rule out subtables that have
none (`checkTries_some`, `findMatchWc_fst`, `tagIntersects_of_matches`).

**All subtables.**  The main loop is then one that looks at the heads only (`searchLoop`), and the
order of the vector makes it right to stop early.
-/

namespace OVS

open Flow List

/-! ## Words of a flow under a mask -/

/-- Flows that are equal under a mask in a range of words have the same words there. -/
lemma rangeWords_congr {mask x y : Flow} {start stop : ℕ}
    (h : ∀ i, start ≤ i → i < stop → word (x &&& mask) i = word (y &&& mask) i) :
    rangeWords mask x start stop = rangeWords mask y start stop := by
  refine map_congr_left fun i hi => ?_
  obtain ⟨hle, hlt⟩ := mem_range'_1.1 (mem_filter.1 hi).1
  exact h i hle (by omega)

/-- The masked words of two adjacent ranges are those of the range they make up. -/
lemma rangeWords_append (mask x : Flow) {start mid stop : ℕ} (h1 : start ≤ mid) (h2 : mid ≤ stop) :
    rangeWords mask x start mid ++ rangeWords mask x mid stop = rangeWords mask x start stop := by
  unfold rangeWords
  rw [← map_append, ← filter_append]
  congr 2
  have hrange := @range'_append start (mid - start) (stop - mid) 1
  rw [Nat.one_mul, Nat.add_sub_cancel' h1] at hrange
  rw [hrange]
  congr 1
  omega

/-- The segments are hashed as one range. -/
lemma segmentWords_eq (mask x : Flow) {ofs : List ℕ} (h : ofs.Pairwise (· < ·)) :
    segmentWords mask x ofs = rangeWords mask x 0 (ofs.getLastD 0) := by
  unfold segmentWords
  suffices ∀ start, (∀ stop ∈ ofs, start ≤ stop) →
      ofs.foldl (fun s stop => (s.1 ++ rangeWords mask x s.2 stop, stop))
        (rangeWords mask x 0 start, start) =
      (rangeWords mask x 0 (ofs.getLastD start), ofs.getLastD start) by
    simpa [rangeWords] using congrArg Prod.fst (this 0 fun _ _ => Nat.zero_le _)
  induction ofs with
  | nil => exact fun start _ => rfl
  | cons stop ofs ih =>
    intro start hstart
    obtain ⟨hstop, hofs⟩ := pairwise_cons.1 h
    rw [foldl_cons, rangeWords_append mask x (Nat.zero_le _) (hstart stop mem_cons_self),
      ih hofs stop fun s hs => (hstop s hs).le]
    cases ofs with
    | nil => rfl
    | cons s ofs => rfl

/-- Flows that agree under a mask have the same masked words in every segment. -/
lemma segmentWords_congr {mask x y : Flow} (h : x &&& mask = y &&& mask) (ofs : List ℕ) :
    segmentWords mask x ofs = segmentWords mask y ofs := by
  unfold segmentWords
  have hrange : ∀ start stop, rangeWords mask x start stop = rangeWords mask y start stop :=
    fun start stop => rangeWords_congr fun i _ _ => by rw [h]
  simp only [hrange]

/-- The state of the loop over the segments only collects boundaries. -/
lemma segmentStep_sublist (mask : Flow) (segments : List ℕ) (s : SegmentState) :
    ∃ l, l.Sublist segments ∧ (segments.foldl (segmentStep mask) s).indexOfs = s.indexOfs ++ l := by
  induction segments generalizing s with
  | nil => exact ⟨[], .slnil, by simp⟩
  | cons segment segments ih =>
    obtain ⟨l, hl, heq⟩ := ih (segmentStep mask s segment)
    rw [foldl_cons, heq]
    unfold segmentStep
    simp only
    split
    · exact ⟨segment :: l, hl.cons_cons _, by simp⟩
    · exact ⟨l, hl.cons _, rfl⟩

lemma subtableIndexOfs_sublist (flowSegments : List ℕ) (mask : Flow) :
    (subtableIndexOfs flowSegments mask).Sublist flowSegments := by
  obtain ⟨l, hl, heq⟩ := segmentStep_sublist mask flowSegments ⟨0, 0, 0, []⟩
  unfold subtableIndexOfs
  simp only [heq]
  split
  · exact (dropLast_sublist l).trans hl
  · exact hl

variable {C : ClsConfig}

variable {cls : Classifier} {sts : List ClsSubtable} {st : ClsSubtable} {flow g a b : Flow}
  {e : ClsHead} {m : Match flowBits} {keys : List (Match flowBits)}

/-- `find_match()` is given the same hash with wildcards and without. -/
lemma CoreOk.fullHash_eq (h : CoreOk C cls sts) (hst : st ∈ sts) (x : Flow) :
    fullHash C st.mask st.indexOfs x = flowHashInMinimask C st.mask x := by
  have hsub := h.indexOfs st hst ▸ subtableIndexOfs_sublist cls.flowSegments st.mask
  have hsorted : (st.indexOfs ++ [flowU64s]).Pairwise (· < ·) := by
    refine pairwise_append.2 ⟨h.segments.1.sublist hsub, pairwise_singleton _ _, ?_⟩
    intro s hs stop hstop
    rw [mem_singleton.1 hstop]
    exact h.segments.2 s (hsub.subset hs)
  unfold fullHash flowHashInMinimask
  rw [segmentWords_eq _ _ hsorted, getLastD_concat]

/-! ## The head that matches -/

/-- The head of a subtable that matches a flow. -/
def subtableMatch (st : ClsSubtable) (flow : Flow) : Option ClsHead :=
  st.rules.find? fun e => e.head.minimatch.Matches flow

/-- A subtable has no match exactly when none of its rules matches the flow. -/
lemma subtableMatch_eq_none :
    subtableMatch st flow = none ↔ ∀ e ∈ st.rules, ¬ e.head.minimatch.Matches flow := by
  simp [subtableMatch]

lemma subtableMatch_mem (h : subtableMatch st flow = some e) :
    e ∈ st.rules ∧ e.head.minimatch.Matches flow :=
  ⟨mem_of_find?_eq_some h, by simpa using find?_some h⟩

/-- A subtable has at most one head that matches. -/
lemma SubtableOk.eq_of_matches {es : List ClsHead} (h : SubtableOk C st es) {e' : ClsHead}
    (he : e ∈ es) (he' : e' ∈ es) (hm : e.head.minimatch.Matches flow)
    (hm' : e'.head.minimatch.Matches flow) : e = e' := by
  refine inj_on_of_nodup_map h.nodup he he' ?_
  have hmask := (h.heads e he).mask
  have hmask' := (h.heads e' he').mask
  rw [← hm, ← hm', hmask, hmask']

/-- Rules of one subtable have one mask, so at most one of them matches and it is found. -/
lemma SubtableOk.subtableMatch_eq_some (h : SubtableOk C st st.rules) (he : e ∈ st.rules)
    (hm : e.head.minimatch.Matches flow) : subtableMatch st flow = some e := by
  cases hfind : subtableMatch st flow with
  | none => exact absurd hm (subtableMatch_eq_none.1 hfind e he)
  | some e' =>
    obtain ⟨he', hm'⟩ := subtableMatch_mem hfind
    rw [h.eq_of_matches he' he hm' hm]

/-- A flow that matches has the words of the match under the mask. -/
lemma HeadOk.and_mask_eq (h : HeadOk C st e) (hm : e.head.minimatch.Matches flow) :
    flow &&& st.mask = e.head.minimatch.flow &&& st.mask := by
  rw [← h.mask, hm, e.head.minimatch.canonical]

/-- A rule that matches a flow was stored under the hash the lookup computes for the flow. -/
lemma HeadOk.fullHash_eq (h : HeadOk C st e) (hm : e.head.minimatch.Matches flow) :
    e.hash = fullHash C st.mask st.indexOfs flow := by
  rw [h.hash]
  unfold fullHash
  rw [segmentWords_congr (h.and_mask_eq hm)]

/-- **`find_match()` finds the head that matches.** -/
lemma SubtableOk.findMatch_eq (h : SubtableOk C st st.rules) (flow : Flow) :
    findMatch st flow (fullHash C st.mask st.indexOfs flow) = subtableMatch st flow := by
  unfold findMatch subtableMatch
  rw [← head?_filter, ← head?_filter]
  congr 1
  refine filter_congr fun e he => ?_
  rw [decide_eq_decide, and_iff_right_iff_imp]
  exact fun hm => (h.heads e he).fullHash_eq hm

/-! ## Tries -/

/-- Two flows have the same bits where the mask has ones. -/
def Agree (f g wc : Flow) : Prop := f &&& wc = g &&& wc

/-- A mask has all ones of another. -/
def SubMask (a b : Flow) : Prop := a &&& b = a

/-- Two flows agree under wildcards when they have the same value at every bit of these. -/
lemma agree_iff {f wc : Flow} :
    Agree f g wc ↔ ∀ b, wc.getLsbD b = true → f.getLsbD b = g.getLsbD b := by
  constructor
  · intro h b hb
    have hbit := congrArg (BitVec.getLsbD · b) h
    simpa [hb] using hbit
  · intro h
    refine BitVec.eq_of_getLsbD_eq fun b _ => ?_
    rw [BitVec.getLsbD_and, BitVec.getLsbD_and]
    cases hb : wc.getLsbD b with
    | false => simp
    | true => rw [h b hb]

/-- One mask is part of another when each of its bits is a bit of the other. -/
lemma subMask_iff : SubMask a b ↔ ∀ k, a.getLsbD k = true → b.getLsbD k = true := by
  have hagree : SubMask a b ↔ Agree b (BitVec.allOnes _) a := by
    rw [SubMask, Agree, BitVec.allOnes_and, BitVec.and_comm]
  refine (hagree.trans agree_iff).trans (forall₂_congr fun k hk => ?_)
  simp [BitVec.lt_of_getLsbD hk]

lemma SubMask.refl (a : Flow) : SubMask a a := BitVec.and_self

lemma SubMask.trans {a b c : Flow} (h : SubMask a b) (h' : SubMask b c) : SubMask a c :=
  subMask_iff.2 fun k hk => subMask_iff.1 h' k (subMask_iff.1 h k hk)

lemma subMask_or_left : SubMask a (a ||| b) :=
  subMask_iff.2 fun k hk => by simp [hk]

lemma subMask_or_right (a b : Flow) : SubMask b (a ||| b) :=
  subMask_iff.2 fun k hk => by simp [hk]

lemma subMask_of_and_not (h : a &&& ~~~b = 0) : SubMask a b := by
  refine subMask_iff.2 fun k hk => ?_
  have hlt : k < flowBits := BitVec.lt_of_getLsbD hk
  have hbit := congrArg (BitVec.getLsbD · k) h
  simpa [hk, hlt] using hbit

/-- Flows that agree under some wildcards agree under fewer bits of them. -/
lemma Agree.mono {f a b : Flow} (h : Agree f g b) (hab : SubMask a b) : Agree f g a :=
  agree_iff.2 fun k hk => agree_iff.1 h k (subMask_iff.1 hab k hk)

lemma Agree.symm {f wc : Flow} (h : Agree f g wc) : Agree g f wc := Eq.symm h

lemma prefixLen_beBits_le (ofs n : ℕ) (x : Flow) : prefixLen (beBits ofs n x) ≤ n := by
  unfold prefixLen
  simp only
  split
  · exact Nat.zero_le _
  · exact (takeWhile_sublist _).length_le.trans_eq (length_beBits ofs n x)

/-- The bits of a prefix are set. -/
lemma getElem?_of_lt_prefixLen {bits : List Bool} {k : ℕ} (hk : k < prefixLen bits) :
    bits[k]? = some true := by
  unfold prefixLen at hk
  simp only at hk
  split at hk
  · exact absurd hk (Nat.not_lt_zero k)
  · have hget := getElem?_eq_getElem hk
    have htrue : (bits.takeWhile id)[k] = true :=
      mem_takeWhile_imp (p := id) (getElem_mem hk)
    rw [htrue] at hget
    obtain ⟨rest, hrest⟩ := takeWhile_prefix id (l := bits)
    rw [← hrest, getElem?_append_left hk]
    exact hget

/-- A flow that matches has the prefix of the match. -/
lemma take_beBits_of_matches (hm : m.Matches g) {ofs n plen : ℕ}
    (hplen : prefixLen (beBits ofs n m.mask) = plen) :
    (beBits ofs n m.flow).take plen = (beBits ofs n g).take plen := by
  refine ext_getElem? fun k => ?_
  by_cases hk : k < plen
  · rw [getElem?_take_of_lt hk, getElem?_take_of_lt hk]
    have hkn : k < n := hk.trans_le (hplen ▸ prefixLen_beBits_le ofs n m.mask)
    have hset := getElem?_of_lt_prefixLen (hplen ▸ hk)
    rw [getElem?_beBits hkn, Option.some.injEq] at hset
    rw [getElem?_beBits hkn, getElem?_beBits hkn, ← hm, BitVec.getLsbD_and, hset, Bool.and_true]
  · rw [getElem?_take_eq_none (not_lt.1 hk), getElem?_take_eq_none (not_lt.1 hk)]

/-- **A lookup in a trie rules out the matches with a prefix of a length that it does not give**,
for all flows with the bits that it depends on. -/
lemma TrieOk.not_matches {trie : ClsTrie} (h : TrieOk C trie keys) (hm : m ∈ keys)
    (hplen : triePrefixLen C trie m.mask ≠ 0)
    (hres : (trieLookup C trie flow).2 (triePrefixLen C trie m.mask) = false)
    (hagree : Agree flow g (prefixMask (trieBe32ofs C trie) (trieLookup C trie flow).1)) :
    ¬ m.Matches g := by
  intro hmatch
  have hcount : 0 < trie.root.count (triePrefix C trie m) := by
    rw [h.count, countP_pos_iff]
    exact ⟨m, hm, by simp [hplen]⟩
  unfold trieLookup at hres hagree
  unfold triePrefix at hcount
  unfold trieBe32ofs at hagree
  unfold triePrefixLen at hres hplen hcount
  cases hfield : trie.field with
  | none => simp [hfield] at hplen
  | some id =>
    simp only [hfield] at hres hagree hcount hplen
    unfold minimaskGetPrefixLen at hres hplen hcount
    unfold minimatchGetPrefix at hcount
    cases hofs : (C.mfFromId id).flowBe32ofs with
    | none => simp [hofs] at hplen
    | some ofs =>
      simp only [hofs] at hres hagree hcount hplen
      split at hres
      · rename_i hprereqs
        simp only [hprereqs] at hagree
        set n := (C.mfFromId id).nBits
        set plen := prefixLen (beBits ofs n m.mask) with hplen'
        rw [take_beBits_of_matches hmatch hplen'.symm] at hcount
        have hle : plen ≤ n := prefixLen_beBits_le ofs n m.mask
        -- the prefix of the match is one of the flow, and the lookup has its length
        have hprefix := Trie.prefix_of_lookup h.wf (take_beBits_eq hagree.symm) hcount
          (by simp) ( take_prefix _ _)
        rw [decide_eq_false_iff_not, Trie.mem_lookup h.wf] at hres
        exact hres ⟨_, hprefix, hcount, by simp [hle]⟩
      · cases hres

/-- **`check_tries()` skips subtables without a match**, for all flows with the bits that it has put
into the wildcards. -/
lemma checkTries_some (hok : ClassifierOk C cls sts) (hst : st ∈ sts) {start stop : ℕ}
    {wc wc' : Flow} {js : List ℕ} (hjs : ∀ j ∈ js, j < cls.nTries)
    (h : checkTries C cls.tries st.triePlen start stop flow wc js = some wc') :
    SubMask wc wc' ∧ ∀ g, Agree flow g wc' → ∀ e ∈ st.rules, ¬ e.head.minimatch.Matches g := by
  induction js with
  | nil => cases h
  | cons j js ih =>
    obtain ⟨hj, hjs⟩ := forall_mem_cons.1 hjs
    have hslot := hok.slots j hj
    have hplen := hslot.plen st hst
    -- what a result of this trie means
    have hskip : ∀ {wc''}, st.triePlen j ≠ 0 →
        (trieLookup C (cls.tries j) flow).2 (st.triePlen j) = false →
        SubMask (prefixMask (trieBe32ofs C (cls.tries j)) (trieLookup C (cls.tries j) flow).1)
          wc'' →
        ∀ g, Agree flow g wc'' → ∀ e ∈ st.rules, ¬ e.head.minimatch.Matches g := by
      intro wc'' hne hres hsub g hagree e he
      have hmask := ((hok.core.subtables st hst).heads e he).mask
      rw [hplen, ← hmask] at hne hres
      refine hslot.trie.not_matches ?_ hne hres (hagree.mono hsub)
      exact mem_flatMap.2 ⟨st, hst, mem_map_of_mem he⟩
    unfold checkTries at h
    simp only at h
    split at h
    · rename_i hrange
      split at h
      · rename_i hres
        rw [Bool.not_eq_true'] at hres
        split at h
        · cases h
          exact ⟨subMask_or_left, hskip hrange.1 hres (subMask_or_right _ _)⟩
        · split at h
          · rename_i hset
            cases h
            exact ⟨.refl _, hskip hrange.1 hres (subMask_of_and_not hset)⟩
          · exact ih hjs h
      · exact ih hjs h
    · exact ih hjs h

/-! ## One subtable -/

/-- A match, word by word. -/
lemma matches_iff_words : m.Matches flow ↔
      ∀ i ∈ maskWords m.mask, (word m.flow i ^^^ word flow i) &&& word m.mask i = 0 := by
  have hcanonical : ∀ i, word m.flow i &&& word m.mask i = word m.flow i := fun i => by
    rw [← word_and, m.canonical]
  have hdiff : ∀ i, (word m.flow i ^^^ word flow i) &&& word m.mask i = 0 ↔
      word flow i &&& word m.mask i = word m.flow i := fun i => by
    exact xor_and_eq_zero.trans (by rw [hcanonical, eq_comm])
  constructor
  · intro h i _
    rw [hdiff, ← word_and, h]
  · intro h
    refine BitVec.eq_of_getLsbD_eq fun b hb => getLsbD_of_word_eq ?_
    rw [word_and]
    by_cases hzero : word m.mask (b / 64) = 0
    · rw [← hcanonical, hzero]
      exact BitVec.and_zero.trans BitVec.and_zero.symm
    · rw [← hdiff]
      refine h _ (mem_filter.2 ⟨mem_range.2 ?_, by simpa using hzero⟩)
      have : flowBits = 64 * flowU64s := rfl
      omega

/-- The walk over the words finds a match exactly when no word differs under the mask. -/
lemma matchesFlowWc_fst (target wc : Flow) (is : List ℕ) : (matchesFlowWc m target wc is).1 = true ↔
      ∀ i ∈ is, (word m.flow i ^^^ word target i) &&& word m.mask i = 0 := by
  induction is generalizing wc with
  | nil => simp [matchesFlowWc]
  | cons i is ih =>
    unfold matchesFlowWc
    simp only
    split
    · rename_i hdiff
      exact ⟨fun h => absurd h Bool.false_ne_true, fun h => absurd (h i mem_cons_self) hdiff⟩
    · rename_i hdiff
      rw [ih, forall_mem_cons]
      exact ⟨fun h => ⟨not_not.1 hdiff, h⟩, fun h => h.2⟩

/-- The heads of an index that have a hash. -/
lemma SubtableOk.mem_index (h : SubtableOk C st st.rules) {i : ℕ} {hash : BitVec 32} {id : ℕ} :
    (hash, id) ∈ (st.indices i).filter (fun node => node.1 = hash) ↔
      ∃ e ∈ st.rules, indexHash C st.mask st.indexOfs e.head.minimatch.flow i = hash ∧
        e.head.id = id := by
  rw [mem_filter, (h.indices i).mem_iff]
  simp

/-- What the nodes of an index with the hash of a flow say about its match. -/
lemma SubtableOk.mem_index_of_matches (h : SubtableOk C st st.rules) (he : e ∈ st.rules)
    (hm : e.head.minimatch.Matches flow) (i : ℕ) :
    (indexHash C st.mask st.indexOfs flow i, e.head.id) ∈
      (st.indices i).filter fun node => node.1 = indexHash C st.mask st.indexOfs flow i :=
  h.mem_index.2 ⟨e, he,
    by rw [indexHash, indexHash, segmentWords_congr ((h.heads e he).and_mask_eq hm)], rfl⟩

/-- The numbers of the heads of a subtable are different. -/
def IdsOk (st : ClsSubtable) : Prop := (st.rules.map fun e => e.head.id).Nodup

lemma CoreOk.idsOk (h : CoreOk C cls sts) (hst : st ∈ sts) : IdsOk st := by
  refine h.ids.sublist ?_
  have hheads : (st.rules.map ClsHead.head).Sublist (st.rules.flatMap ClsHead.list) := by
    rw [map_eq_flatMap]
    exact .flatMap_right _ fun e _ => (nil_sublist _).cons_cons _
  have hrules : (st.rules.flatMap ClsHead.list).Sublist (rulesOf sts) :=
    sublist_flatten_of_mem (mem_map_of_mem hst)
  have hmap := (hheads.trans hrules).map ClsMatch.id
  rwa [map_map] at hmap

/-- The head of a node is found by its number. -/
lemma IdsOk.find_eq (h : IdsOk st) (he : e ∈ st.rules) :
    (st.rules.find? fun e' => e'.head.id = e.head.id) = some e :=
  find_of_key h he

section

variable (hok : SubtableOk C st st.rules) {g : Flow} {i : ℕ}
include hok

/-- No head matches a flow whose hash has no node. -/
lemma SubtableOk.subtableMatch_eq_none_of_index
    (h : ((st.indices i).filter fun node => node.1 = indexHash C st.mask st.indexOfs g i) = []) :
    subtableMatch st g = none := by
  refine subtableMatch_eq_none.2 fun e he hm => ?_
  have hmem := hok.mem_index_of_matches he hm i
  rw [h] at hmem
  cases hmem

/-- The head of a single node. -/
lemma SubtableOk.exists_of_index {hash : BitVec 32} {inode : BitVec 32 × ℕ}
    (h : ((st.indices i).filter fun node => node.1 = hash) = [inode]) :
    ∃ e ∈ st.rules, inode = (hash, e.head.id) := by
  have hmem : inode ∈ (st.indices i).filter fun node => node.1 = hash := h ▸ mem_singleton_self _
  have hhash : inode.1 = hash := of_decide_eq_true (mem_filter.1 hmem).2
  rw [← hhash] at hmem ⊢
  obtain ⟨e, he, -, hid⟩ := hok.mem_index.1 hmem
  exact ⟨e, he, hid ▸ rfl⟩

/-- Only the head of a single node can match. -/
lemma SubtableOk.eq_of_index (hids : IdsOk st) (he : e ∈ st.rules) {e' : ClsHead}
    (h : ((st.indices i).filter fun node => node.1 = indexHash C st.mask st.indexOfs g i) =
      [(indexHash C st.mask st.indexOfs g i, e.head.id)]) (he' : e' ∈ st.rules)
    (hm : e'.head.minimatch.Matches g) : e' = e := by
  have hmem := hok.mem_index_of_matches he' hm i
  rw [h, mem_singleton, Prod.mk.injEq] at hmem
  exact inj_on_of_nodup_map hids he' he hmem.2

/-- A head is compared word by word. -/
lemma SubtableOk.matchesFlowWc_iff (he : e ∈ st.rules) (wc : Flow) :
    (matchesFlowWc e.head.minimatch g wc (maskWords st.mask)).1 = true ↔
      e.head.minimatch.Matches g := by
  rw [matchesFlowWc_fst, matches_iff_words, (hok.heads e he).mask]

end

section

variable {cls : Classifier} {sts : List ClsSubtable} {st : ClsSubtable} {wc : Option Flow}

/-- **The part of `find_match_wc()` after the indices finds the head that matches.** -/
lemma findMatchFinal_fst (hok : ClassifierOk C cls sts) (hst : st ∈ sts) (flow wc : Flow)
    (start : ℕ) :
    (findMatchFinal C cls st flow wc start).1 = subtableMatch st flow := by
  unfold findMatchFinal
  split
  · rename_i wc' htries
    obtain ⟨-, hnone⟩ := checkTries_some hok hst (by simp) htries
    exact (subtableMatch_eq_none.2 (hnone flow rfl)).symm
  · rw [(hok.core.subtables st hst).findMatch_eq]
    cases subtableMatch st flow with
    | some e => rfl
    | none =>
      simp only
      split <;> rfl

/-- **The loop over the indices finds the head that matches.** -/
lemma findMatchIndices_fst (hok : ClassifierOk C cls sts) (hst : st ∈ sts) (flow wc : Flow)
    (start i : ℕ) (ofs : List ℕ) :
    (findMatchIndices C cls st flow wc start i ofs).1 = subtableMatch st flow := by
  have hids := hok.core.idsOk hst
  have hsub := hok.core.subtables st hst
  induction ofs generalizing start i with
  | nil => exact findMatchFinal_fst hok hst flow wc start
  | cons stop ofs ih =>
    unfold findMatchIndices
    split
    · rename_i wc' htries
      obtain ⟨-, hnone⟩ := checkTries_some hok hst (by simp) htries
      exact (subtableMatch_eq_none.2 (hnone flow rfl)).symm
    · simp only
      split
      · -- no head has the hash
        rename_i hnil
        exact (hsub.subtableMatch_eq_none_of_index hnil).symm
      · -- one head has it
        rename_i inode hone
        obtain ⟨e, he, rfl⟩ := hsub.exists_of_index hone
        simp only [hids.find_eq he]
        split
        · rename_i hm
          exact (hsub.subtableMatch_eq_some he ((hsub.matchesFlowWc_iff he wc).1 hm)).symm
        · rename_i hm
          refine (subtableMatch_eq_none.2 fun e' he' hm' => hm ?_).symm
          rw [hsub.matchesFlowWc_iff he, ← hsub.eq_of_index hids he hone he' hm']
          exact hm'
      · exact ih stop (i + 1)

/-- **`find_match_wc()` finds the head that matches**, with wildcards and without. -/
lemma findMatchWc_fst (hok : ClassifierOk C cls sts) (hst : st ∈ sts) :
    (findMatchWc C cls st flow wc).1 = subtableMatch st flow := by
  cases wc with
  | none =>
    unfold findMatchWc
    rw [← hok.core.fullHash_eq hst]
    exact (hok.core.subtables st hst).findMatch_eq flow
  | some wc => exact findMatchIndices_fst hok hst flow wc 0 0 _

variable {flow : Flow} {P Q : ClsMatch → Prop} {res : Option ClsMatch}
  {s : LookupState}

/-- **The tags rule out subtables without a match.** -/
lemma tagIntersects_of_matches (hok : ClassifierOk C cls sts) (hst : st ∈ sts) (he : e ∈ st.rules)
    (hm : e.head.minimatch.Matches flow) : tagIntersects (lookupTags cls flow) st.tag = true := by
  have hsub := hok.core.subtables st hst
  have hmask := (hsub.heads e he).mask
  refine tagIntersects_of_twoBits ?_
  by_cases hexact : metadataExact st.mask = true
  · -- the partition of the flow has the tag
    have hones : word st.mask metadataOfs64 = BitVec.allOnes 64 := of_decide_eq_true hexact
    have hmeta : st.HasMetadata (word flow metadataOfs64) :=
      ⟨e, he, hmask ▸ hexact, by rw [← hm, word_and, hmask, hones, BitVec.and_allOnes]⟩
    have htag := hok.core.mem_tagsOf.2 ⟨st, hst, hmeta, rfl⟩
    have hexist := (hok.core.partitions.exist _).2 (ne_nil_of_mem htag)
    unfold lookupTags
    split
    · rename_i p hfind
      have hp : p.metadata = word flow metadataOfs64 := by simpa using find?_some hfind
      rw [← hp] at htag
      refine (hok.core.partitions.tracks p (mem_of_find?_eq_some hfind)).twoBits htag ?_
      rw [hsub.tag]
      exact twoBits_subtableTag _
    · rename_i hfind
      obtain ⟨p, hp, heq⟩ := mem_map.1 hexist
      simpa [heq] using find?_eq_none.1 hfind p hp
  · have htag : st.tag = tagAll := by
      rw [hsub.tag]
      exact if_neg hexact
    rw [htag]
    -- the tags of a partition that is there have two bits
    refine TwoBits.and_tagAll ?_
    unfold lookupTags
    split
    · rename_i p hfind
      have hp := mem_of_find?_eq_some hfind
      have hpartitions := hok.core.partitions
      obtain ⟨tag, htag⟩ := exists_mem_of_ne_nil _
        ((hpartitions.exist p.metadata).1 (mem_map_of_mem hp))
      obtain ⟨m, -, rfl⟩ := mem_map.1 htag
      obtain ⟨i, j, hij, hi, hj⟩ := twoBits_subtableTag m.mask
      have htracks := hpartitions.tracks p hp
      exact ⟨i, j, hij, htracks.getLsbD htag hi, htracks.getLsbD htag hj⟩
    · exact twoBits_tagArbitrary

/-! ## The main loop -/

/-- The main loop as a search of the heads. -/
def searchLoop (cls : Classifier) (flow : Flow) (allowConjunctiveMatches : Bool) :
    List (PVectorEntry Flow) → LookupState → LookupState
  | [], s => s
  | entry :: entries, s =>
    if hardPri s.hard < entry.priority then
      match entry.ptr.bind cls.findSubtable with
      | none => s
      | some st => searchLoop cls flow allowConjunctiveMatches entries
          (lookupMatch allowConjunctiveMatches s (subtableMatch st flow))
    else s

/-- What becomes of a subtable's match does not depend on the wildcards gathered so far. -/
lemma lookupMatch_wc (allow : Bool) (e : Option ClsHead) :
    lookupMatch allow { s with wc := wc } e = { lookupMatch allow s e with wc := wc } := by
  cases e with
  | none => rfl
  | some e =>
    unfold lookupMatch
    simp only
    split
    · rfl
    · split
      · rfl
      · split <;> rfl

/-- Nor does what the whole loop makes of the matches. -/
lemma searchLoop_wc (allow : Bool) (entries : List (PVectorEntry Flow)) :
    searchLoop cls flow allow entries { s with wc := wc } =
      { searchLoop cls flow allow entries s with wc := wc } := by
  induction entries generalizing s with
  | nil => rfl
  | cons entry entries ih =>
    unfold searchLoop
    split
    · cases entry.ptr.bind cls.findSubtable with
      | none => rfl
      | some st =>
        simp only
        rw [lookupMatch_wc, ih]
    · rfl

/-- What the search finds does not depend on the wildcards. -/
lemma searchLoop_found (allow : Bool) (flow : Flow) (entries : List (PVectorEntry Flow))
    (s : LookupState) (wc : Option Flow) :
    (searchLoop cls flow allow entries { s with wc := wc }).hard =
        (searchLoop cls flow allow entries s).hard ∧
      (searchLoop cls flow allow entries { s with wc := wc }).soft =
        (searchLoop cls flow allow entries s).soft := by
  rw [searchLoop_wc]
  exact ⟨rfl, rfl⟩

/-- The priority vector leads to subtables of the classifier only. -/
lemma ClassifierOk.mem_of_entry (hok : ClassifierOk C cls sts) {entry : PVectorEntry Flow}
    (h : entry.ptr.bind cls.findSubtable = some st) : st ∈ sts := by
  obtain ⟨mask, -, hfind⟩ := Option.bind_eq_some_iff.1 h
  exact hok.map.mem_iff.1 (mem_of_find?_eq_some hfind)

/-- **The main loop finds what the search of the heads finds.** -/
lemma lookupLoop_eq (hok : ClassifierOk C cls sts) (flow : Flow) (allow : Bool)
    (entries : List (PVectorEntry Flow)) (s : LookupState) :
    ∃ wc, lookupLoop C cls flow allow entries s =
      { searchLoop cls flow allow entries s with wc := wc } := by
  induction entries generalizing s with
  | nil => exact ⟨s.wc, rfl⟩
  | cons entry entries ih =>
    unfold lookupLoop searchLoop
    split
    · cases hst : entry.ptr.bind cls.findSubtable with
      | none => exact ⟨s.wc, rfl⟩
      | some st =>
        have hmem := hok.mem_of_entry hst
        simp only
        split
        · rw [findMatchWc_fst hok hmem, lookupMatch_wc]
          obtain ⟨wc, heq⟩ := ih
            { lookupMatch allow s (subtableMatch st flow) with
              wc := (findMatchWc C cls st flow s.wc).2 }
          exact ⟨wc, by rw [heq, searchLoop_wc]⟩
        · rename_i htags
          have hnone : subtableMatch st flow = none := subtableMatch_eq_none.2 fun e he hm =>
            htags (tagIntersects_of_matches hok hmem he hm)
          rw [hnone]
          exact ih s
    · exact ⟨s.wc, rfl⟩

/-! ## The best rule -/

/-- Among the rules for which `P` holds, the result is one that matches and no other that matches
has a greater priority.  There is no result if none matches. -/
def IsBest (P : ClsMatch → Prop) (flow : Flow) : Option ClsMatch → Prop
  | none => ∀ r, P r → ¬ r.minimatch.Matches flow
  | some r => P r ∧ r.minimatch.Matches flow ∧
      ∀ r', P r' → r'.minimatch.Matches flow → r'.priority ≤ r.priority

/-- Being the best match is a matter of which rules there are. -/
lemma IsBest.congr (h : IsBest P flow res) (hPQ : ∀ r, P r ↔ Q r) : IsBest Q flow res := by
  have heq : P = Q := funext fun r => propext (hPQ r)
  exact heq ▸ h

/-- A rule is not better than the hard match, or is in the rest of a list. -/
def Covered (s : LookupState) (r : ClsMatch) : Prop :=
  r.priority ≤ hardPri s.hard ∨ ∃ m ∈ s.soft, r ∈ m.1 :: m.2

/-- The hard match only gets better, and no soft match goes. -/
def Grows (s s' : LookupState) : Prop :=
  hardPri s.hard ≤ hardPri s'.hard ∧ ∀ m ∈ s.soft, m ∈ s'.soft

lemma Grows.trans {s' s'' : LookupState} (h : Grows s s') (h' : Grows s' s'') : Grows s s'' :=
  ⟨h.1.trans h'.1, fun m hm => h'.2 m (h.2 m hm)⟩

/-- A rule that is covered by what the search has found stays covered as it finds more. -/
lemma Covered.mono {s' : LookupState} {r : ClsMatch} (h : Covered s r) (hgrows : Grows s s') :
    Covered s' r :=
  h.imp (fun hle => hle.trans hgrows.1) fun ⟨m, hm, hr⟩ => ⟨m, hgrows.2 m hm, hr⟩

/-- The soft matches are lists of equal matches that match the flow. -/
def FromLists (sts : List ClsSubtable) (flow : Flow) (soft : List SoftMatch) : Prop :=
  ∀ m ∈ soft, m.1.conj ≠ [] ∧ ∃ st ∈ sts, ∃ e ∈ st.rules,
    e.head.minimatch.Matches flow ∧ (m.1 :: m.2) <:+ e.list

/-- What has been found matches the flow. -/
def Found (sts : List ClsSubtable) (flow : Flow) (s : LookupState) : Prop :=
  FromLists sts flow s.soft ∧ ∀ r ∈ s.hard, r ∈ rulesOf sts ∧ r.minimatch.Matches flow

section

variable (hok : ClassifierOk C cls sts)
include hok

/-- The match of a subtable covers its rules that match. -/
lemma lookupMatch_covers {st : ClsSubtable} (hst : st ∈ sts)
    (h : Found sts flow s) : Grows s (lookupMatch true s (subtableMatch st flow)) ∧
      Found sts flow (lookupMatch true s (subtableMatch st flow)) ∧
      ∀ e ∈ st.rules, e.head.minimatch.Matches flow → ∀ r ∈ e.list,
        Covered (lookupMatch true s (subtableMatch st flow)) r := by
  have hsub := hok.core.subtables st hst
  cases hfind : subtableMatch st flow with
  | none =>
    exact ⟨⟨le_rfl, fun m hm => hm⟩, h,
      fun e he hm => absurd hm (subtableMatch_eq_none.1 hfind e he)⟩
  | some e =>
    obtain ⟨he, hm⟩ := subtableMatch_mem hfind
    have hle : ∀ e' ∈ st.rules, e'.head.minimatch.Matches flow → ∀ r ∈ e'.list,
        r ∈ e.list ∧ r.priority ≤ e.head.priority := by
      intro e' he' hm' r hr
      obtain rfl := hsub.eq_of_matches he he' hm hm'
      exact ⟨hr, (hsub.heads e he).sorted.le_head hr⟩
    unfold lookupMatch
    simp only [if_true]
    split
    · rename_i hhard
      exact ⟨⟨le_rfl, fun m hm => hm⟩, h, fun e' he' hm' r hr =>
        .inl ((hle e' he' hm' r hr).2.trans hhard)⟩
    · rename_i hhard
      split
      · refine ⟨⟨(not_le.1 hhard).le, fun m hm => hm⟩, ⟨h.1, ?_⟩, fun e' he' hm' r hr =>
          .inl (hle e' he' hm' r hr).2⟩
        rintro _ ⟨⟩
        exact ⟨mem_rulesOf_of_head hst he mem_cons_self, hm⟩
      · rename_i hconj
        refine ⟨⟨le_rfl, fun m hm => mem_append_left _ hm⟩, ⟨fun m hm' => ?_, h.2⟩,
          fun e' he' hm' r hr => .inr ⟨(e.head, e.rest), by simp, (hle e' he' hm' r hr).1⟩⟩
        obtain hm' | hm' := mem_append.1 hm'
        · exact h.1 m hm'
        · obtain rfl := mem_singleton.1 hm'
          exact ⟨hconj, st, hst, e, he, hm, suffix_refl _⟩

/-- **The main loop covers every rule that matches.** -/
lemma searchLoop_covers {entries : List (PVectorEntry Flow)}
    (hentries : ∀ entry ∈ entries, ∃ st ∈ sts, entry.ptr = some st.mask ∧
      entry.priority = st.maxPriority)
    (hsorted : entries.Pairwise fun a b => b.priority ≤ a.priority) (h : Found sts flow s) :
    Grows s (searchLoop cls flow true entries s) ∧
      Found sts flow (searchLoop cls flow true entries s) ∧
      ∀ entry ∈ entries, ∀ st ∈ sts, entry.ptr = some st.mask → ∀ e ∈ st.rules,
        e.head.minimatch.Matches flow → ∀ r ∈ e.list,
          Covered (searchLoop cls flow true entries s) r := by
  induction entries generalizing s with
  | nil => exact ⟨⟨le_rfl, fun m hm => hm⟩, h, by simp⟩
  | cons entry entries ih =>
    obtain ⟨⟨st, hst, hptr, -⟩, hentries'⟩ := forall_mem_cons.1 hentries
    unfold searchLoop
    split
    · have hfind : cls.findSubtable st.mask = some st :=
        find_of_key ((hok.map.map _).nodup_iff.2 hok.core.masks) (hok.map.mem_iff.2 hst)
      rw [hptr, Option.bind_some, hfind]
      obtain ⟨hgrows, hfound, hcovers⟩ := lookupMatch_covers hok hst h
      obtain ⟨hgrows', hfound', hcovers'⟩ := ih hentries' (pairwise_cons.1 hsorted).2 hfound
      refine ⟨hgrows.trans hgrows', hfound', fun entry' hentry' st' hst' hptr' => ?_⟩
      obtain rfl | hentry' := mem_cons.1 hentry'
      · rw [hptr, Option.some.injEq] at hptr'
        obtain rfl := inj_on_of_nodup_map hok.core.masks hst hst' hptr'
        exact fun e he hm r hr => (hcovers e he hm r hr).mono hgrows'
      · exact hcovers' entry' hentry' st' hst' hptr'
    · -- the rules of the entries that are left are not better than the hard match
      rename_i hstop
      refine ⟨⟨le_rfl, fun m hm => hm⟩, h, fun entry' hentry' st' hst' hptr' e he _ r hr => ?_⟩
      have hle : entry'.priority ≤ entry.priority := by
        obtain rfl | hentry := mem_cons.1 hentry'
        · exact le_rfl
        · exact (pairwise_cons.1 hsorted).1 entry' hentry
      obtain ⟨st, hst, hptr, hpri⟩ := hentries entry' hentry'
      rw [hptr', Option.some.injEq] at hptr
      obtain rfl := inj_on_of_nodup_map hok.core.masks hst' hst hptr
      have hhead := ((hok.core.subtables st' hst').heads e he).sorted.le_head hr
      have hmax := (hok.max st' hst').le _ (mem_map_of_mem he)
      exact .inl (hhead.trans (hmax.trans (hpri.ge.trans (hle.trans (not_lt.1 hstop)))))

/-- The entries of a published vector. -/
lemma ClassifierOk.entries (hpublish : cls.publish = true) :
    (∀ entry ∈ cls.subtables.impl.vector, ∃ st ∈ sts, entry.ptr = some st.mask ∧
        entry.priority = st.maxPriority) ∧
      (cls.subtables.impl.vector.Pairwise fun a b => b.priority ≤ a.priority) ∧
      ∀ st ∈ sts, ∃ entry ∈ cls.subtables.impl.vector, entry.ptr = some st.mask := by
  have hcons := hok.consistent hpublish
  refine ⟨fun entry hentry => ?_, hcons.sorted, fun st hst => ?_⟩
  · obtain ⟨st, hst, heq⟩ := hcons.entries entry hentry
    exact ⟨st, hok.map.mem_iff.1 hst, heq⟩
  · have honce := hcons.once st (hok.map.mem_iff.2 hst)
    have hmem : some st.mask ∈ cls.subtables.impl.vector.map PVectorEntry.ptr :=
      count_pos_iff.1 (honce ▸ Nat.one_pos)
    exact mem_map.1 hmem

/-- The main loop covers every rule that matches. -/
lemma lookupMain_covers (hpublish : cls.publish = true) (flow : Flow) (wc : Option Flow) :
    Found sts flow (lookupMain C cls flow wc true) ∧ ∀ r ∈ rulesOf sts, r.minimatch.Matches flow →
      Covered (lookupMain C cls flow wc true) r := by
  obtain ⟨hentries, hsorted, hall⟩ := hok.entries hpublish
  obtain ⟨wc', heq⟩ := lookupLoop_eq hok flow true cls.subtables.impl.vector ⟨wc, none, []⟩
  have hinit : Found sts flow ⟨wc, none, []⟩ := ⟨by simp [FromLists], by simp⟩
  obtain ⟨-, hfound, hcovers⟩ := searchLoop_covers hok hentries hsorted hinit
  unfold lookupMain
  rw [heq]
  refine ⟨hfound, fun r hr hm => ?_⟩
  obtain ⟨st, hst, e, he, hr, hsame, -⟩ := hok.core.exists_head hr
  obtain ⟨entry, hentry, hptr⟩ := hall st hst
  exact hcovers entry hentry st hst hptr e he (hsame ▸ hm) r hr

omit hok in
/-- A match adds at most itself to the conjunctive matches. -/
lemma lookupMatch_soft (allow : Bool) (s : LookupState) (e : Option ClsHead) :
    (lookupMatch allow s e).soft = s.soft ∨
      ∃ e', e = some e' ∧ (lookupMatch allow s e).soft = s.soft ++ [(e'.head, e'.rest)] := by
  cases e with
  | none => exact .inl rfl
  | some e =>
    unfold lookupMatch
    simp only
    split
    · exact .inl rfl
    · split
      · exact .inl rfl
      · split
        · exact .inr ⟨e, rfl, rfl⟩
        · exact .inl rfl

/-- Each entry adds one soft match at most, with the mask of its subtable. -/
lemma searchLoop_soft (flow : Flow) (allow : Bool) (entries : List (PVectorEntry Flow))
    (s : LookupState) : ∃ new, (searchLoop cls flow allow entries s).soft = s.soft ++ new ∧
      (new.map fun m => some m.1.minimatch.mask).Sublist (entries.map PVectorEntry.ptr) := by
  induction entries generalizing s with
  | nil => exact ⟨[], (append_nil _).symm, nil_sublist _⟩
  | cons entry entries ih =>
    unfold searchLoop
    split
    · cases hst : entry.ptr.bind cls.findSubtable with
      | none => exact ⟨[], (append_nil _).symm, nil_sublist _⟩
      | some st =>
        obtain ⟨mask, hptr, hfind⟩ := Option.bind_eq_some_iff.1 hst
        have hmask : st.mask = mask := by simpa using find?_some hfind
        obtain ⟨new, hnew, hsub⟩ := ih (lookupMatch allow s (subtableMatch st flow))
        simp only [hnew]
        obtain heq | ⟨e, he, heq⟩ := lookupMatch_soft allow s (subtableMatch st flow)
        · exact ⟨new, by rw [heq], hsub.cons _⟩
        · refine ⟨(e.head, e.rest) :: new, by rw [heq, append_assoc]; rfl, ?_⟩
          have hhead := (hok.core.subtables st (hok.mem_of_entry hst)).heads e
            (subtableMatch_mem he).1
          simp only [map_cons, hptr, hhead.mask, hmask]
          exact hsub.cons_cons _
    · exact ⟨[], (append_nil _).symm, nil_sublist _⟩

/-- The soft matches of the main loop are of different subtables. -/
lemma lookupMain_masks (hpublish : cls.publish = true) (flow : Flow) (wc : Option Flow) :
    ((lookupMain C cls flow wc true).soft.map fun m => m.1.minimatch.mask).Nodup := by
  have hcons := hok.consistent hpublish
  have hptrs : (cls.subtables.impl.vector.map PVectorEntry.ptr).Nodup := by
    refine nodup_iff_count_le_one.2 fun ptr => ?_
    by_cases hmem : ptr ∈ cls.subtables.impl.vector.map PVectorEntry.ptr
    · obtain ⟨entry, hentry, rfl⟩ := mem_map.1 hmem
      obtain ⟨st, hst, hptr, -⟩ := hcons.entries entry hentry
      rw [hptr, hcons.once st hst]
    · rw [count_eq_zero_of_not_mem hmem]
      exact Nat.zero_le _
  obtain ⟨wc', heq⟩ := lookupLoop_eq hok flow true cls.subtables.impl.vector ⟨wc, none, []⟩
  obtain ⟨new, hnew, hsub⟩ := searchLoop_soft hok flow true cls.subtables.impl.vector ⟨wc, none, []⟩
  unfold lookupMain
  rw [heq]
  simp only [hnew, nil_append]
  have hnodup := hptrs.sublist hsub
  rw [← Function.comp_def some, ← map_map] at hnodup
  exact hnodup.of_map some

/-- The main loop finds the best rule and no soft matches, if no rule has conjunctions. -/
lemma lookupMain_isBest (hconj : ∀ r ∈ rulesOf sts, r.conj = []) (hpublish : cls.publish = true)
    (flow : Flow) (wc : Option Flow) : (lookupMain C cls flow wc true).soft = [] ∧
      IsBest (· ∈ rulesOf sts) flow (lookupMain C cls flow wc true).hard := by
  obtain ⟨⟨hlists, hhard⟩, hcovers⟩ := lookupMain_covers hok hpublish flow wc
  generalize lookupMain C cls flow wc true = s at *
  have hsoft : s.soft = [] := by
    refine eq_nil_iff_forall_not_mem.2 fun m hm => ?_
    obtain ⟨hne, st, hst, e, he, -, hsuffix⟩ := hlists m hm
    exact hne (hconj m.1 (mem_rulesOf_of_head hst he (hsuffix.subset mem_cons_self)))
  have hle : ∀ r ∈ rulesOf sts, r.minimatch.Matches flow → r.priority ≤ hardPri s.hard :=
    fun r hr hm => (hcovers r hr hm).resolve_right (by simp [hsoft])
  refine ⟨hsoft, ?_⟩
  cases hbest : s.hard with
  | none =>
    rw [hbest] at hle
    exact fun r hr hm => absurd (hle r hr hm) (not_le.2 (hok.core.bound r hr))
  | some best =>
    rw [hbest] at hle
    exact ⟨(hhard best hbest).1, (hhard best hbest).2, hle⟩

/-- Without conjunctions, the result is the hard match of the main loop. -/
lemma lookup_eq_main (hconj : ∀ r ∈ rulesOf sts, r.conj = []) (hpublish : cls.publish = true)
    (flow : Flow) : lookup C cls flow wc =
      ((lookupMain C cls flow wc true).hard, (lookupMain C cls flow wc true).wc) := by
  obtain ⟨hsoft, hbest⟩ := lookupMain_isBest hok hconj hpublish flow wc
  unfold lookup lookupRounds
  simp only [hsoft]
  rw [if_pos]
  cases hhard : (lookupMain C cls flow wc true).hard with
  | none => exact le_rfl
  | some r =>
    rw [hhard] at hbest
    exact (hok.core.bound r hbest.1).le

end

end

/-- **Lookup refines a linear search**: after any operations on a classifier, with rules that have
no conjunctions and priorities above the least one, `classifier_lookup()` returns a rule that is
in the classifier and matches, and no rule that matches has a greater priority.  It returns
nothing exactly if no rule matches.  Wildcards make no difference. -/
theorem lookup_isBest {cls : Classifier} {rules : List ClsMatch}
    (h : Run C (fun r => intMin < r.priority ∧ r.conj = []) cls rules)
    (hpublish : cls.publish = true) (flow : Flow) (wc : Option Flow) :
    IsBest (· ∈ rules) flow (lookup C cls flow wc).1 := by
  obtain ⟨sts, hok, hrules⟩ := h.classifierOk fun r hr => hr.1
  have hconj : ∀ r ∈ rulesOf sts, r.conj = [] := fun r hr =>
    (h.allowed r (hrules.mem_iff.1 hr)).2
  rw [lookup_eq_main hok hconj hpublish]
  exact (lookupMain_isBest hok hconj hpublish flow wc).2.congr fun r => hrules.mem_iff

/-- A run that puts two rules of different masks into a classifier. -/
lemma run_twoRules :
    Run plainConfig (fun r => intMin < r.priority ∧ r.conj = [])
      (classifierOf plainConfig [wordRule 1 0 5, wordRule 2 20 7])
      [wordRule 2 20 7, wordRule 1 0 5] :=
  run_classifierOf (by decide) (by decide +kernel) (by
    simp only [forall_mem_cons, not_mem_nil, false_imp_iff, implies_true, and_true]
    exact ⟨⟨by decide, rfl⟩, ⟨by decide, rfl⟩⟩)

/-- A flow that both rules match. -/
theorem lookup_isBest_twoRules :
    ∃ cls, cls.publish = true ∧ IsBest (· ∈ [wordRule 2 20 7, wordRule 1 0 5])
      (ofWord 0 1 ||| ofWord 20 1)
      (lookup plainConfig cls (ofWord 0 1 ||| ofWord 20 1) (some 0)).1 := by
  obtain ⟨cls, hrun, hpublish⟩ :
      ∃ cls, Run plainConfig (fun r => intMin < r.priority ∧ r.conj = []) cls
        [wordRule 2 20 7, wordRule 1 0 5] ∧ cls.publish = true :=
    ⟨_, run_twoRules, by decide +kernel⟩
  exact ⟨cls, hpublish, lookup_isBest hrun hpublish _ _⟩

/-! ## Prefixes of IPv6 addresses -/

/-- A configuration with `ipv6_src` as the field of a trie. -/
def addressConfig : ClsConfig :=
  { plainConfig with mfFromId := fun _ => ⟨some 36, 128, fun _ => true⟩ }

/-- A rule for a prefix of `len` bits of `ipv6_src`, which are zeros, or begin with a one. -/
def addressRule (id : ℕ) (one : Bool) (len : ℕ) : ClsMatch :=
  ⟨id, .ofMasked (if one then prefixMask 36 1 else 0) (prefixMask 36 len), 1, []⟩

/-- The rules for prefixes of zeros of all lengths, and for one of a one. -/
def addressRules : List ClsMatch :=
  addressRule 0 true 1 :: (range' 1 128).map fun len => addressRule len false len

lemma trieOf_field (C : ClsConfig) (field : Option ℕ) (sts : List ClsSubtable) :
    (Classifier.trieOf C field sts).field = field := by
  refine foldlRecOn (motive := fun trie : ClsTrie => trie.field = field) sts _ rfl
    fun trie htrie st _ => ?_
  unfold Classifier.trieInsertSubtable
  dsimp only
  split
  · exact foldlRecOn (motive := fun trie : ClsTrie => trie.field = field) st.rules _ htrie
      fun trie htrie e _ => (trieInsert_field C trie e.head.minimatch _).trans htrie
  · exact htrie

/-- The loop of `classifier_set_prefix_fields()` that clears tries leaves the others as they are. -/
lemma tries_trieInit_none (C : ClsConfig) {ids : List ℕ} {i : ℕ} (hi : i ∉ ids) (cls : Classifier) :
    (ids.foldl (fun cls i => Classifier.trieInit C cls i none) cls).tries i = cls.tries i := by
  refine foldlRecOn (motive := fun cls' : Classifier => cls'.tries i = cls.tries i) ids _ rfl
    fun cls' hcls' j hj => ?_
  rw [← hcls']
  exact Function.update_of_ne (ne_of_mem_of_not_mem hj hi).symm _ _

/-- The only trie is then one of addresses, whatever there was before. -/
lemma setPrefixFields_address (cls : Classifier) :
    (cls.setPrefixFields addressConfig [0]).nTries = 1 ∧
      ((cls.setPrefixFields addressConfig [0]).tries 0).field = some 0 := by
  have hfields : Classifier.newTrieFields addressConfig [0] [] = [0] := rfl
  have hzero : 0 ∉ range' 1 (cls.nTries - 1) := by simp
  have hinit := fun cls => tries_trieInit_none addressConfig hzero cls
  unfold Classifier.setPrefixFields
  simp only [hfields, zipIdx_cons, zipIdx_nil, length_singleton]
  cases hchanged : cls.trieChanged 0 0
  · have hold : cls.nTries ≠ 0 ∧ (cls.tries 0).field = some 0 := by
      simpa [Classifier.trieChanged] using hchanged
    split
    · exact ⟨rfl, by simpa [hchanged, hinit] using hold.2⟩
    · rename_i hsame
      refine ⟨?_, hold.2⟩
      have := (not_or.1 hsame).2
      omega
  · rw [if_pos (Or.inl (by simp [hchanged]))]
    refine ⟨rfl, ?_⟩
    simp only [hchanged, filter_cons_of_pos, filter_nil, foldl_cons, foldl_nil, hinit]
    unfold Classifier.trieInit
    dsimp only
    rw [Function.update_self, trieOf_field]

lemma addressRules_ok :
    (addressRules.map ClsMatch.id).Nodup ∧ (addressRules.map ClsMatch.minimatch).Nodup ∧
      ∀ r ∈ addressRules, intMin < r.priority ∧ r.conj = [] := by
  decide +kernel

/-- The prefixes of these rules, none of which is empty. -/
lemma triePrefix_addressRules (root : Trie) :
    addressRules.map (fun r => triePrefix addressConfig ⟨some 0, root⟩ r.minimatch) =
        tooManyPrefixes ∧
      ∀ r ∈ addressRules, triePrefixLen addressConfig ⟨some 0, root⟩ r.minimatch.mask ≠ 0 := by
  show addressRules.map (fun r => triePrefix addressConfig ⟨some 0, .nil⟩ r.minimatch) = _ ∧
    ∀ r ∈ addressRules, triePrefixLen addressConfig ⟨some 0, .nil⟩ r.minimatch.mask ≠ 0
  decide +kernel

/-- **A removal can leave `edges[]`.**  With rules for prefixes of an IPv6 address of all lengths
the way to the longest one has more edges than the array of `trie_remove_prefix()`. -/
theorem remove_overruns :
    ∃ cls rules, Run addressConfig (fun r => intMin < r.priority ∧ r.conj = []) cls rules ∧
      addressRule 128 false 128 ∈ rules ∧
      cls.remove addressConfig (addressRule 128 false 128) = none := by
  obtain ⟨hids, hmatch, hallowed⟩ := addressRules_ok
  have hmem : addressRule 128 false 128 ∈ addressRules := by decide +kernel
  have hrun := run_classifierOf (C := addressConfig) hids hmatch hallowed
  obtain ⟨cls, hcls⟩ : ∃ cls, cls = (classifierOf addressConfig addressRules).setPrefixFields
    addressConfig [0] := ⟨_, rfl⟩
  have hrun' : Run addressConfig (fun r => intMin < r.priority ∧ r.conj = []) cls
      addressRules.reverse := .step (.setPrefixFields [0]) hrun trivial (hcls ▸ rfl)
  obtain ⟨htries, hfield⟩ := setPrefixFields_address (classifierOf addressConfig addressRules)
  rw [← hcls] at htries hfield
  refine ⟨cls, _, hrun', mem_reverse.2 hmem, ?_⟩
  obtain ⟨sts, hok, hrules⟩ := hrun'.classifierOk fun r hr => hr.1
  have hin : ∀ r, r ∈ rulesOf sts ↔ r ∈ addressRules := fun r =>
    hrules.mem_iff.trans mem_reverse
  obtain ⟨root, hroot⟩ : ∃ root, cls.tries 0 = ⟨some 0, root⟩ := ⟨(cls.tries 0).root, by
    rw [← hfield]⟩
  obtain ⟨hprefixes, hlens⟩ := triePrefix_addressRules root
  have hcount := (hok.slots 0 (by omega)).trie.count
  rw [hroot] at hcount
  refine hok.remove_eq_none_iff.2 ⟨(hin _).2 hmem, fun r hr heq => ?_, 0, by omega, ?_⟩
  · exact inj_on_of_nodup_map hmatch ((hin r).1 hr) hmem heq
  rw [hroot]
  have hlong : triePrefix addressConfig ⟨some 0, root⟩ (addressRule 128 false 128).minimatch =
      replicate 128 false := by
    show triePrefix addressConfig ⟨some 0, .nil⟩ (addressRule 128 false 128).minimatch = _
    decide +kernel
  rw [hlong]
  refine not_fitsEdges fun q hq => ?_
  rw [← hprefixes] at hq
  obtain ⟨r, hr, hq⟩ := mem_map.1 hq
  rw [hcount, countP_pos_iff]
  exact ⟨r.minimatch, hok.core.minimatch_mem_keysOf ((hin r).2 hr), by simp [hlens r hr, hq]⟩

end OVS
