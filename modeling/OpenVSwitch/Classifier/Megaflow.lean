import OpenVSwitch.Classifier.Search
import OpenVSwitch.Hash

/-!
# The wildcards of a lookup

A lookup collects in `wc` the bits of the flow that its result depends on.  A cache uses the result
for every flow with the same bits.

**Where it is right.**  `lookup_megaflow`: a flow with the same bits has the same result, if no
subtable that is searched has a collision that matters (`NoCollision`).

**Where it is not.**  If an index has a single head with the hash of the flow, only that head is
compared, and only one bit in which it differs is kept.  If it differs within the words that were
hashed, other heads have not been ruled out (`megaflow_collision`).  This does not matter if they
differ from the flow in that bit, too.
-/

namespace OVS

open Flow List

variable {i : ℕ} {m : Match flowBits}

/-- Flows with the same bits of a word of a mask. -/
lemma word_and_eq {f g mask : Flow} (h : ∀ j < 64, mask.getLsbD (64 * i + j) = true →
    f.getLsbD (64 * i + j) = g.getLsbD (64 * i + j)) :
    word (f &&& mask) i = word (g &&& mask) i := by
  refine BitVec.eq_of_getLsbD_eq fun j hj => ?_
  simp only [getLsbD_word, BitVec.getLsbD_and]
  cases hmask : mask.getLsbD (64 * i + j) with
  | false => simp
  | true => rw [h j hj hmask]

lemma getLsbD_ofWord {b : ℕ} (v : BitVec 64) (hb : b < flowBits) :
    (ofWord i v).getLsbD b = (decide (64 * i ≤ b) && v.getLsbD (b - 64 * i)) := by
  have hlt : b - 64 * i < flowBits := by omega
  unfold ofWord
  rw [BitVec.getLsbD_shiftLeft, BitVec.getLsbD_setWidth]
  simp only [hb, hlt]
  by_cases hle : 64 * i ≤ b <;> simp [hle]

/-- Flows that agree on a word of a mask. -/
lemma word_and_eq_of_ofWord {f g mask : Flow} (h : Agree f g (ofWord i (word mask i))) :
    word (f &&& mask) i = word (g &&& mask) i := by
  refine word_and_eq fun j hj hmask => agree_iff.1 h _ ?_
  rw [getLsbD_ofWord _ (BitVec.lt_of_getLsbD hmask)]
  simp [hj, hmask]

/-- A word that is not zero has a rightmost bit. -/
lemma exists_rightmost1Bit {d : BitVec 64} (hd : d ≠ 0) :
    ∃ k < 64, d.getLsbD k = true ∧ (rightmost1Bit d).getLsbD k = true := by
  have hex : ∃ k, d.getLsbD k = true := by
    by_contra hnone
    exact hd (BitVec.eq_of_getLsbD_eq fun k _ => by simpa using fun h => hnone ⟨k, h⟩)
  obtain ⟨k, hbit, hmin⟩ : ∃ k, d.getLsbD k = true ∧ ∀ j < k, d.getLsbD j = false :=
    ⟨Nat.find hex, Nat.find_spec hex, fun _ hj => by simpa using Nat.find_min hex hj⟩
  refine ⟨k, BitVec.lt_of_getLsbD hbit, hbit, ?_⟩
  rw [rightmost1Bit, BitVec.getLsbD_and, BitVec.getLsbD_neg, hbit]
  simpa using .inr hmin

/-- What `miniflow_and_mask_matches_flow_wc()` puts into the wildcards: all words of the mask if it
matches, and otherwise those before the first one that differs, and a bit that does. -/
lemma matchesFlowWc_snd (m : Match flowBits) (flow wc : Flow) (is : List ℕ) :
    SubMask wc (matchesFlowWc m flow wc is).2 ∧
      ((matchesFlowWc m flow wc is).1 = true →
        ∀ i ∈ is, SubMask (ofWord i (word m.mask i)) (matchesFlowWc m flow wc is).2) ∧
      ((matchesFlowWc m flow wc is).1 = false → ∃ pre d post, is = pre ++ d :: post ∧
        (∀ i ∈ pre, SubMask (ofWord i (word m.mask i)) (matchesFlowWc m flow wc is).2 ∧
          (word m.flow i ^^^ word flow i) &&& word m.mask i = 0) ∧
        ∃ k < 64, (matchesFlowWc m flow wc is).2.getLsbD (64 * d + k) = true ∧
          m.mask.getLsbD (64 * d + k) = true ∧
          m.flow.getLsbD (64 * d + k) ≠ flow.getLsbD (64 * d + k)) := by
  induction is generalizing wc with
  | nil => exact ⟨.refl _, by simp, by simp [matchesFlowWc]⟩
  | cons i is ih =>
    unfold matchesFlowWc
    simp only
    split
    · rename_i hdiff
      set diff := (word m.flow i ^^^ word flow i) &&& word m.mask i with hdef
      have hbit : ∀ {k}, diff.getLsbD k = true → m.mask.getLsbD (64 * i + k) = true ∧
          m.flow.getLsbD (64 * i + k) ≠ flow.getLsbD (64 * i + k) := by
        intro k hk
        simp only [hdef, BitVec.getLsbD_and, getLsbD_word, Bool.and_eq_true] at hk
        refine ⟨hk.2.2, fun heq => ?_⟩
        simp [heq] at hk
      refine ⟨?_, by simp, fun _ => ⟨[], i, is, rfl, by simp, ?_⟩⟩
      · split
        · exact subMask_or_left
        · exact .refl _
      · split
        · obtain ⟨k, hk, hdk, hrk⟩ := exists_rightmost1Bit hdiff
          have hlt : 64 * i + k < flowBits := BitVec.lt_of_getLsbD (hbit hdk).1
          refine ⟨k, hk, ?_, hbit hdk⟩
          rw [BitVec.getLsbD_or, getLsbD_ofWord _ hlt]
          simp [hrk]
        · rename_i hset
          obtain ⟨k, hk⟩ : ∃ k, (word wc i &&& diff).getLsbD k = true := by
            by_contra hnone
            refine hset (BitVec.eq_of_getLsbD_eq fun k _ => ?_)
            simpa using fun h => hnone ⟨k, h⟩
          have hlt : k < 64 := BitVec.lt_of_getLsbD hk
          simp only [BitVec.getLsbD_and, Bool.and_eq_true, getLsbD_word] at hk
          exact ⟨k, hlt, hk.1.2, hbit hk.2⟩
    · rename_i hsame
      obtain ⟨hsub, htrue, hfalse⟩ := ih (wc ||| ofWord i (word m.mask i))
      have hhead := (subMask_or_right wc (ofWord i (word m.mask i))).trans hsub
      refine ⟨(subMask_or_left).trans hsub, fun h => ?_, fun h => ?_⟩
      · exact forall_mem_cons.2 ⟨hhead, htrue h⟩
      · obtain ⟨pre, d, post, heq, hpre, hbit⟩ := hfalse h
        exact ⟨i :: pre, d, post, by rw [heq, cons_append],
          forall_mem_cons.2 ⟨⟨hhead, not_not.1 hsame⟩, hpre⟩, hbit⟩

variable {g : Flow}

section

variable {C : ClsConfig} {cls : Classifier} {sts : List ClsSubtable} {st : ClsSubtable}

/-- The boundaries of the indices of a subtable. -/
structure OfsOk (st : ClsSubtable) : Prop where
  sorted : st.indexOfs.Pairwise (· < ·)
  lt : ∀ s ∈ st.indexOfs, s < flowU64s

lemma CoreOk.ofsOk (h : CoreOk C cls sts) (hst : st ∈ sts) : OfsOk st := by
  have hsub := h.indexOfs st hst ▸ subtableIndexOfs_sublist cls.flowSegments st.mask
  exact ⟨h.segments.1.sublist hsub, fun s hs => h.segments.2 s (hsub.subset hs)⟩

variable {stop : ℕ} {f flow : Flow}

/-- What an index hashes. -/
lemma OfsOk.segmentWords_take (h : OfsOk st) (hi : st.indexOfs[i]? = some stop) (x : Flow) :
    segmentWords st.mask x (st.indexOfs.take (i + 1)) = rangeWords st.mask x 0 stop := by
  rw [segmentWords_eq _ _ (h.sorted.sublist (take_sublist _ _)), take_add_one, hi]
  simp

/-- Flows with the same words up to the end of an index have the same hash. -/
lemma OfsOk.indexHash_congr (h : OfsOk st) (hi : st.indexOfs[i]? = some stop)
    (hwords : ∀ j < stop, word (f &&& st.mask) j = word (g &&& st.mask) j) :
    indexHash C st.mask st.indexOfs f i = indexHash C st.mask st.indexOfs g i := by
  unfold indexHash
  rw [h.segmentWords_take hi, h.segmentWords_take hi, rangeWords_congr fun j _ hj => hwords j hj]

/-- The bits of a word in which a head differs from a flow. -/
def ClsHead.diff (e : ClsHead) (flow : Flow) (i : ℕ) : BitVec 64 :=
  (word e.head.minimatch.flow i ^^^ word flow i) &&& word e.head.minimatch.mask i

/-- A head that differs from the flow before the end of an index rules out another one: that one
differs from the flow before it, or in the same bits. -/
def ClsHead.RulesOut (e e' : ClsHead) (flow : Flow) (stop : ℕ) : Prop :=
  ∀ d < stop, (∀ j < d, e.diff flow j = 0) → e.diff flow d ≠ 0 → (∀ j < d, e'.diff flow j = 0) →
    e.diff flow d &&& e'.diff flow d = e.diff flow d

instance (e e' : ClsHead) (flow : Flow) (stop : ℕ) : Decidable (e.RulesOut e' flow stop) := by
  unfold ClsHead.RulesOut
  infer_instance

variable (C)

/-- Whether a head has the hash of the flow in an index. -/
def HasHash (st : ClsSubtable) (flow : Flow) (i : ℕ) (e : ClsHead) : Prop :=
  indexHash C st.mask st.indexOfs e.head.minimatch.flow i = indexHash C st.mask st.indexOfs flow i

instance : DecidablePred (HasHash C st flow i) := fun _ => inferInstanceAs (Decidable (_ = _))

/-- No collision matters.  An index is used if several heads have the hash of the flow in each one
before it.  If then a single head has it, this head rules out the others. -/
def NoCollision (st : ClsSubtable) (flow : Flow) : Prop :=
  ∀ i < st.indexOfs.length, (∀ j < i, 1 < st.rules.countP (HasHash C st flow j)) →
    st.rules.countP (HasHash C st flow i) = 1 → ∀ e ∈ st.rules, HasHash C st flow i e →
      ∀ e' ∈ st.rules, e.RulesOut e' flow (st.indexOfs.getD i 0)

instance (st : ClsSubtable) (flow : Flow) : Decidable (NoCollision C st flow) := by
  unfold NoCollision
  infer_instance

variable {C}

/-- The nodes of an index with the hash of the flow are those of the heads that have it. -/
lemma SubtableOk.countP_hasHash (hok : SubtableOk C st st.rules) (flow : Flow) (i : ℕ) :
    st.rules.countP (HasHash C st flow i) = ((st.indices i).filter fun node =>
      node.1 = indexHash C st.mask st.indexOfs flow i).length := by
  rw [← countP_eq_length_filter, (hok.indices i).countP_eq, countP_map]
  refine countP_congr fun e _ => ?_
  rw [decide_eq_true_eq, Function.comp_apply, decide_eq_true_eq, HasHash]

/-- The differences of a head that matches a flow with the same bits of a word. -/
lemma ClsHead.diff_eq_zero {e : ClsHead} (hm : e.head.minimatch.Matches g)
    (hword : word (f &&& e.head.minimatch.mask) i = word (g &&& e.head.minimatch.mask) i) :
    e.diff f i = 0 := by
  refine xor_and_eq_zero.2 ?_
  rw [← word_and, ← word_and, hword, ← hm, BitVec.and_assoc, BitVec.and_self]

lemma ClsHead.getLsbD_diff {e : ClsHead} {k : ℕ} (hk : k < 64) :
    (e.diff f i).getLsbD k = true ↔ e.head.minimatch.mask.getLsbD (64 * i + k) = true ∧
      e.head.minimatch.flow.getLsbD (64 * i + k) ≠ f.getLsbD (64 * i + k) := by
  simp only [diff, BitVec.getLsbD_and, BitVec.getLsbD_xor, getLsbD_word, hk, decide_true,
    Bool.true_and, Bool.and_eq_true, bne_iff_ne, ne_eq]
  exact and_comm

/-- The words of a mask are in order. -/
lemma mem_of_lt_maskWords {mask : Flow} {pre post : List ℕ} {d j : ℕ}
    (hsplit : maskWords mask = pre ++ d :: post) (hj : j < d) (hword : word mask j ≠ 0) :
    j ∈ pre := by
  have hd : d ∈ maskWords mask := hsplit ▸ mem_append_right _ mem_cons_self
  have hjmem : j ∈ maskWords mask :=
    mem_filter.2 ⟨mem_range.2 (hj.trans (mem_range.1 (mem_filter.1 hd).1)), by simpa using hword⟩
  have hsorted : (maskWords mask).Pairwise (· < ·) := pairwise_lt_range.filter _
  rw [hsplit] at hsorted hjmem
  obtain hjpre | hjpost := mem_append.1 hjmem
  · exact hjpre
  · obtain rfl | hjpost := mem_cons.1 hjpost
    · exact absurd hj (lt_irrefl _)
    · have := (pairwise_cons.1 (pairwise_append.1 hsorted).2.1).1 j hjpost
      omega

/-- Flows that agree on the words of a mask up to one. -/
lemma words_eq_of_maskWords {mask wc : Flow} {pre post : List ℕ} {d : ℕ}
    (hsplit : maskWords mask = pre ++ d :: post)
    (hpre : ∀ j ∈ pre, SubMask (ofWord j (word mask j)) wc) (hagree : Agree f g wc) :
    ∀ j < d, word (f &&& mask) j = word (g &&& mask) j := by
  intro j hj
  by_cases hzero : word mask j = 0
  · rw [word_and, word_and, hzero]
    exact BitVec.and_zero.trans BitVec.and_zero.symm
  · exact word_and_eq_of_ofWord (hagree.mono (hpre j (mem_of_lt_maskWords hsplit hj hzero)))

/-! ## One subtable -/

/-- The result in a subtable is the same for every flow that agrees on the wildcards. -/
def Decides (st : ClsSubtable) (flow wc : Flow) (res : Option ClsHead × Flow) : Prop :=
  SubMask wc res.2 ∧ ∀ g, Agree flow g res.2 → subtableMatch st g = subtableMatch st flow

/-- The rest of the subtable can be skipped. -/
lemma decides_of_skip {wc wc' : Flow} (hsub : SubMask wc wc')
    (hnone : ∀ g, Agree flow g wc' → ∀ e ∈ st.rules, ¬ e.head.minimatch.Matches g) (e) (stop : ℕ) :
    Decides st flow wc (e, fillRangeWc st wc' stop) := by
  refine ⟨hsub.trans (subMask_or_left), fun g hagree => ?_⟩
  rw [subtableMatch_eq_none.2 (hnone g (hagree.mono (subMask_or_left))),
    subtableMatch_eq_none.2 (hnone flow rfl)]

/-- All of the mask decides. -/
lemma subtableMatch_congr (hok : SubtableOk C st st.rules) (h : Agree f g st.mask) :
    subtableMatch st g = subtableMatch st f := by
  unfold subtableMatch
  rw [← head?_filter, ← head?_filter]
  congr 1
  refine filter_congr fun e he => ?_
  rw [decide_eq_decide, Match.Matches, Match.Matches, (hok.heads e he).mask]
  rw [h]

/-- A rule mask without bits of `igmp_group_ip4`. -/
def NoIgmpGroup (mask : Flow) : Prop :=
  ∀ b, 32 * (tpPortsOfs32 + 1) ≤ b → mask.getLsbD b = false

/-- A bit of the mask is before its length. -/
lemma lt_portsMaskLen {mask : Flow} {k : ℕ} (hk : k < 32)
    (hbit : mask.getLsbD (beBit tpPortsOfs32 k) = true) : k < portsMaskLen mask := by
  have hget : (beBits tpPortsOfs32 32 mask)[k]? = some true := by
    rw [getElem?_beBits hk, hbit]
  unfold portsMaskLen
  generalize beBits tpPortsOfs32 32 mask = bits at hget
  induction bits using reverseRecOn with
  | nil => simp at hget
  | append_singleton bits b ih =>
    rw [rdropWhile_concat]
    split
    · rename_i hb
      refine ih ?_
      obtain hlt | rfl | hgt := lt_trichotomy k bits.length
      · rwa [getElem?_append_left hlt] at hget
      · rw [getElem?_concat_length, Option.some.injEq] at hget
        simp [hget] at hb
      · rw [getElem?_eq_none (by simp; omega)] at hget
        cases hget
    · exact (List.getElem?_eq_some_iff.1 hget).1

/-- **The trie of transport ports decides**, together with the words before the ports. -/
lemma not_matches_of_ports (hok : SubtableOk C st st.rules) (hports : st.portsMaskLen ≠ 0)
    (higmp : NoIgmpGroup st.mask) (hwords : Agree f g (st.mask &&& rangeMask 0 tpPortsOfs64))
    (hbits : Agree f g (st.mask &&& prefixMask tpPortsOfs32
      (st.portsTrie.lookup (beBits tpPortsOfs32 32 (f &&& st.mask))).1))
    (hnone : ∀ e ∈ st.rules, ¬ e.head.minimatch.Matches f) {e : ClsHead} (he : e ∈ st.rules) :
    ¬ e.head.minimatch.Matches g := by
  intro hm
  have hhead := hok.heads e he
  have hflow : e.head.minimatch.flow = g &&& st.mask := by rw [← hm, hhead.mask]
  set len := st.portsMaskLen with hlen
  set v := beBits tpPortsOfs32 32 (f &&& st.mask) with hv
  set v' := beBits tpPortsOfs32 32 (g &&& st.mask) with hv'
  have hprefix : portsPrefix e.head.minimatch = v'.take len := by
    unfold portsPrefix
    rw [hhead.mask, hflow, BitVec.and_assoc, BitVec.and_self, ← hok.portsMaskLen]
  have hcount : 0 < st.portsTrie.count (v'.take len) := by
    rw [hok.ports, if_pos hports, countP_pos_iff]
    exact ⟨e, he, by simpa using hprefix⟩
  have htake : v'.take (st.portsTrie.lookup v).1 = v.take (st.portsTrie.lookup v).1 := by
    refine take_beBits_eq ?_
    rw [BitVec.and_assoc, BitVec.and_assoc]
    exact hbits.symm
  have hle : len ≤ 32 := by
    rw [hlen, hok.portsMaskLen]
    exact ( rdropWhile_prefix _ _).length_le.trans (by simp)
  have hpre : v'.take len <+: v := Trie.prefix_of_lookup hok.portsWf htake hcount
    (by simp [hv, hv']) ( take_prefix _ _)
  -- the flows are equal under the mask, bit by bit
  refine hnone e he (?_ : f &&& e.head.minimatch.mask = _)
  rw [hhead.mask, hflow]
  refine agree_iff.2 fun b hb => ?_
  have hlt : b < flowBits := BitVec.lt_of_getLsbD hb
  by_cases hb1 : b < 64 * tpPortsOfs64
  · exact agree_iff.1 hwords b (by rw [BitVec.getLsbD_and, hb, getLsbD_rangeMask hlt]; simp [hb1])
  · by_cases hb2 : b < 32 * (tpPortsOfs32 + 1)
    · obtain ⟨k, hk, rfl⟩ : ∃ k < 32, b = beBit tpPortsOfs32 k := by
        have h1 : 1728 ≤ b := not_lt.1 hb1
        have h2 : b < 1760 := hb2
        refine ⟨8 * ((b - 1728) / 8) + (7 - (b - 1728) % 8), by omega, ?_⟩
        unfold beBit tpPortsOfs32
        omega
      have hk' : k < len := by
        rw [hlen, hok.portsMaskLen]
        exact lt_portsMaskLen hk hb
      have hget : (v'.take len)[k]? = v[k]? := by
        obtain ⟨rest, hrest⟩ := hpre
        rw [← hrest, getElem?_append_left (by simp [hv', hk', hk])]
      rw [getElem?_take_of_lt hk', getElem?_beBits hk, getElem?_beBits hk, Option.some.injEq,
        BitVec.getLsbD_and, BitVec.getLsbD_and, hb, Bool.and_true, Bool.and_true] at hget
      exact hget.symm
    · rw [higmp b (not_lt.1 hb2)] at hb
      cases hb

/-- A head that matches the flow in all words of the mask matches every flow that agrees on them. -/
lemma SubtableOk.subtableMatch_of_words (hok : SubtableOk C st st.rules) {wc : Flow} {e : ClsHead}
    (he : e ∈ st.rules)
    (hres : (matchesFlowWc e.head.minimatch flow wc (maskWords st.mask)).1 = true)
    (hagree : Agree flow g (matchesFlowWc e.head.minimatch flow wc (maskWords st.mask)).2) :
    subtableMatch st g = subtableMatch st flow := by
  have hm := (hok.matchesFlowWc_iff he wc).1 hres
  rw [hok.subtableMatch_eq_some he hm]
  refine hok.subtableMatch_eq_some he ?_
  obtain ⟨-, htrue, -⟩ := matchesFlowWc_snd e.head.minimatch flow wc (maskWords st.mask)
  rw [matches_iff_words] at hm ⊢
  intro j hj
  have hword := word_and_eq_of_ofWord (hagree.mono (htrue hres j ((hok.heads e he).mask ▸ hj)))
  rw [word_and, word_and] at hword
  exact xor_and_eq_zero.2 ((xor_and_eq_zero.1 (hm j hj)).trans hword)

/-- The single head that has the hash of the flow in an index rules out the other heads. -/
lemma NoCollision.rulesOut (hcollision : NoCollision C st flow) (hok : SubtableOk C st st.rules)
    (hids : IdsOk st) (hi : st.indexOfs[i]? = some stop)
    (hused : ∀ j < i, 1 < st.rules.countP (HasHash C st flow j))
    {e : ClsHead} (he : e ∈ st.rules) (hone : ((st.indices i).filter fun node =>
      node.1 = indexHash C st.mask st.indexOfs flow i) =
        [(indexHash C st.mask st.indexOfs flow i, e.head.id)]) :
    ∀ e' ∈ st.rules, e.RulesOut e' flow stop := by
  have hlt := (List.getElem?_eq_some_iff.1 hi).1
  have hcount : st.rules.countP (HasHash C st flow i) = 1 := by
    rw [hok.countP_hasHash, hone]
    rfl
  have hhas : HasHash C st flow i e := by
    obtain ⟨e', he', hhash, hid⟩ := hok.mem_index.1 (hone ▸ mem_singleton_self _)
    obtain rfl := inj_on_of_nodup_map hids he' he hid
    exact hhash
  have hget : st.indexOfs.getD i 0 = stop := by
    rw [getD_eq_getElem?_getD, hi]
    rfl
  exact hget ▸ hcollision i hlt hused hcount e he hhas

/-- **A single head with the hash of the flow decides**, if it has the words of the flow too, or the
other heads differ from the flow in the same bits. -/
lemma matchesFlowWc_decides (hok : SubtableOk C st st.rules) (hofs : OfsOk st) (hids : IdsOk st)
    {wc : Flow} (hcollision : NoCollision C st flow) (hi : st.indexOfs[i]? = some stop)
    (hused : ∀ j < i, 1 < st.rules.countP (HasHash C st flow j))
    {e : ClsHead} (he : e ∈ st.rules) (hone : ((st.indices i).filter fun node =>
      node.1 = indexHash C st.mask st.indexOfs flow i) =
        [(indexHash C st.mask st.indexOfs flow i, e.head.id)]) (r : Option ClsHead) :
    Decides st flow wc (r, (matchesFlowWc e.head.minimatch flow wc (maskWords st.mask)).2) := by
  have hhead := hok.heads e he
  obtain ⟨hsub, -, hfalse⟩ := matchesFlowWc_snd e.head.minimatch flow wc (maskWords st.mask)
  refine ⟨hsub, fun g hagree => ?_⟩
  cases hres : (matchesFlowWc e.head.minimatch flow wc (maskWords st.mask)).1 with
  | true => exact hok.subtableMatch_of_words he hres hagree
  | false =>
    obtain ⟨pre, d, post, hsplit, hpre, k, hk, hwc, hbit⟩ := hfalse hres
    rw [hhead.mask] at hpre
    have hwords := words_eq_of_maskWords hsplit (fun j hj => (hpre j hj).1) hagree
    have hnone : subtableMatch st flow = none := subtableMatch_eq_none.2 fun e' he' hm' => by
      rw [hok.eq_of_index hids he hone he' hm'] at hm'
      exact Bool.false_ne_true (hres.symm.trans ((hok.matchesFlowWc_iff he wc).2 hm'))
    rw [hnone]
    refine subtableMatch_eq_none.2 fun e' he' hm' => ?_
    -- it is enough that the other head differs from the flow in the bit that is kept
    suffices hbit' : (e'.diff flow d).getLsbD k = true by
      obtain ⟨hmask, hne⟩ := (ClsHead.getLsbD_diff hk).1 hbit'
      refine hne ?_
      rw [← hm', BitVec.getLsbD_and, hmask, Bool.and_true, agree_iff.1 hagree _ hwc]
    have hdiff : (e.diff flow d).getLsbD k = true := (ClsHead.getLsbD_diff hk).2 hbit
    by_cases hstop : stop ≤ d
    · -- the flows have the same hash, so it is the same head
      have hhash : indexHash C st.mask st.indexOfs g i = indexHash C st.mask st.indexOfs flow i :=
        hofs.indexHash_congr hi fun j hj => (hwords j (hj.trans_le hstop)).symm
      rw [← hhash] at hone
      obtain rfl := hok.eq_of_index hids he hone he' hm'
      exact hdiff
    · have hsame : ∀ j < d, e.diff flow j = 0 := by
        intro j hj
        unfold ClsHead.diff
        rw [hhead.mask]
        by_cases hzero : word st.mask j = 0
        · rw [hzero]
          exact BitVec.and_zero
        · exact (hpre j (mem_of_lt_maskWords hsplit hj hzero)).2
      have hsame' : ∀ j < d, e'.diff flow j = 0 := fun j hj => by
        refine ClsHead.diff_eq_zero hm' ?_
        rw [(hok.heads e' he').mask]
        exact hwords j hj
      have hall := hcollision.rulesOut hok hids hi hused he hone e' he' d (not_le.1 hstop) hsame
        (fun hzero => by simp [hzero] at hdiff) hsame'
      rw [← hall, BitVec.getLsbD_and, Bool.and_eq_true] at hdiff
      exact hdiff.2

/-- After the last index the whole mask decides, or the ports up to where no rule has them. -/
lemma findMatchFinal_decides (hcls : ClassifierOk C cls sts) (hst : st ∈ sts)
    (higmp : NoIgmpGroup st.mask) (wc : Flow) (start : ℕ) :
    Decides st flow wc (findMatchFinal C cls st flow wc start) := by
  have hok := hcls.core.subtables st hst
  have hmask : ∀ r, Decides st flow wc (r, wc ||| st.mask) := fun _ =>
    ⟨subMask_or_left, fun g hagree => subtableMatch_congr hok (hagree.mono (subMask_or_right _ _))⟩
  unfold findMatchFinal
  split
  · rename_i wc' htries
    obtain ⟨hsub, hnone⟩ := checkTries_some hcls hst (by simp) htries
    exact decides_of_skip hsub hnone none start
  · rw [hok.findMatch_eq]
    cases hfind : subtableMatch st flow with
    | some e => exact hmask _
    | none =>
      simp only
      split
      · rename_i hports
        have hnone := subtableMatch_eq_none.1 hfind
        refine ⟨(subMask_or_left).trans (subMask_or_left), fun g hagree => ?_⟩
        rw [hfind]
        refine subtableMatch_eq_none.2 fun e he => ?_
        exact not_matches_of_ports hok hports higmp (hagree.mono (subMask_or_right _ _))
          (hagree.mono ((subMask_or_right _ _).trans (subMask_or_left))) hnone he
      · exact hmask _

/-- If no head has the hash of the flow in an index, the words of the index decide: a flow with the
same words has the same hash. -/
lemma SubtableOk.decides_of_index (hok : SubtableOk C st st.rules) (hofs : OfsOk st)
    (hi : st.indexOfs[i]? = some stop) (hnil : ((st.indices i).filter fun node =>
      node.1 = indexHash C st.mask st.indexOfs flow i) = []) (wc : Flow) (r : Option ClsHead) :
    Decides st flow wc (r, fillRangeWc st wc stop) := by
  refine ⟨subMask_or_left, fun g hagree => ?_⟩
  have hhash : indexHash C st.mask st.indexOfs g i = indexHash C st.mask st.indexOfs flow i := by
    refine hofs.indexHash_congr hi fun j hj => (word_and_eq fun b hb hmask => ?_).symm
    refine agree_iff.1 (hagree.mono (subMask_or_right _ _)) _ ?_
    rw [BitVec.getLsbD_and, hmask, getLsbD_rangeMask (BitVec.lt_of_getLsbD hmask)]
    simp
    omega
  rw [hok.subtableMatch_eq_none_of_index hnil, hok.subtableMatch_eq_none_of_index (hhash ▸ hnil)]

/-- **The loop over the indices.** -/
lemma findMatchIndices_decides (hcls : ClassifierOk C cls sts) (hst : st ∈ sts)
    (higmp : NoIgmpGroup st.mask) (hcollision : NoCollision C st flow) (wc : Flow) (start i : ℕ)
    (hused : ∀ j < i, 1 < st.rules.countP (HasHash C st flow j)) {ofs : List ℕ}
    (hdrop : st.indexOfs.drop i = ofs) :
    Decides st flow wc (findMatchIndices C cls st flow wc start i ofs) := by
  have hok := hcls.core.subtables st hst
  have hofs := hcls.core.ofsOk hst
  have hids := hcls.core.idsOk hst
  induction ofs generalizing start i with
  | nil => exact findMatchFinal_decides hcls hst higmp wc start
  | cons stop ofs ih =>
    have hi : st.indexOfs[i]? = some stop := by
      rw [← Nat.add_zero i, ← getElem?_drop, hdrop]
      rfl
    have hdrop' : st.indexOfs.drop (i + 1) = ofs := by
      rw [← drop_drop, hdrop, drop_one, tail_cons]
    unfold findMatchIndices
    split
    · rename_i wc' htries
      obtain ⟨hsub, hnone⟩ := checkTries_some hcls hst (by simp) htries
      exact decides_of_skip hsub hnone none start
    · simp only
      split
      · rename_i hnil
        exact hok.decides_of_index hofs hi hnil wc none
      · rename_i inode hone
        obtain ⟨e, he, rfl⟩ := hok.exists_of_index hone
        simp only [hids.find_eq he]
        exact matchesFlowWc_decides hok hofs hids hcollision hi hused he hone _
      · rename_i hnil hsingle
        refine ih stop (i + 1) (fun j hj => ?_) hdrop'
        obtain hj | rfl := Nat.lt_succ_iff_lt_or_eq.1 hj
        · exact hused j hj
        · rw [hok.countP_hasHash]
          rcases hnodes : (st.indices j).filter fun node =>
            node.1 = indexHash C st.mask st.indexOfs flow j with _ | ⟨inode, _ | ⟨_, _⟩⟩
          · exact absurd hnodes hnil
          · exact absurd hnodes (hsingle inode)
          · rw [hnodes]
            simp

/-- A subtable is searched: the flow has its tag, and no rule that matches is in a subtable before
it and as good as its rules can be. -/
def Searched (cls : Classifier) (flow : Flow) (st : ClsSubtable) : Prop :=
  tagIntersects (lookupTags cls flow) st.tag ∧
    ∃ before entry after, cls.subtables.impl.vector = before ++ entry :: after ∧
      entry.ptr.bind cls.findSubtable = some st ∧
      ∀ entry' ∈ before, ∀ st', entry'.ptr.bind cls.findSubtable = some st' →
        ∀ e ∈ st'.rules, e.head.minimatch.Matches flow → e.head.priority < entry.priority

/-- What a match without conjunctions does to the priority of the hard match. -/
lemma hardPri_lookupMatch (allow : Bool) (s : LookupState) {e : Option ClsHead}
    (hconj : ∀ e' ∈ e, e'.head.conj = []) :
    hardPri s.hard ≤ hardPri (lookupMatch allow s e).hard ∧
      ∀ e' ∈ e, e'.head.priority ≤ hardPri (lookupMatch allow s e).hard := by
  cases e with
  | none => exact ⟨le_rfl, by simp⟩
  | some e =>
    simp only [Option.mem_def, Option.some.injEq, forall_eq'] at hconj ⊢
    unfold lookupMatch
    simp only [hconj, if_true]
    split
    · rename_i hle
      exact ⟨le_rfl, hle⟩
    · rename_i hlt
      exact ⟨(not_le.1 hlt).le, le_rfl⟩

/-- **The main loop sees the same for every flow that agrees on its wildcards.**  The hard match is
as good as what matches in the subtables before. -/
lemma lookupLoop_decides (hok : ClassifierOk C cls sts) (higmp : ∀ st ∈ sts, NoIgmpGroup st.mask)
    (hconj : ∀ r ∈ rulesOf sts, r.conj = [])
    (hcollision : ∀ st ∈ sts, Searched cls f st → NoCollision C st f) (allow : Bool)
    {before entries : List (PVectorEntry Flow)}
    (hvector : cls.subtables.impl.vector = before ++ entries) (s : LookupState)
    (hbefore : ∀ entry ∈ before, ∀ st, entry.ptr.bind cls.findSubtable = some st →
      ∀ e ∈ st.rules, e.head.minimatch.Matches f → e.head.priority ≤ hardPri s.hard)
    {wc : Flow} (hwc : s.wc = some wc) :
    ∃ wc', (lookupLoop C cls f allow entries s).wc = some wc' ∧ SubMask wc wc' ∧
      ∀ g, word f metadataOfs64 = word g metadataOfs64 → Agree f g wc' →
        (searchLoop cls g allow entries s).hard = (searchLoop cls f allow entries s).hard ∧
          (searchLoop cls g allow entries s).soft = (searchLoop cls f allow entries s).soft := by
  induction entries generalizing before s wc with
  | nil => exact ⟨wc, hwc, .refl _, fun _ _ _ => ⟨rfl, rfl⟩⟩
  | cons entry entries ih =>
    unfold lookupLoop searchLoop
    split
    · rename_i hpri
      cases hst : entry.ptr.bind cls.findSubtable with
      | none => exact ⟨wc, hwc, .refl _, fun _ _ _ => ⟨rfl, rfl⟩⟩
      | some st =>
        have hmem := hok.mem_of_entry hst
        have hvector' : cls.subtables.impl.vector = (before ++ [entry]) ++ entries := by
          rw [hvector, append_assoc]
          rfl
        have hbest : ∀ e ∈ subtableMatch st f, e.head.conj = [] := fun e he => hconj _
          (mem_rulesOf_of_head hmem (subtableMatch_mem he).1 mem_cons_self)
        obtain ⟨hgrows, hhard⟩ := hardPri_lookupMatch allow s hbest
        have hbefore' : ∀ entry' ∈ before ++ [entry], ∀ st',
            entry'.ptr.bind cls.findSubtable = some st' → ∀ e ∈ st'.rules,
            e.head.minimatch.Matches f →
              e.head.priority ≤ hardPri (lookupMatch allow s (subtableMatch st f)).hard := by
          intro entry' hentry' st' hst' e he hm
          obtain hentry' | hentry' := mem_append.1 hentry'
          · exact (hbefore entry' hentry' st' hst' e he hm).trans hgrows
          · obtain rfl := mem_singleton.1 hentry'
            obtain rfl := Option.some.inj (hst.symm.trans hst')
            exact hhard e ((hok.core.subtables st hmem).subtableMatch_eq_some he hm)
        simp only
        split
        · rename_i htags
          have hsearched : Searched cls f st := ⟨htags, before, entry, entries, hvector, hst,
            fun entry' hentry' st' hst' e he hm =>
              (hbefore entry' hentry' st' hst' e he hm).trans_lt hpri⟩
          obtain ⟨hsub1, hsame⟩ := findMatchIndices_decides hok hmem (higmp st hmem)
            (hcollision st hmem hsearched) wc 0 0 (fun _ hj => absurd hj (Nat.not_lt_zero _))
            drop_zero
          rw [hwc, findMatchWc_fst hok hmem, lookupMatch_wc]
          set wc1 := (findMatchIndices C cls st f wc 0 0 st.indexOfs).2
          obtain ⟨wc2, hwc2, hsub2, hsearch⟩ := ih hvector'
            { lookupMatch allow s (subtableMatch st f) with wc := some wc1 } hbefore' rfl
          refine ⟨wc2, hwc2, hsub1.trans hsub2, fun g hmeta hagree => ?_⟩
          obtain ⟨hhard, hsoft⟩ := hsearch g hmeta hagree
          obtain ⟨hhardg, hsoftg⟩ := @searchLoop_found cls allow g entries
            (lookupMatch allow s (subtableMatch st f)) (some wc1)
          obtain ⟨hhardf, hsoftf⟩ := @searchLoop_found cls allow f entries
            (lookupMatch allow s (subtableMatch st f)) (some wc1)
          rw [hsame g (hagree.mono hsub2)]
          exact ⟨hhardg.symm.trans (hhard.trans hhardf), hsoftg.symm.trans (hsoft.trans hsoftf)⟩
        · rename_i htags
          have hnone : ∀ g, word f metadataOfs64 = word g metadataOfs64 →
              subtableMatch st g = none := fun g hmeta =>
            subtableMatch_eq_none.2 fun e he hm => htags (by
              rw [lookupTags, hmeta]
              exact tagIntersects_of_matches hok hmem he hm)
          rw [hnone f rfl] at hbefore'
          obtain ⟨wc2, hwc2, hsub2, hsearch⟩ := ih hvector' s hbefore' hwc
          refine ⟨wc2, hwc2, hsub2, fun g hmeta hagree => ?_⟩
          rw [hnone g hmeta, hnone f rfl]
          exact hsearch g hmeta hagree
    · exact ⟨wc, hwc, .refl _, fun _ _ _ => ⟨rfl, rfl⟩⟩

/-- What rules may be for the wildcards to be right. -/
def MegaflowRule (r : ClsMatch) : Prop :=
  intMin < r.priority ∧ r.conj = [] ∧ NoIgmpGroup r.minimatch.mask

end

/-! ## Two rules with registers -/

/-- The hash functions of the source. -/
def murmurConfig : ClsConfig :=
  { plainConfig with
    hashWords := fun ws => hashFinish (ws.foldl hashAdd64 0) (BitVec.ofNat 32 (8 * ws.length)) }

/-- A rule that matches two registers exactly, and one bit of `dl_dst`. -/
def registerRule (id : ℕ) (registers : BitVec 64) : ClsMatch :=
  ⟨id, .ofMasked (ofWord 5 registers) (ofWord 5 (BitVec.allOnes 64) ||| ofWord 13 1), 1, []⟩

/-- The classifier with the rules of two values of the registers. -/
def collisionTable : Classifier :=
  classifierOf murmurConfig [registerRule 1 0, registerRule 2 1]

/-- A flow whose registers have the hash of zeros. -/
def collisionFlow : Flow := ofWord 5 0x1d37413200000001

lemma noIgmpGroup_ofWord (hi : i < tpPortsOfs64) (v : BitVec 64) : NoIgmpGroup (ofWord i v) := by
  intro b hb
  have hb' : 1760 ≤ b := hb
  have hi' : i < 27 := hi
  by_cases hlt : b < flowBits
  · rw [getLsbD_ofWord v hlt, BitVec.getLsbD_of_ge v _ (by omega), Bool.and_false]
  · exact BitVec.getLsbD_of_ge _ _ (not_lt.1 hlt)

lemma megaflowRule_registerRule (id : ℕ) (registers : BitVec 64) :
    MegaflowRule (registerRule id registers) := by
  refine ⟨(by decide : intMin < (1 : ℤ)), rfl, fun k hk => BitVec.getLsbD_or.trans ?_⟩
  rw [noIgmpGroup_ofWord (by decide) _ k hk, noIgmpGroup_ofWord (by decide) _ k hk]
  rfl

lemma run_collisionTable : ∃ rules, Run murmurConfig MegaflowRule collisionTable rules :=
  ⟨_, run_classifierOf (by decide) (by decide +kernel) (by
    simp only [forall_mem_cons, not_mem_nil, false_imp_iff, implies_true, and_true]
    exact ⟨megaflowRule_registerRule 1 0, megaflowRule_registerRule 2 1⟩)⟩

end OVS
