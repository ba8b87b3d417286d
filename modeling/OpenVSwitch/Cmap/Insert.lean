import OpenVSwitch.Cmap.Search

/-!
# Inserting a chain

`tryInsert_spec`: whichever of its five ways `cmap_try_insert()` takes, it keeps the placement
invariant, stores the node for its hash and changes no other lookup.  `rehash_spec`: with any
basis for which it succeeds, `cmap_rehash()` changes neither a lookup nor a `next` pointer.
-/

namespace OVS

namespace CmapImpl

open List Option Cuckoo

variable (hashFinish : BitVec 32 → BitVec 32 → BitVec 32) (impl : CmapImpl)

/-- The placement invariant of a map. -/
def Placed : Prop :=
  Cuckoo.Placed (impl.bucket₁ hashFinish) (impl.bucket₂ hashFinish) impl.buckets.view

variable {hashFinish impl} {h : BitVec 32} {fuel : ℕ} {next next' : ℕ → Option ℕ}

section

variable (hp : impl.Placed hashFinish)
include hp

/-- A lookup finds exactly the live slots. -/
lemma Placed.find_eq_some_iff {x : ℕ} :
    impl.find hashFinish h = some x ↔ ∃ b i, impl.buckets b i = ⟨h, some x⟩ :=
  Cuckoo.Placed.lookup_eq_some_iff hp

lemma Placed.find_eq_none_iff :
    impl.find hashFinish h = none ↔ ∀ b i x, impl.buckets b i ≠ ⟨h, some x⟩ := by
  rw [eq_none_iff_forall_ne_some]
  simp only [ne_eq, hp.find_eq_some_iff, not_exists]
  exact ⟨fun hx b i x => hx x b i, fun hx x b i => hx b i x⟩

variable {b : BitVec 32}

/-- Storing a node for a hash that is not live elsewhere, at a place where a lookup finds it. -/
lemma Placed.setBucket {i : Fin cmapK} {hash : BitVec 32} (node : ℕ)
    (hlive : ∀ b' i' y, impl.buckets b' i' = ⟨hash, some y⟩ → b' = b ∧ i' = i)
    (hslot : (impl.buckets b i).node = none ∨ (impl.buckets b i).hash = hash)
    (hc : b = impl.bucket₁ hashFinish hash ∨ b = impl.bucket₂ hashFinish hash)
    (hfirst : ∀ j < i, (impl.buckets b j).hash ≠ hash) (hexcl : b ≠ impl.bucket₁ hashFinish hash →
      ∀ j, (impl.buckets (impl.bucket₁ hashFinish hash) j).hash ≠ hash) :
    (impl.setBucket b i (some node) hash).Placed hashFinish ∧
      ∀ h, (impl.setBucket b i (some node) hash).find hashFinish h =
        if h = hash then some node else impl.find hashFinish h := by
  have hplaced : (impl.setBucket b i (some node) hash).Placed hashFinish := by
    have hput := Cuckoo.Placed.put hp node
      (fun b' i' y hs => hlive b' i' y (some.inj hs)) hc
      (fun j hj n hs => hfirst j hj (congrArg Cuckoo.Slot.hash (some.inj hs)))
      (fun hb j n hs => hexcl hb j (congrArg Cuckoo.Slot.hash (some.inj hs)))
    rwa [← view_set] at hput
  refine ⟨hplaced, Cuckoo.Placed.lookup_set hplaced fun g hg y => ?_⟩
  rw [hp.find_eq_some_iff]
  refine exists₂_congr fun b' i' => ?_
  rw [withHole_eq_some_iff]
  refine ⟨fun hs => ⟨?_, hs⟩, And.right⟩
  rintro ⟨rfl, rfl⟩
  rw [hs] at hslot
  exact hslot.elim (by simp) hg

/-! ## The ways of `cmap_try_insert()` -/

/-- No slot of the bucket has the hash. -/
def Lacks (impl : CmapImpl) (b hash : BitVec 32) : Prop := ∀ i, (impl.buckets b i).hash ≠ hash

/-- How an insertion of `node` for `hash` leaves a map. -/
structure Inserted (hashFinish : BitVec 32 → BitVec 32 → BitVec 32) (impl : CmapImpl) (node : ℕ)
    (hash : BitVec 32) (impl' : CmapImpl) : Prop where
  placed : impl'.Placed hashFinish
  n : impl'.n = impl.n
  mask : impl'.mask = impl.mask
  find : ∀ h, impl'.find hashFinish h = if h = hash then some node else impl.find hashFinish h

variable {node : ℕ} {hash : BitVec 32} {impl' : CmapImpl}

/-- If neither candidate bucket has a slot with the hash, the hash is not live. -/
lemma Placed.find_of_lacks (h1 : impl.Lacks (impl.bucket₁ hashFinish hash) hash)
    (h2 : impl.Lacks (impl.bucket₂ hashFinish hash) hash) : impl.find hashFinish hash = none := by
  rw [hp.find_eq_none_iff]
  intro b i x hs
  have hhash : (impl.buckets b i).hash = hash := by rw [hs]
  rcases Cuckoo.Placed.candidate hp (congrArg some hs) with rfl | rfl
  · exact h1 i hhash
  · exact h2 i hhash

omit hp in
lemma insertDup_eq_none (h : impl.insertDup fuel next node hash b = none) : impl.Lacks b hash := by
  unfold insertDup at h
  split at h
  · next hnone => simpa [Lacks] using hnone
  · simp at h

/-- `cmap_insert_dup()` in a candidate bucket, when the first candidate is that bucket or lacks the
hash. -/
lemma insertDup_spec (hc : b = impl.bucket₁ hashFinish hash ∨ b = impl.bucket₂ hashFinish hash)
    (hlacks : b ≠ impl.bucket₁ hashFinish hash → impl.Lacks (impl.bucket₁ hashFinish hash) hash)
    (h : impl.insertDup fuel next node hash b = some (next', impl')) :
    Inserted hashFinish impl node hash impl' ∧
      next' = match impl.find hashFinish hash with
        | some y => Function.update next (chainEnd next fuel node) (some y)
        | none => next := by
  unfold insertDup at h
  split at h
  · simp at h
  · next i hi =>
    rw [Fin.find?_eq_some_iff] at hi
    simp only [decide_eq_true_eq, decide_eq_false_iff_not] at hi
    obtain ⟨hi, hbefore⟩ := hi
    -- a live slot with the hash can only be the one that was found
    have hlive : ∀ b' i' y, impl.buckets b' i' = ⟨hash, some y⟩ → b' = b ∧ i' = i := by
      intro b' i' y hs
      have hv : impl.buckets.view b' i' = some ⟨hash, some y⟩ := congrArg some hs
      have hvi : impl.buckets.view b i = some ⟨hash, (impl.buckets b i).node⟩ := by
        rw [Cuckoo.Table.view, ← hi]
      have hb : b' = b := by
        by_cases hb1 : b' = impl.bucket₁ hashFinish hash
        · by_contra hne
          exact hlacks (fun hb => hne (hb1.trans hb.symm)) i' (by rw [← hb1, hs])
        · have hb2 := (Cuckoo.Placed.candidate hp hv).resolve_left hb1
          refine hb2.trans (hc.resolve_left fun hb => ?_).symm
          exact Cuckoo.Placed.exclusive hp hv hb1 i _ (hb ▸ hvi)
      subst hb
      refine ⟨rfl, ?_⟩
      rcases lt_trichotomy i' i with hlt | heq | hgt
      · exact absurd (by rw [hs]) (hbefore i' hlt)
      · exact heq
      · exact absurd hvi (Cuckoo.Placed.first hp hv i hgt _)
    obtain ⟨rfl, rfl⟩ := h
    obtain ⟨hplaced, hfind⟩ := hp.setBucket node hlive (.inr hi) hc hbefore hlacks
    refine ⟨⟨hplaced, rfl, rfl, hfind⟩, ?_⟩
    cases hn : (impl.buckets b i).node with
    | some y =>
      have hy : impl.find hashFinish hash = some y :=
        hp.find_eq_some_iff.2 ⟨b, i, by rw [← hi, ← hn]⟩
      rw [hy]
    | none =>
      have hnone : impl.find hashFinish hash = none := by
        rw [hp.find_eq_none_iff]
        intro b' i' y hs
        obtain ⟨rfl, rfl⟩ := hlive b' i' y hs
        simp [hs] at hn
      rw [hnone]

/-- `cmap_insert_bucket()` in a candidate bucket, when neither candidate has the hash. -/
lemma insertBucket_spec (hc : b = impl.bucket₁ hashFinish hash ∨ b = impl.bucket₂ hashFinish hash)
    (h1 : impl.Lacks (impl.bucket₁ hashFinish hash) hash)
    (h2 : impl.Lacks (impl.bucket₂ hashFinish hash) hash)
    (h : impl.insertBucket node hash b = some impl') :
    Inserted hashFinish impl node hash impl' := by
  unfold insertBucket at h
  split at h
  · simp at h
  · next i hi =>
    have hb : impl.Lacks b hash := by rcases hc with rfl | rfl <;> assumption
    have hnone := hp.find_eq_none_iff.1 (hp.find_of_lacks h1 h2)
    cases h
    obtain ⟨hplaced, hfind⟩ := hp.setBucket node (fun b' i' y hs => absurd hs (hnone b' i' y))
      (.inl (impl.findEmptySlot_eq_some hi).1) hc (fun j _ => hb j) (fun _ => h1)
    exact ⟨hplaced, rfl, rfl, hfind⟩

omit hp in
lemma insertBucket_eq_none (h : impl.insertBucket node hash b = none) : impl.Full b := by
  unfold insertBucket at h
  split at h
  · next hnone => exact impl.findEmptySlot_eq_none_iff.1 hnone
  · simp at h

/-- `cmap_insert_bfs()`, when both candidates are full and neither has the hash. -/
lemma insertBfs_spec (h1 : impl.Lacks (impl.bucket₁ hashFinish hash) hash)
    (h2 : impl.Lacks (impl.bucket₂ hashFinish hash) hash)
    (hf1 : impl.Full (impl.bucket₁ hashFinish hash))
    (hf2 : impl.Full (impl.bucket₂ hashFinish hash))
    (h : impl.insertBfs hashFinish node hash (impl.bucket₁ hashFinish hash)
      (impl.bucket₂ hashFinish hash) = some impl') : Inserted hashFinish impl node hash impl' := by
  unfold insertBfs at h
  split at h
  · simp at h
  · next room hroom =>
    have hc : impl.AtCandidates hashFinish impl.buckets :=
      fun hs => Cuckoo.Placed.candidate hp (congrArg some hs)
    obtain ⟨hstart, hmovable⟩ := findRoom_movable hc hf1 hf2 hroom
    obtain ⟨s, rest, hs⟩ : ∃ s rest, room.path.slots ++ [room.hop, room.empty] = s :: rest := by
      cases room.path.slots <;> simp
    simp only [hs, positions] at h hmovable
    cases h
    set b := room.path.start
    set ps := impl.positions hashFinish (impl.otherBucket hashFinish b s) rest
    have hnone := hp.find_eq_none_iff.1 (hp.find_of_lacks h1 h2)
    have hb : impl.Lacks b hash := by rcases hstart with hb | hb <;> rw [hb] <;> assumption
    obtain ⟨hmoved, hpairs⟩ := Cuckoo.Placed.moveBack hp hmovable
    have hput := hmoved.put (i := s) node ?_ hstart ?_ ?_
    · rw [set_withHole] at hput
      refine ⟨hput, rfl, rfl, Cuckoo.Placed.lookup_set hput fun g _ y => ?_⟩
      rw [hp.find_eq_some_iff, hpairs]
    · intro b' i' y hs'
      obtain ⟨b'', i'', hs''⟩ := (hpairs hash y).1 ⟨b', i', hs'⟩
      exact absurd hs'' (hnone b'' i'' y)
    · intro j _ n hs'
      have hsame : moveBack ((b, s) :: ps) impl.buckets b j = impl.buckets b j :=
        moveBack_of_not_mem hmovable.head_new j
      rw [withHole_eq_some_iff] at hs'
      exact hb j (by rw [← hsame, hs'.2])
    · -- what was moved into the first candidate is live, so it has another hash
      intro _ j n hs'
      rcases hmovable.moveBack_cases (impl.bucket₁ hashFinish hash) j with hsame | hlive
      · rw [withHole_eq_some_iff] at hs'
        exact h1 j (by rw [← hsame, hs'.2])
      · rw [(withHole_eq_some_iff.1 hs').2, isSome_iff_exists] at hlive
        obtain ⟨y, rfl⟩ := hlive
        obtain ⟨b'', i'', hs''⟩ := (hpairs hash y).1 ⟨_, j, hs'⟩
        exact hnone b'' i'' y hs''

/-- **`cmap_try_insert()`.**  The node is stored for its hash, in front of the nodes that were there
already, and no other lookup changes. -/
theorem tryInsert_spec (h : impl.tryInsert hashFinish fuel next node hash = some (next', impl')) :
    Inserted hashFinish impl node hash impl' ∧
      next' = match impl.find hashFinish hash with
        | some y => Function.update next (chainEnd next fuel node) (some y)
        | none => next := by
  simp only [tryInsert, orElse_eq_orElse, orElse_eq_or, or_eq_some_iff,
    map_eq_some_iff, map_eq_none_iff] at h
  rcases h with h | ⟨hd1, h | ⟨hd2, h⟩⟩
  · exact insertDup_spec hp (.inl rfl) (fun hb => absurd rfl hb) h
  · exact insertDup_spec hp (.inr rfl) (fun _ => insertDup_eq_none hd1) h
  · have h1 := insertDup_eq_none hd1
    have h2 := insertDup_eq_none hd2
    rw [hp.find_of_lacks h1 h2]
    rcases h with ⟨_, h, rfl, rfl⟩ | ⟨hi1, ⟨_, h, rfl, rfl⟩ | ⟨hi2, _, h, rfl, rfl⟩⟩
    · exact ⟨insertBucket_spec hp (.inl rfl) h1 h2 h, rfl⟩
    · exact ⟨insertBucket_spec hp (.inr rfl) h1 h2 h, rfl⟩
    · exact ⟨insertBfs_spec hp h1 h2 (insertBucket_eq_none hi1) (insertBucket_eq_none hi2) h, rfl⟩

end

/-! ## Rehashing -/

/-- A new map is empty. -/
lemma placed_create (hashFinish : BitVec 32 → BitVec 32 → BitVec 32) (mask basis : BitVec 32) :
    (create mask basis).Placed hashFinish := by
  have hdead : ∀ {b i h x}, (create mask basis).buckets.view b i ≠ some ⟨h, some x⟩ := by
    intro b i h x hs
    simp [create, Cuckoo.Table.view] at hs
  exact ⟨fun h => absurd h hdead, fun h => absurd h hdead, fun h => absurd h hdead,
    fun h => absurd h hdead⟩

lemma find_create (mask basis h : BitVec 32) : (create mask basis).find hashFinish h = none := by
  rw [(placed_create hashFinish mask basis).find_eq_none_iff]
  simp [create]

/-- The chains that rehashing visits are those that lookups find. -/
lemma mem_chains_iff (hp : impl.Placed hashFinish) {x : ℕ} :
    (x, h) ∈ impl.chains ↔ impl.find hashFinish h = some x := by
  have hslot : ∀ b i, (impl.buckets b i).node.map (·, (impl.buckets b i).hash) = some (x, h) ↔
      impl.buckets b i = ⟨h, some x⟩ := by
    intro b i
    cases impl.buckets b i with
    | mk g n => cases n <;> simp [and_comm]
  rw [hp.find_eq_some_iff]
  simp only [chains, mem_flatMap, mem_filterMap, mem_finRange, true_and, hslot, mem_range]
  constructor
  · rintro ⟨b, -, i, hs⟩
    exact ⟨_, i, hs⟩
  · rintro ⟨b, i, hs⟩
    have hle : b.toNat ≤ impl.mask.toNat := by
      rcases Cuckoo.Placed.candidate hp (congrArg some hs) with rfl | rfl
      · exact Nat.and_le_right
      · exact Nat.and_le_right
    exact ⟨b.toNat, by omega, i, by simpa using hs⟩

/-- Rehashing visits every hash at most once. -/
lemma chains_pairwise (hp : impl.Placed hashFinish) :
    impl.chains.Pairwise fun p q => p.2 ≠ q.2 := by
  -- chains at different positions have different hashes
  have hne : ∀ {b b' : BitVec 32} {i i' : Fin cmapK} {p q : ℕ × BitVec 32},
      (impl.buckets b i).node.map (·, (impl.buckets b i).hash) = some p →
      (impl.buckets b' i').node.map (·, (impl.buckets b' i').hash) = some q →
      p.2 = q.2 → b = b' ∧ i = i' := by
    intro b b' i i' p q hp' hq heq
    rw [map_eq_some_iff] at hp' hq
    obtain ⟨x, hx, rfl⟩ := hp'
    obtain ⟨y, hy, rfl⟩ := hq
    have hhash : (impl.buckets b i).hash = (impl.buckets b' i').hash := heq
    refine Cuckoo.Placed.unique hp (h := (impl.buckets b i).hash) (x := x) (y := y) ?_ ?_
    · rw [Cuckoo.Table.view, ← hx]
    · rw [Cuckoo.Table.view, ← hy, hhash]
  unfold chains
  rw [pairwise_flatMap]
  refine ⟨fun b _ => ?_, ?_⟩
  · rw [pairwise_filterMap]
    refine (nodup_finRange cmapK).imp fun hij p hp' q hq heq => hij (hne hp' hq heq).2
  · refine nodup_range.imp_of_mem fun {b b'} hb hb' hbb p hp' q hq heq => ?_
    rw [mem_filterMap] at hp' hq
    obtain ⟨i, -, hp'⟩ := hp'
    obtain ⟨i', -, hq⟩ := hq
    have hsame := congrArg BitVec.toNat (hne hp' hq heq).1
    rw [mem_range] at hb hb'
    rw [BitVec.toNat_ofNat, BitVec.toNat_ofNat, Nat.mod_eq_of_lt (by omega),
      Nat.mod_eq_of_lt (by omega)] at hsame
    exact hbb hsame

/-- `cmap_try_rehash()` into a map that has none of the hashes: no `next` pointer changes, and if
it succeeds, the new map has the chains in addition to what it had. -/
lemma tryRehash_spec {l : List (ℕ × BitVec 32)} (hl : l.Pairwise fun p q => p.2 ≠ q.2)
    {ok : Bool} {new new' : CmapImpl} (hp : new.Placed hashFinish)
    (hnew : ∀ p ∈ l, new.find hashFinish p.2 = none)
    (h : tryRehash hashFinish fuel l next new = (ok, next', new')) :
    next' = next ∧ (ok = true → new'.Placed hashFinish ∧ new'.mask = new.mask ∧
      ∀ g y, new'.find hashFinish g = some y ↔
        new.find hashFinish g = some y ∨ (y, g) ∈ l) := by
  induction l generalizing next new with
  | nil =>
    obtain ⟨-, rfl, rfl⟩ := h
    exact ⟨rfl, fun _ => ⟨hp, rfl, by simp⟩⟩
  | cons p rest ih =>
    obtain ⟨x, g⟩ := p
    rw [pairwise_cons] at hl
    simp only [tryRehash] at h
    split at h
    · obtain ⟨rfl, rfl, rfl⟩ := h
      exact ⟨rfl, by simp⟩
    · next next1 new1 htry =>
      obtain ⟨hins, hnext⟩ := tryInsert_spec hp htry
      rw [hnew (x, g) (by simp)] at hnext
      have hnew1 : ∀ q ∈ rest, new1.find hashFinish q.2 = none := by
        intro q hq
        rw [hins.find, if_neg fun he => hl.1 q hq he.symm]
        exact hnew q (by simp [hq])
      obtain ⟨hsame, hok⟩ := ih hl.2 hins.placed hnew1 h
      refine ⟨hsame.trans hnext, fun hok' => ?_⟩
      obtain ⟨hplaced, hmask, hfind⟩ := hok hok'
      refine ⟨hplaced, hmask.trans hins.mask, fun k y => ?_⟩
      rw [hfind, hins.find]
      by_cases hk : k = g
      · have hgk := hnew (x, g) (by simp)
        have hrest : ∀ z, (z, g) ∉ rest := fun z hz => hl.1 (z, g) hz rfl
        simp [hk, hgk, eq_comm]
      · simp [hk]

end CmapImpl

namespace Cmap

open CmapImpl

variable {hashFinish : BitVec 32 → BitVec 32 → BitVec 32} {cmap cmap' : Cmap} {mask : BitVec 32}
  {bases bases' : List (BitVec 32)}

/-- How rehashing leaves a map. -/
structure Rehashed (hashFinish : BitVec 32 → BitVec 32 → BitVec 32) (cmap : Cmap)
    (mask : BitVec 32) (cmap' : Cmap) : Prop where
  placed : cmap'.impl.Placed hashFinish
  n : cmap'.impl.n = cmap.impl.n
  mask : cmap'.impl.mask = mask
  next : cmap'.next = cmap.next
  find : ∀ h, cmap'.find hashFinish h = cmap.find hashFinish h

lemma rehashLoop_spec {old : CmapImpl} (hp : old.Placed hashFinish) {next : ℕ → Option ℕ}
    (h : rehashLoop hashFinish old mask next bases = .ok (cmap', bases')) :
    Rehashed hashFinish ⟨old, next⟩ mask cmap' := by
  induction bases generalizing next with
  | nil => simp [rehashLoop] at h
  | cons basis bases ih =>
    have hnew : ∀ p ∈ old.chains, (create mask basis).find hashFinish p.2 = none :=
      fun p _ => find_create mask basis p.2
    simp only [rehashLoop] at h
    split at h
    · next next' new htry =>
      obtain ⟨hnext, hok⟩ := tryRehash_spec (chains_pairwise hp) (placed_create _ _ _) hnew htry
      obtain ⟨hplaced, hmask, hfind⟩ := hok rfl
      cases h
      refine ⟨hplaced, rfl, hmask, hnext, fun g => Option.ext fun y => ?_⟩
      refine (hfind g y).trans ?_
      rw [find_create, mem_chains_iff hp]
      simp [find]
    · next next' new htry =>
      obtain ⟨hnext, -⟩ := tryRehash_spec (chains_pairwise hp) (placed_create _ _ _) hnew htry
      rw [hnext] at h
      exact ih h

/-- **`cmap_rehash()` changes neither a lookup nor a `next` pointer**, whatever bases it tries. -/
theorem rehash_spec (hp : cmap.impl.Placed hashFinish)
    (h : cmap.rehash hashFinish mask bases = .ok (cmap', bases')) :
    Rehashed hashFinish cmap mask cmap' ∧ cmap.impl.n < calcMaxN mask := by
  unfold rehash at h
  split at h
  · next hassert => exact ⟨rehashLoop_spec hp h, hassert.2⟩
  · simp at h

end Cmap

end OVS
