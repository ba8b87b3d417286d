import Mathlib.Data.Finset.Card
import OpenVSwitch.Cmap.Insert
import OpenVSwitch.Hash

/-!
# A cmap is a multimap

The abstract state is the finite set of the nodes that are present, each with the hash it was
inserted under.  `Op` are the client's operations, `Op.Valid` what the client has to see to (a
node is inserted only while it is not in the map, and replaced or removed only while it is), and
`Reachable` are the states of all runs from `cmap_init()`, for every heap, every hash function
and every choice of rehash bases.

**Refinement.**  `cmap_refines_multimap`: in every reachable state, following `cmap_find()` along
`next` visits exactly the nodes with the hash, each once; `cmap_count()` is the number of nodes;
every hash that is present occupies one slot, in one of its two candidate buckets; and no
operation of the client crashes.

**The writer's lookup.**  `find_protected_eq_find_iff`: `cmap_find_protected()` agrees with
`cmap_find()` exactly if it looks at the bucket in which the chain is.  Its second bucket is that
of the client's hash, not that of the rehashed one, so it misses chains
(`find_protected_misses`).
-/

namespace OVS

namespace Cmap

open CmapImpl List Function

variable {hashFinish : BitVec 32 → BitVec 32 → BitVec 32} {cmap cmap' : Cmap}
  {P : Finset (ℕ × BitVec 32)}

/-- What a cmap represents: the nodes present, with their hashes. -/
structure Represents (hashFinish : BitVec 32 → BitVec 32 → BitVec 32) (cmap : Cmap)
    (P : Finset (ℕ × BitVec 32)) : Prop where
  placed : cmap.impl.Placed hashFinish
  chain : ∀ h, ∃ l, Chain cmap.next (cmap.find hashFinish h) l ∧ ∀ x, x ∈ l ↔ (x, h) ∈ P
  unique : ∀ {x h h'}, (x, h) ∈ P → (x, h') ∈ P → h = h'
  count : cmap.impl.n = P.card
  bound : P.card < 2 ^ 32

variable {next : ℕ → Option ℕ} {x node old fuel : ℕ} {hash g b mask : BitVec 32}
  {bases : List (BitVec 32)} {new : Option ℕ} {i : Fin cmapK} {impl : CmapImpl}

/-- The counter has no part in where the hashes are. -/
lemma Represents.withN {n : ℕ} (hplaced : impl.Placed hashFinish)
    (hchain : ∀ h, ∃ l, Chain next (impl.find hashFinish h) l ∧ ∀ x, x ∈ l ↔ (x, h) ∈ P)
    (hunique : ∀ {x h h'}, (x, h) ∈ P → (x, h') ∈ P → h = h') (hn : n = P.card)
    (hbound : P.card < 2 ^ 32) : Represents hashFinish ⟨{ impl with n := n }, next⟩ P :=
  ⟨hplaced, hchain, hunique, hn, hbound⟩

/-- Rehashing does not change what a map represents. -/
lemma Represents.rehashed (h : Represents hashFinish cmap P)
    (hr : Rehashed hashFinish cmap mask cmap') : Represents hashFinish cmap' P := by
  refine ⟨hr.placed, fun g => ?_, h.unique, hr.n.trans h.count, h.bound⟩
  rw [hr.find, hr.next]
  exact h.chain g

/-- Writing to a node that is not in the map does not change what it represents. -/
lemma Represents.update_next (h : Represents hashFinish cmap P) (hx : ∀ g, (x, g) ∉ P)
    (v : Option ℕ) : Represents hashFinish ⟨cmap.impl, update cmap.next x v⟩ P := by
  refine ⟨h.placed, fun g => ?_, h.unique, h.count, h.bound⟩
  obtain ⟨l, hl, hmem⟩ := h.chain g
  exact ⟨l, hl.update_of_not_mem (fun hxl => hx g ((hmem x).1 hxl)) v, hmem⟩

/-! ## Insertion -/

lemma chainEnd_of_next_none (h : next x = none) : chainEnd next fuel x = x := by
  cases fuel <;> simp [chainEnd, h]

/-- A successful `cmap_try_insert()` of a node that is not in the map. -/
lemma Represents.inserted (h : Represents hashFinish cmap P) (hnode : ∀ g, (node, g) ∉ P)
    (hnext : cmap.next node = none) {next' : ℕ → Option ℕ} {impl' : CmapImpl}
    (hroom : cmap.impl.n + 1 < 2 ^ 32)
    (ht : cmap.impl.tryInsert hashFinish fuel cmap.next node hash = some (next', impl')) :
    Represents hashFinish ⟨{ impl' with n := (impl'.n + 1) % 2 ^ 32 }, next'⟩
      (Insert.insert (node, hash) P) := by
  obtain ⟨hins, hnext'⟩ := tryInsert_spec h.placed ht
  -- whether or not the hash was there, the new node links to what a lookup found
  replace hnext' : next' = update cmap.next node (cmap.find hashFinish hash) := by
    rw [hnext', chainEnd_of_next_none hnext]
    unfold Cmap.find
    cases cmap.impl.find hashFinish hash with
    | some y => rfl
    | none => exact (update_eq_self_iff.2 hnext.symm).symm
  have hcard : (Insert.insert (node, hash) P).card = P.card + 1 :=
    Finset.card_insert_of_notMem (hnode hash)
  have hcount := h.count
  refine Represents.withN hins.placed (fun g => ?_) ?_ ?_ (by omega)
  · obtain ⟨l, hl, hmem⟩ := h.chain g
    have hxl : node ∉ l := fun hx => hnode g ((hmem node).1 hx)
    rw [hins.find, hnext']
    by_cases hg : g = hash
    · subst hg
      rw [if_pos rfl]
      exact ⟨node :: l, hl.cons_update hxl, fun x => by simp [hmem x]⟩
    · rw [if_neg hg]
      exact ⟨l, hl.update_of_not_mem hxl _, fun x => by simp [hmem x, hg]⟩
  · intro x g g' hx hx'
    rw [Finset.mem_insert, Prod.mk.injEq] at hx hx'
    rcases hx with ⟨rfl, rfl⟩ | hx <;> rcases hx' with ⟨hxx, rfl⟩ | hx'
    · rfl
    · exact absurd hx' (hnode g')
    · exact absurd (hxx ▸ hx) (hnode g)
    · exact h.unique hx hx'
  · rw [hins.n, Nat.mod_eq_of_lt hroom, hcard, h.count]

/-- The loop of `cmap_insert()`. -/
lemma insertLoop_spec (hnode : ∀ g, (node, g) ∉ P) (h : Represents hashFinish cmap P)
    (hnext : cmap.next node = none) (hroom : cmap.impl.n < calcMaxN cmap.impl.mask)
    (hi : insertLoop hashFinish node hash fuel cmap bases = .ok cmap') :
    Represents hashFinish cmap' (Insert.insert (node, hash) P) := by
  induction fuel generalizing cmap bases with
  | zero => simp [insertLoop] at hi
  | succ fuel ih =>
    have hlt : calcMaxN cmap.impl.mask < 2 ^ 32 := Nat.mod_lt _ (by decide)
    simp only [insertLoop] at hi
    split at hi
    · next next' impl' htry =>
      cases hi
      exact h.inserted hnode hnext (by omega) htry
    · next htry =>
      obtain ⟨⟨cmap1, bases1⟩, hr, hi⟩ := bind_eq_ok.1 hi
      obtain ⟨hre, hlt'⟩ := rehash_spec h.placed hr
      refine ih (h.rehashed hre) (by rw [hre.next, hnext]) ?_ hi
      rw [hre.n, hre.mask]
      exact hlt'

/-- **`cmap_insert()`** of a node that is not in the map. -/
theorem insert_spec (h : Represents hashFinish cmap P) (hnode : ∀ g, (node, g) ∉ P)
    (hi : cmap.insert hashFinish node hash bases = .ok cmap') :
    Represents hashFinish cmap' (Insert.insert (node, hash) P) := by
  have h1 := h.update_next hnode none
  have hnext : update cmap.next node none node = none := update_self ..
  unfold insert at hi
  dsimp only at hi
  split at hi
  · obtain ⟨⟨cmap1, bases1⟩, hr, hi⟩ := bind_eq_ok.1 hi
    obtain ⟨hre, hlt⟩ := rehash_spec h1.placed hr
    refine insertLoop_spec hnode (h1.rehashed hre) (by rw [hre.next]; exact hnext) ?_ hi
    rw [hre.n, hre.mask]
    exact hlt
  · next hroom => exact insertLoop_spec hnode h1 hnext (not_le.1 hroom) hi

/-! ## Replacement and removal -/

/-- The loop of `cmap_replace__()` finds the link in front of the node. -/
lemma relink_spec (target : Option ℕ) {pre post : List ℕ} {p iter : ℕ}
    (h : Chain next (some iter) (pre ++ p :: node :: post)) (hfuel : pre.length < fuel) :
    relink node target next fuel iter = some (update next p target) := by
  have hnd := h.nodup
  induction pre generalizing iter fuel with
  | nil =>
    obtain ⟨rfl, htail⟩ := h
    obtain ⟨fuel, rfl⟩ := Nat.exists_eq_add_of_lt hfuel
    simp [relink, (chain_cons.1 htail).1]
  | cons x pre ih =>
    obtain ⟨rfl, htail⟩ := h
    rw [cons_append, nodup_cons] at hnd
    -- the chain goes on with a node that is not the one looked for
    obtain ⟨q, hq, hne⟩ : ∃ q, next iter = some q ∧ q ≠ node := by
      cases pre with
      | nil => exact ⟨p, (chain_cons.1 htail).1, fun he => by simp [he] at hnd⟩
      | cons y pre => exact ⟨y, (chain_cons.1 htail).1, fun he => by simp [he] at hnd⟩
    cases fuel with
    | zero => simp at hfuel
    | succ fuel =>
      rw [hq] at htail
      simp only [relink, hq, if_neg hne]
      exact ih htail (by simpa using hfuel) hnd.2

/-- The nodes present after `cmap_replace()`. -/
def replaced (P : Finset (ℕ × BitVec 32)) (old : ℕ) (new : Option ℕ) (hash : BitVec 32) :
    Finset (ℕ × BitVec 32) :=
  match new with
  | none => P.erase (old, hash)
  | some r => Insert.insert (r, hash) (P.erase (old, hash))

lemma mem_replaced_iff : (x, g) ∈ replaced P old new hash ↔
      g = hash ∧ x ∈ new.toList ∨ ¬ (x = old ∧ g = hash) ∧ (x, g) ∈ P := by
  cases new with
  | none => simp [replaced]
  | some r => simp [replaced, and_comm]

/-- A replacement that is not in the map, unless it is the node that is replaced. -/
def Fresh (P : Finset (ℕ × BitVec 32)) (old : ℕ) (new : Option ℕ) : Prop :=
  ∀ r ∈ new, r = old ∨ ∀ g, (r, g) ∉ P

/-- A chain is no longer than the map has nodes. -/
lemma Represents.length_le (h : Represents hashFinish cmap P) {l : List ℕ}
    (hl : Chain cmap.next (cmap.find hashFinish g) l) (hmem : ∀ x, x ∈ l ↔ (x, g) ∈ P) :
    l.length ≤ cmap.impl.n := by
  have hnd : (l.map (·, g)).Nodup := hl.nodup.map fun x y hxy => (Prod.mk.inj hxy).1
  rw [h.count, ← length_map, ← toFinset_card_of_nodup hnd]
  refine Finset.card_le_card fun p hp => ?_
  rw [mem_toFinset, mem_map] at hp
  obtain ⟨x, hx, rfl⟩ := hp
  exact (hmem x).1 hx

/-- Setting the link of a live slot: to another node, or to the null pointer. -/
lemma setBucket_live (hp : impl.Placed hashFinish) (hs : impl.buckets b i = ⟨hash, some x⟩)
    (target : Option ℕ) : (impl.setBucket b i target hash).Placed hashFinish ∧
      ∀ g, (impl.setBucket b i target hash).find hashFinish g =
        if g = hash then target else impl.find hashFinish g := by
  have hv : impl.buckets.view b i = some ⟨hash, some x⟩ := congrArg some hs
  have hview : ∀ {b' j}, (impl.buckets b' j).hash = hash →
      impl.buckets.view b' j = some ⟨hash, (impl.buckets b' j).node⟩ := by
    intro b' j hj
    rw [Cuckoo.Table.view, ← hj]
  cases target with
  | some y =>
    exact hp.setBucket y (fun b' i' z hz => Cuckoo.Placed.unique hp (congrArg some hz) hv)
      (.inr (by rw [hs])) (Cuckoo.Placed.candidate hp hv)
      (fun j hj hjh => Cuckoo.Placed.first hp hv j hj _ (hview hjh))
      (fun hb j hjh => Cuckoo.Placed.exclusive hp hv hb j _ (hview hjh))
  | none =>
    have hkill := Cuckoo.Placed.kill hp hv
    rw [← Cuckoo.view_set] at hkill
    exact ⟨hkill, Cuckoo.Placed.lookup_kill hp hs⟩

lemma findSlot_eq_some (h : impl.findSlot b hash = some i) :
    ∃ x, impl.buckets b i = ⟨hash, some x⟩ := by
  rw [findSlot, Fin.find?_eq_some_iff] at h
  simp only [Bool.and_eq_true, decide_eq_true_eq, Option.isSome_iff_exists] at h
  obtain ⟨⟨hhash, x, hx⟩, -⟩ := h
  exact ⟨x, by rw [← hhash, ← hx]⟩

/-- What `cmap_replace__()` does in the bucket that has the hash. -/
structure ReplacedIn (hashFinish : BitVec 32 → BitVec 32 → BitVec 32) (cmap : Cmap)
    (P' : Finset (ℕ × BitVec 32)) (cmap' : Cmap) : Prop where
  placed : cmap'.impl.Placed hashFinish
  n : cmap'.impl.n = cmap.impl.n
  chain : ∀ g, ∃ l, Chain cmap'.next (cmap'.find hashFinish g) l ∧ ∀ x, x ∈ l ↔ (x, g) ∈ P'

section

variable (h : Represents hashFinish cmap P)
include h

/-- Linking a replacement changes nothing that the map represents. -/
lemma Represents.linkReplacement (hfresh : Fresh P old new) :
    Represents hashFinish (cmap.linkReplacement old new) P := by
  cases new with
  | none => exact h
  | some r =>
    rcases hfresh r rfl with rfl | hr
    · rw [Cmap.linkReplacement, update_eq_self]
      exact h
    · exact h.update_next hr _

omit h in
/-- From the replacement on, the chain goes on as it did behind the node. -/
lemma chain_replacementFor {post : List ℕ}
    (h : Chain (cmap.linkReplacement old new).next ((cmap.linkReplacement old new).next old) post) :
    Chain (cmap.linkReplacement old new).next (cmap.replacementFor old new)
      (new.toList ++ post) := by
  cases new with
  | none => exact h
  | some r =>
    refine ⟨rfl, ?_⟩
    have hsame : (cmap.linkReplacement old (some r)).next r =
        (cmap.linkReplacement old (some r)).next old := by
      by_cases hr : old = r
      · rw [hr]
      · simp only [Cmap.linkReplacement, update_self, update_of_ne hr]
    rw [hsame]
    exact h

/-- Redirecting the link in front of a node that is present: the rest of the chain is replaced by
the chain of the target, and the other chains stay. -/
lemma relinkSlot_spec {first : ℕ} (hfirst : cmap.impl.buckets b i = ⟨hash, some first⟩)
    {pre post tail : List ℕ} {target : Option ℕ}
    (hl : Chain cmap.next (cmap.find hashFinish hash) (pre ++ old :: post))
    (hmem : ∀ x, x ∈ pre ++ old :: post ↔ (x, hash) ∈ P) (htarget : Chain cmap.next target tail)
    (hpre : ∀ x ∈ pre, x ∉ tail) : ∃ cmap', cmap.relinkSlot old target hash b i first = .ok cmap' ∧
      cmap'.impl.Placed hashFinish ∧ cmap'.impl.n = cmap.impl.n ∧
      Chain cmap'.next (cmap'.find hashFinish hash) (pre ++ tail) ∧
      ∀ g, g ≠ hash → ∀ l, Chain cmap.next (cmap.find hashFinish g) l →
        (∀ x ∈ l, (x, g) ∈ P) → Chain cmap'.next (cmap'.find hashFinish g) l := by
  have hlen := h.length_le hl hmem
  have hfind : cmap.find hashFinish hash = some first :=
    h.placed.find_eq_some_iff.2 ⟨b, i, hfirst⟩
  have hnd := hl.nodup
  rw [hfind] at hl
  rcases eq_nil_or_concat pre with rfl | ⟨pre, p, rfl⟩
  · -- the node is the first of its chain: the slot is changed
    obtain rfl : first = old := Option.some_inj.1 (chain_cons.1 hl).1
    obtain ⟨hplaced, hset⟩ := setBucket_live h.placed hfirst target
    refine ⟨{ cmap with impl := cmap.impl.setBucket b i target hash }, ?_, hplaced, rfl, ?_,
      fun g hg l hlg _ => ?_⟩
    · rw [relinkSlot, if_pos rfl]
    · rw [Cmap.find, hset, if_pos rfl]
      exact htarget
    · rw [Cmap.find, hset, if_neg hg]
      exact hlg
  · -- otherwise a `next` pointer is
    rw [concat_eq_append] at *
    have hne : first ≠ old := by
      rintro rfl
      cases pre with
      | nil | cons => simp at hl; simp [hl.1] at hnd
    rw [append_assoc] at hl
    have hfuel : pre.length < cmap.impl.n := by
      simp only [length_append, length_cons] at hlen
      omega
    have hrelink := relink_spec target hl hfuel
    refine ⟨{ cmap with next := update cmap.next p target }, ?_, h.placed, rfl, ?_,
      fun g hg l hlg hlP => ?_⟩
    · rw [relinkSlot, if_neg hne, hrelink]
    · change Chain _ (cmap.find hashFinish hash) _
      rw [hfind, append_assoc]
      exact hl.relink htarget hpre
    · refine hlg.update_of_not_mem (fun hp => hg ?_) target
      exact h.unique (hlP p hp) ((hmem p).1 (by simp))

/-- A hash is looked up successfully if and only if it is the hash of a node present. -/
lemma Represents.find_isSome_iff : (∃ y, cmap.find hashFinish g = some y) ↔ ∃ x, (x, g) ∈ P := by
  obtain ⟨l, hl, hmem⟩ := h.chain g
  cases l with
  | nil => simp [chain_nil.1 hl, ← hmem]
  | cons y l =>
    exact ⟨fun _ => ⟨y, (hmem y).1 mem_cons_self⟩, fun _ => ⟨y, (chain_cons.1 hl).1⟩⟩

section

variable (hold : (old, hash) ∈ P) (hfresh : Fresh P old new)
include hold hfresh

/-- **`cmap_replace__()`** in the bucket that has the hash. -/
lemma replaceIn_spec (hslot : cmap.impl.findSlot b hash = some i) :
    ∃ cmap', cmap.replaceIn old new hash b = .ok (some cmap') ∧
      ReplacedIn hashFinish cmap (replaced P old new hash) cmap' := by
  obtain ⟨first, hfirst⟩ := findSlot_eq_some hslot
  have h1 := h.linkReplacement hfresh
  have himpl : (cmap.linkReplacement old new).impl = cmap.impl := by cases new <;> rfl
  obtain ⟨l, hl, hmem⟩ := h1.chain hash
  obtain ⟨pre, post, rfl⟩ := append_of_mem ((hmem old).2 hold)
  have hnd := hl.nodup
  have hpre : ∀ x ∈ pre, x ∉ new.toList ++ post := by
    intro x hx hmem'
    rcases mem_append.1 hmem' with hnew | hpost
    · rcases hfresh x (Option.mem_toList.1 hnew) with rfl | hxP
      · exact (nodup_append.1 hnd).2.2 x hx x mem_cons_self rfl
      · exact hxP hash ((hmem x).1 (mem_append_left _ hx))
    · exact (nodup_append.1 hnd).2.2 x hx x (mem_cons_of_mem _ hpost) rfl
  obtain ⟨cmap', hrel, hplaced, hn, hchain, hother⟩ :=
    relinkSlot_spec h1 (himpl ▸ hfirst) hl hmem (chain_replacementFor hl.suffix) hpre
  refine ⟨cmap', ?_, hplaced, hn.trans (by rw [himpl]), fun g => ?_⟩
  · simp only [replaceIn, hslot, hfirst, hrel]
    rfl
  by_cases hg : g = hash
  · subst hg
    refine ⟨_, hchain, fun x => ?_⟩
    have hx := hmem x
    rw [mem_replaced_iff, ← hx]
    have hxo : x = old → x ∉ pre ∧ x ∉ post := by
      rintro rfl
      simp [nodup_append] at hnd
      exact ⟨fun hx => (hnd.2.2 x hx).1 rfl, hnd.2.1.1⟩
    simp only [mem_append, mem_cons]
    tauto
  · obtain ⟨l, hlg, hlmem⟩ := h1.chain g
    refine ⟨l, hother g hg l hlg fun x hx => (hlmem x).1 hx, fun x => ?_⟩
    rw [hlmem, mem_replaced_iff]
    tauto

omit h in
lemma card_replaced :
    (replaced P old new hash).card = if new.isNone then P.card - 1 else P.card := by
  have hcard := Finset.card_erase_add_one hold
  cases new with
  | none => simp [replaced, Finset.card_erase_of_mem hold]
  | some r =>
    have hr : (r, hash) ∉ P.erase (old, hash) := by
      rcases hfresh r rfl with rfl | hr
      · simp
      · simp [hr]
    simp [replaced, Finset.card_insert_of_notMem hr, hcard]

/-- A node has one hash after a replacement, too. -/
lemma replaced_unique {g' : BitVec 32}
    (hx : (x, g) ∈ replaced P old new hash) (hx' : (x, g') ∈ replaced P old new hash) : g = g' := by
  have hnew : ∀ {f}, x ∈ new.toList → ¬ (x = old ∧ f = hash) → (x, f) ∈ P → False := by
    intro f hxn hne hxP
    rcases hfresh x (Option.mem_toList.1 hxn) with rfl | hxP'
    · exact hne ⟨rfl, h.unique hxP hold⟩
    · exact hxP' f hxP
  rw [mem_replaced_iff] at hx hx'
  rcases hx with ⟨rfl, hxn⟩ | ⟨hne, hxP⟩ <;> rcases hx' with ⟨rfl, hxn'⟩ | ⟨hne', hxP'⟩
  · rfl
  · exact (hnew hxn hne' hxP').elim
  · exact (hnew hxn' hne hxP).elim
  · exact h.unique hxP hxP'

/-- The two calls of `cmap_replace__()`: one of them finds the node. -/
lemma replaceIn_candidates :
    ∃ cmap', ReplacedIn hashFinish cmap (replaced P old new hash) cmap' ∧
      (cmap.replaceIn old new hash (cmap.impl.bucket₁ hashFinish hash) = .ok (some cmap') ∨
        cmap.replaceIn old new hash (cmap.impl.bucket₁ hashFinish hash) = .ok none ∧
          cmap.replaceIn old new hash (cmap.impl.bucket₂ hashFinish hash) = .ok (some cmap')) := by
  cases hslot : cmap.impl.findSlot (cmap.impl.bucket₁ hashFinish hash) hash with
  | some i =>
    obtain ⟨cmap', hrep, hspec⟩ := replaceIn_spec h hold hfresh hslot
    exact ⟨cmap', hspec, .inl hrep⟩
  | none =>
    -- one of the two candidate buckets has the hash of a node that is present
    obtain ⟨y, hy⟩ := h.find_isSome_iff.2 ⟨_, hold⟩
    obtain ⟨b, i, hs⟩ := h.placed.find_eq_some_iff.1 hy
    obtain ⟨j, hi⟩ : ∃ j, cmap.impl.findSlot b hash = some j := by
      refine Option.ne_none_iff_exists'.1 fun hf => ?_
      rw [findSlot] at hf
      simp at hf
      exact absurd (congrArg Cuckoo.Slot.node hs) (by simp [hf i (congrArg Cuckoo.Slot.hash hs)])
    rcases Cuckoo.Placed.candidate h.placed (congrArg some hs) with rfl | rfl
    · simp [hslot] at hi
    · obtain ⟨cmap', hrep, hspec⟩ := replaceIn_spec h hold hfresh hi
      exact ⟨cmap', hspec, .inr ⟨by rw [replaceIn, hslot], hrep⟩⟩

end

/-- A removal is counted. -/
lemma ReplacedIn.removed (hold : (old, hash) ∈ P)
    (hr : ReplacedIn hashFinish cmap (replaced P old none hash) cmap') :
    Represents hashFinish cmap'.decrement (replaced P old none hash) := by
  have hfresh : Fresh P old none := by simp [Fresh]
  have hcard := card_replaced hold hfresh
  rw [if_pos (by simp)] at hcard
  have hpos : 0 < P.card := Finset.card_pos.2 ⟨_, hold⟩
  have hbound := h.bound
  refine Represents.withN hr.placed hr.chain (replaced_unique h hold hfresh) ?_ (by omega)
  rw [hr.n, h.count]
  omega

/-- A replacement is not. -/
lemma ReplacedIn.replaced {r : ℕ} (hold : (old, hash) ∈ P) (hfresh : Fresh P old (some r))
    (hr : ReplacedIn hashFinish cmap (replaced P old (some r) hash) cmap') :
    Represents hashFinish cmap' (Cmap.replaced P old (some r) hash) := by
  have hcard := card_replaced hold hfresh
  rw [if_neg (by simp)] at hcard
  have hbound := h.bound
  exact ⟨hr.placed, hr.chain, replaced_unique h hold hfresh, by rw [hcard, hr.n, h.count], by omega⟩

end

lemma rehash_ne_crash : cmap.rehash hashFinish mask bases ≠ .error .crash := by
  have hloop : ∀ next, rehashLoop hashFinish cmap.impl mask next bases ≠ .error .crash := by
    induction bases with
    | nil => simp [rehashLoop]
    | cons basis bases ih =>
      intro next
      rw [rehashLoop]
      split
      · simp
      · exact ih _
  unfold rehash
  split
  · exact hloop _
  · simp

lemma insertLoop_ne_crash (node : ℕ) (hash : BitVec 32) (fuel : ℕ) (cmap : Cmap)
    (bases : List (BitVec 32)) :
    insertLoop hashFinish node hash fuel cmap bases ≠ .error .crash := by
  induction fuel generalizing cmap bases with
  | zero => simp [insertLoop]
  | succ fuel ih =>
    rw [insertLoop]
    split
    · simp
    · intro hcrash
      rcases bind_eq_error.1 hcrash with hre | ⟨a, -, hloop⟩
      · exact rehash_ne_crash hre
      · exact ih _ _ hloop

lemma insert_ne_crash (hash : BitVec 32) :
    cmap.insert hashFinish node hash bases ≠ .error .crash := by
  unfold insert
  dsimp only
  split
  · intro hcrash
    rcases bind_eq_error.1 hcrash with hre | ⟨a, -, hloop⟩
    · exact rehash_ne_crash hre
    · exact insertLoop_ne_crash _ _ _ _ _ hloop
  · exact insertLoop_ne_crash _ _ _ _ _

lemma shrink_spec (h : Represents hashFinish cmap P) (bases : List (BitVec 32)) :
    cmap.shrink hashFinish bases ≠ .error .crash ∧
      ∀ cmap', cmap.shrink hashFinish bases = .ok cmap' → Represents hashFinish cmap' P := by
  unfold shrink
  split
  · refine ⟨fun hcrash => ?_, fun cmap' hok => ?_⟩
    · rcases bind_eq_error.1 hcrash with hre | ⟨a, -, hret⟩
      · exact rehash_ne_crash hre
      · cases hret
    · obtain ⟨⟨cmap1, bases1⟩, hre, hret⟩ := bind_eq_ok.1 hok
      cases hret
      exact h.rehashed (rehash_spec h.placed hre).1
  · refine ⟨nofun, fun cmap' hok => ?_⟩
    cases hok
    exact h

/-- **`cmap_replace()`** of a node that is in the map; without a replacement, `cmap_remove()`. -/
theorem replace_spec (h : Represents hashFinish cmap P) (hold : (old, hash) ∈ P)
    (hfresh : Fresh P old new) (bases : List (BitVec 32)) :
    cmap.replace hashFinish old new hash bases ≠ .error .crash ∧
      ∀ cmap', cmap.replace hashFinish old new hash bases = .ok cmap' →
        Represents hashFinish cmap' (replaced P old new hash) := by
  obtain ⟨cmap1, hr, hcases⟩ := replaceIn_candidates h hold hfresh
  have heq : cmap.replace hashFinish old new hash bases =
      if new.isNone then cmap1.decrement.shrink hashFinish bases else .ok cmap1 := by
    rcases hcases with h1 | ⟨h1, h2⟩
    · rw [replace, h1]
      rfl
    · rw [replace, h1]
      change (cmap.replaceIn old new hash _ >>= _) = _
      rw [h2]
      rfl
  rw [heq]
  cases new with
  | some r =>
    rw [if_neg (by simp)]
    refine ⟨nofun, fun cmap' hok => ?_⟩
    obtain rfl := Except.ok.inj hok
    exact hr.replaced h hold hfresh
  | none =>
    rw [if_pos (by simp)]
    exact shrink_spec (hr.removed h hold) bases

/-! ## Runs -/

/-- The client's operations. -/
inductive Op where
  | insert (node : ℕ) (hash : BitVec 32)
  /-- Without a replacement, this is `cmap_remove()`. -/
  | replace (old : ℕ) (new : Option ℕ) (hash : BitVec 32)

/-- What the client has to see to. -/
def Op.Valid (P : Finset (ℕ × BitVec 32)) : Op → Prop
  | .insert node _ => ∀ g, (node, g) ∉ P
  | .replace old new hash => (old, hash) ∈ P ∧ Fresh P old new

/-- The effect of an operation on the nodes present. -/
def Op.apply (P : Finset (ℕ × BitVec 32)) : Op → Finset (ℕ × BitVec 32)
  | .insert node hash => Insert.insert (node, hash) P
  | .replace old new hash => replaced P old new hash

/-- An operation on the map, with the bases that rehashing may draw. -/
def step (hashFinish : BitVec 32 → BitVec 32 → BitVec 32) (cmap : Cmap) (op : Op)
    (bases : List (BitVec 32)) : Except CmapFailure Cmap :=
  match op with
  | .insert node hash => cmap.insert hashFinish node hash bases
  | .replace old new hash => cmap.replace hashFinish old new hash bases

/-- The states of the runs from `cmap_init()`, each with the nodes present. -/
inductive Reachable (hashFinish : BitVec 32 → BitVec 32 → BitVec 32) :
    Cmap → Finset (ℕ × BitVec 32) → Prop
  | init (basis : BitVec 32) (next : ℕ → Option ℕ) : Reachable hashFinish (init basis next) ∅
  | step {cmap cmap' P op bases} (h : Reachable hashFinish cmap P) (hop : op.Valid P)
      (hok : cmap.step hashFinish op bases = .ok cmap') : Reachable hashFinish cmap' (op.apply P)

/-- **Every operation keeps the representation**, and none crashes. -/
theorem step_spec (h : Represents hashFinish cmap P) {op : Op} (hop : op.Valid P)
    (bases : List (BitVec 32)) :
    cmap.step hashFinish op bases ≠ .error .crash ∧
      ∀ cmap', cmap.step hashFinish op bases = .ok cmap' →
        Represents hashFinish cmap' (op.apply P) := by
  cases op with
  | insert node hash => exact ⟨insert_ne_crash _, fun cmap' hok => insert_spec h hop hok⟩
  | replace old new hash => exact replace_spec h hop.1 hop.2 bases

theorem Reachable.represents (h : Reachable hashFinish cmap P) :
    Represents hashFinish cmap P := by
  induction h with
  | init basis next =>
    refine ⟨placed_create _ _ _, fun g => ⟨[], ?_, by simp⟩, by simp, rfl, by simp⟩
    rw [Cmap.find, Cmap.init, find_create]
    exact chain_nil.2 rfl
  | step _ hop hok ih => exact (step_spec ih hop _).2 _ hok

/-- The slot `p` stores a chain for the hash `h`. -/
def Occupies (cmap : Cmap) (h : BitVec 32) (p : BitVec 32 × Fin cmapK) : Prop :=
  (cmap.impl.buckets p.1 p.2).hash = h ∧ (cmap.impl.buckets p.1 p.2).node.isSome

lemma occupies_iff {p : BitVec 32 × Fin cmapK} :
    cmap.Occupies g p ↔ ∃ x, cmap.impl.buckets p.1 p.2 = ⟨g, some x⟩ := by
  rw [Occupies, Option.isSome_iff_exists]
  constructor
  · rintro ⟨hhash, x, hx⟩
    exact ⟨x, by rw [← hhash, ← hx]⟩
  · rintro ⟨x, hx⟩
    exact ⟨congrArg Cuckoo.Slot.hash hx, x, congrArg Cuckoo.Slot.node hx⟩

/-- **A cmap refines a multimap.**  In every state of every run: following `cmap_find()` along
`next` visits exactly the nodes present with the hash, each once; `cmap_count()` is the number
of nodes present; every hash of a node present occupies one slot, a slot is occupied only in
one of the two candidate buckets of its hash; and no further operation crashes. -/
theorem cmap_refines_multimap (h : Reachable hashFinish cmap P) :
    (∀ hash, ∃ l, Chain cmap.next (cmap.find hashFinish hash) l ∧ l.Nodup ∧
        ∀ x, x ∈ l ↔ (x, hash) ∈ P) ∧
      cmap.count = P.card ∧
      (∀ hash, (∃ x, (x, hash) ∈ P) → ∃! p, cmap.Occupies hash p) ∧
      (∀ hash p, cmap.Occupies hash p → (∃ x, (x, hash) ∈ P) ∧
        (p.1 = cmap.impl.bucket₁ hashFinish hash ∨ p.1 = cmap.impl.bucket₂ hashFinish hash)) ∧
      ∀ op bases, op.Valid P → cmap.step hashFinish op bases ≠ .error .crash := by
  have hrep := h.represents
  refine ⟨fun hash => ?_, hrep.count, fun hash hx => ?_, fun hash p hp => ?_,
    fun op bases hop => (step_spec hrep hop bases).1⟩
  · obtain ⟨l, hl, hmem⟩ := hrep.chain hash
    exact ⟨l, hl, hl.nodup, hmem⟩
  · obtain ⟨y, hy⟩ := hrep.find_isSome_iff.2 hx
    obtain ⟨b, i, hs⟩ := hrep.placed.find_eq_some_iff.1 hy
    refine ⟨(b, i), occupies_iff.2 ⟨y, hs⟩, fun p hp => ?_⟩
    obtain ⟨z, hz⟩ := occupies_iff.1 hp
    obtain ⟨hb, hi⟩ := Cuckoo.Placed.unique hrep.placed (congrArg some hz) (congrArg some hs)
    exact Prod.ext hb hi
  · obtain ⟨x, hx⟩ := occupies_iff.1 hp
    exact ⟨hrep.find_isSome_iff.1 ⟨x, hrep.placed.find_eq_some_iff.2 ⟨p.1, p.2, hx⟩⟩,
      Cuckoo.Placed.candidate hrep.placed (congrArg some hx)⟩

/-! ### A crowded map -/

/-- A run of operations, each of which may draw the basis 0 for rehashing. -/
def run (hashFinish : BitVec 32 → BitVec 32 → BitVec 32) (cmap : Cmap) (ops : List Op) :
    Except CmapFailure Cmap :=
  ops.foldlM (fun cmap op => cmap.step hashFinish op [0]) cmap

/-- The client sees to all operations of a run. -/
def Op.ValidAll : Finset (ℕ × BitVec 32) → List Op → Prop
  | _, [] => True
  | P, op :: ops => op.Valid P ∧ ValidAll (op.apply P) ops

lemma Reachable.run {ops : List Op} (h : Reachable hashFinish cmap P) (hops : Op.ValidAll P ops)
    (hok : cmap.run hashFinish ops = .ok cmap') :
    Reachable hashFinish cmap' (ops.foldl Op.apply P) := by
  induction ops generalizing cmap P with
  | nil =>
    cases hok
    exact h
  | cons op ops ih =>
    rw [Cmap.run, foldlM_cons, bind_eq_ok] at hok
    obtain ⟨cmap1, hstep, hok⟩ := hok
    exact ih (h.step hops.1 hstep) hops.2 hok

/-- Five hashes whose first candidate is bucket 0 of two, and one more, for which there is no room
left in its first candidate.  On the way the map is rehashed twice. -/
def crowdedOps : List Op :=
  [.insert 1 2, .insert 2 6, .insert 3 7, .insert 4 10, .insert 5 11, .insert 6 13]

lemma of_run {ops : List Op} {p : Cmap → Bool}
    (h : (run OVS.hashFinish (init 0 fun _ => none) ops).toOption.any p = true) :
    ∃ cmap, run OVS.hashFinish (init 0 fun _ => none) ops = .ok cmap ∧ p cmap = true := by
  cases hok : run OVS.hashFinish (init 0 fun _ => none) ops with
  | error e =>
    rw [hok] at h
    cases h
  | ok cmap =>
    rw [hok] at h
    exact ⟨cmap, rfl, h⟩

/-- In the crowded map a second node gets the hash 13, and the node with the hash 6 is removed. -/
theorem cmap_refines_multimap_crowded :
    ∃ cmap, run OVS.hashFinish (init 0 fun _ => none)
        (crowdedOps ++ [.insert 7 13, .replace 2 none 6]) = .ok cmap ∧
      cmap.impl.mask = 1 ∧ cmap.count = 6 ∧ (∃! p, cmap.Occupies 13 p) ∧
      ∃ l, Chain cmap.next (cmap.find OVS.hashFinish 13) l ∧ l.Nodup ∧
        ∀ x, x ∈ l ↔ x = 7 ∨ x = 6 := by
  obtain ⟨cmap, hok, hmask⟩ : ∃ cmap, run OVS.hashFinish (init 0 fun _ => none)
      (crowdedOps ++ [.insert 7 13, .replace 2 none 6]) = .ok cmap ∧
        decide (cmap.impl.mask = 1) = true :=
    of_run (by decide +kernel)
  have hreach := Reachable.run (.init 0 fun _ => none)
    (by simp [crowdedOps, Op.ValidAll, Op.Valid, Op.apply, Fresh]) hok
  obtain ⟨hchain, hcount, hslot, -⟩ := cmap_refines_multimap hreach
  refine ⟨cmap, hok, of_decide_eq_true hmask, hcount.trans (by decide), hslot 13 ⟨7, by decide⟩, ?_⟩
  obtain ⟨l, hl, hnodup, hmem⟩ := hchain 13
  refine ⟨l, hl, hnodup, fun x => (hmem x).trans ?_⟩
  simp [crowdedOps, Op.apply, replaced]

/-! ## The lookup of the writer -/

/-- **`cmap_find_protected()` finds what `cmap_find()` finds** if and only if the chain is not in
its second candidate bucket, or that is its first one too, or the client's hash leads there. -/
theorem find_protected_eq_find_iff (h : Reachable hashFinish cmap P) {hash : BitVec 32} :
    cmap.findProtected hashFinish hash = cmap.find hashFinish hash ↔
      ∀ i x, cmap.impl.buckets (cmap.impl.bucket₂ hashFinish hash) i = ⟨hash, some x⟩ →
        cmap.impl.bucket₂ hashFinish hash = cmap.impl.bucket₁ hashFinish hash ∨
          otherHash hash &&& cmap.impl.mask = cmap.impl.bucket₂ hashFinish hash := by
  have hplaced := h.represents.placed
  have hfirst : cmap.impl.findBucketProtected hash (cmap.impl.rehash hashFinish hash) =
      Cuckoo.findInBucket (cmap.impl.buckets (cmap.impl.bucket₁ hashFinish hash)) hash := rfl
  constructor
  · intro heq i x hi
    rw [Cmap.find, hplaced.find_eq_some_iff.2 ⟨_, i, hi⟩, Cmap.findProtected,
      CmapImpl.findProtected, hfirst] at heq
    -- the chain is in one bucket only, so that it was found in the second candidate
    have hbucket : ∀ b y, Cuckoo.findInBucket (cmap.impl.buckets b) hash = some y →
        b = cmap.impl.bucket₂ hashFinish hash := by
      intro b y hy
      obtain ⟨j, hj⟩ := Cuckoo.exists_of_findInBucket hy
      exact (Cuckoo.Placed.unique hplaced (congrArg some hj) (congrArg some hi)).1
    split at heq
    · next y hone => exact .inl (hbucket _ _ hone).symm
    · exact .inr (hbucket _ _ heq)
  · intro hplace
    rw [Cmap.findProtected, CmapImpl.findProtected, hfirst, Cmap.find, CmapImpl.find, Cuckoo.lookup]
    cases hone : Cuckoo.findInBucket (cmap.impl.buckets (cmap.impl.bucket₁ hashFinish hash))
      hash with
    | some x => rfl
    | none =>
      -- what either function finds behind the first bucket is in the second candidate
      have hsecond : ∀ b x, Cuckoo.findInBucket (cmap.impl.buckets b) hash = some x →
          b = cmap.impl.bucket₂ hashFinish hash ∧
            otherHash hash &&& cmap.impl.mask = cmap.impl.bucket₂ hashFinish hash := by
        intro b x hx
        obtain ⟨i, hi⟩ := Cuckoo.exists_of_findInBucket hx
        have hne : b ≠ cmap.impl.bucket₁ hashFinish hash := by
          rintro rfl
          rw [hone] at hx
          cases hx
        obtain rfl := (Cuckoo.Placed.candidate hplaced (congrArg some hi)).resolve_left hne
        exact ⟨rfl, (hplace i x hi).resolve_left hne⟩
      refine Option.ext fun x => ⟨fun hx => ?_, fun hx => ?_⟩
      · rwa [← (hsecond _ x hx).1]
      · rwa [← (hsecond _ x hx).2] at hx

lemma reachable_crowded
    (hok : run OVS.hashFinish (init 0 fun _ => none) crowdedOps = .ok cmap) :
    Reachable OVS.hashFinish cmap (crowdedOps.foldl Op.apply ∅) :=
  Reachable.run (.init 0 fun _ => none) (by simp [crowdedOps, Op.ValidAll, Op.Valid, Op.apply]) hok

/-- A chain in its first candidate bucket is found. -/
theorem find_protected_eq_find_iff_crowded :
    ∃ cmap, run OVS.hashFinish (init 0 fun _ => none) crowdedOps = .ok cmap ∧
      cmap.findProtected OVS.hashFinish 6 = cmap.find OVS.hashFinish 6 := by
  obtain ⟨cmap, hok, hp⟩ : ∃ cmap, run OVS.hashFinish (init 0 fun _ => none) crowdedOps = .ok cmap ∧
      decide (∀ i, (cmap.impl.buckets (cmap.impl.bucket₂ OVS.hashFinish 6) i).hash ≠ 6) = true :=
    of_run (by decide +kernel)
  refine ⟨cmap, hok, (find_protected_eq_find_iff (reachable_crowded hok)).2 fun i x hs => ?_⟩
  exact absurd (congrArg Cuckoo.Slot.hash hs) (of_decide_eq_true hp i)

/-- **A chain in its second candidate bucket is missed.** -/
theorem find_protected_misses :
    ∃ cmap P, Reachable OVS.hashFinish cmap P ∧ cmap.find OVS.hashFinish 13 = some 6 ∧
      cmap.findProtected OVS.hashFinish 13 = none := by
  obtain ⟨cmap, hok, hp⟩ : ∃ cmap, run OVS.hashFinish (init 0 fun _ => none) crowdedOps = .ok cmap ∧
      decide (cmap.find OVS.hashFinish 13 = some 6 ∧
        cmap.findProtected OVS.hashFinish 13 = none) = true :=
    of_run (by decide +kernel)
  exact ⟨cmap, _, reachable_crowded hok, of_decide_eq_true hp⟩

end Cmap

end OVS
