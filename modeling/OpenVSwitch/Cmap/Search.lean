import OpenVSwitch.Cmap.Model

/-!
# The search for room visits no bucket twice

`cmap_insert_bfs()` moves nodes back along the path it finds.  That is sound only if no bucket
occurs twice on the path.  The source argues that a breadth-first search finds a shortest path;
but the search keeps no record of the buckets it has seen, and it is cut off by `MAX_DEPTH` and
`MAX_QUEUE`, so the queue does hold paths with loops.

What holds is this: a queued path with a loop has an earlier path in the queue with the same end
(`Good`).  By the time the later one is explored, the earlier one has been, and found no empty
slot in any neighbour of that end.  So a path on which the search succeeds has no loop:
`findRoom_movable`.
-/

namespace OVS

namespace CmapImpl

open List

variable (hashFinish : BitVec 32 → BitVec 32 → BitVec 32) (impl : CmapImpl)

/-! ## Paths -/

/-- No slot of the bucket is empty. -/
def Full (b : BitVec 32) : Prop := ∀ i, (impl.buckets b i).node.isSome

variable {b : BitVec 32} {i : Fin cmapK} {slots : List (Fin cmapK)}

lemma findEmptySlot_eq_none_iff : impl.findEmptySlot b = none ↔ impl.Full b := by
  simp [findEmptySlot, Full]

lemma findEmptySlot_eq_some (h : impl.findEmptySlot b = some i) :
    (impl.buckets b i).node = none ∧ ∀ j < i, (impl.buckets b j).node.isSome := by
  simpa [findEmptySlot] using h

/-- The buckets along a sequence of slots. -/
def trail (b : BitVec 32) : List (Fin cmapK) → List (BitVec 32)
  | [] => [b]
  | slot :: slots => b :: trail (impl.otherBucket hashFinish b slot) slots

/-- The bucket at the end of a sequence of slots. -/
def follow (b : BitVec 32) : List (Fin cmapK) → BitVec 32
  | [] => b
  | slot :: slots => follow (impl.otherBucket hashFinish b slot) slots

lemma follow_append (b : BitVec 32) (slots : List (Fin cmapK)) (i : Fin cmapK) :
    impl.follow hashFinish b (slots ++ [i]) =
      impl.otherBucket hashFinish (impl.follow hashFinish b slots) i := by
  induction slots generalizing b with
  | nil => rfl
  | cons s slots ih => exact ih _

lemma trail_append : impl.trail hashFinish b (slots ++ [i]) = impl.trail hashFinish b slots ++
      [impl.otherBucket hashFinish (impl.follow hashFinish b slots) i] := by
  induction slots generalizing b with
  | nil => rfl
  | cons s slots ih => simp [trail, follow, ih]

/-- The buckets of the positions along a sequence of slots are its trail without the end. -/
lemma positions_map_fst (j : Fin cmapK) :
    (impl.positions hashFinish b (slots ++ [j])).map Prod.fst = impl.trail hashFinish b slots := by
  induction slots generalizing b with
  | nil => rfl
  | cons s slots ih => simp [positions, trail, ih]

namespace Path

/-- The buckets along a path. -/
def trail (p : Path) : List (BitVec 32) := impl.trail hashFinish p.start p.slots

end Path

/-! ## The invariant of the search -/

/-- A path through full buckets from one of the two candidates to its end. -/
structure Valid (b₁ b₂ : BitVec 32) (p : Path) : Prop where
  start : p.start = b₁ ∨ p.start = b₂
  follow : impl.follow hashFinish p.start p.slots = p.fin
  full : ∀ b ∈ p.trail hashFinish impl, impl.Full b

/-- What holds of a queued path with respect to those queued before it: every bucket on it is the
end of a queued path, and if it has a loop, its end is the end of an earlier one. -/
structure Good (pre : List Path) (p : Path) : Prop where
  trail : ∀ b ∈ p.trail hashFinish impl, ∃ q ∈ pre ++ [p], q.fin = b
  loop : ¬ (p.trail hashFinish impl).Nodup → ∃ q ∈ pre, q.fin = p.fin

/-- Every path of a queue is `Good` with respect to those before it. -/
def AllGood : List Path → List Path → Prop
  | _, [] => True
  | pre, p :: rest => Good hashFinish impl pre p ∧ AllGood (pre ++ [p]) rest

variable {hashFinish impl} {p : Path}

lemma AllGood.append {pre l : List Path} {c : Path} (h : AllGood hashFinish impl pre l)
    (hc : Good hashFinish impl (pre ++ l) c) : AllGood hashFinish impl pre (l ++ [c]) := by
  induction l generalizing pre with
  | nil => exact ⟨by simpa using hc, trivial⟩
  | cons p l ih => exact ⟨h.1, ih h.2 (by simpa using hc)⟩

lemma AllGood.get {pre l post : List Path} (h : AllGood hashFinish impl pre (l ++ p :: post)) :
    Good hashFinish impl (pre ++ l) p := by
  induction l generalizing pre with
  | nil => simpa using h.1
  | cons q l ih => simpa using ih h.2

/-- What is known about slot `i` at the end of a path once it has been looked at. -/
def Scanned (hashFinish : BitVec 32 → BitVec 32 → BitVec 32) (impl : CmapImpl) (queue : List Path)
    (head : ℕ) (p : Path) (i : Fin cmapK) : Prop :=
  p.fin ≠ impl.otherBucket hashFinish p.fin i →
    impl.Full (impl.otherBucket hashFinish p.fin i) ∧
      (maxDepth ≤ p.slots.length ∨ maxQueue ≤ head ∨
        ∃ q ∈ queue, q.fin = impl.otherBucket hashFinish p.fin i)

lemma Scanned.mono {queue queue' : List Path} {head head' : ℕ}
    (h : Scanned hashFinish impl queue head p i) (hq : queue ⊆ queue') (hh : head ≤ head') :
    Scanned hashFinish impl queue' head' p i := by
  intro hne
  obtain ⟨hfull, hlim⟩ := h hne
  refine ⟨hfull, ?_⟩
  rcases hlim with hd | hm | ⟨q, hmem, hq'⟩
  · exact .inl hd
  · exact .inr (.inl (hm.trans hh))
  · exact .inr (.inr ⟨q, hq hmem, hq'⟩)

/-- **The invariant.**  `done` have been explored, `p` is being explored, `pending` are still to
be explored. -/
structure SearchInv (hashFinish : BitVec 32 → BitVec 32 → BitVec 32) (impl : CmapImpl)
    (b₁ b₂ : BitVec 32) (done : List Path) (p : Path) (pending : List Path) (head : ℕ) : Prop where
  valid : ∀ q ∈ done ++ p :: pending, Valid hashFinish impl b₁ b₂ q
  good : AllGood hashFinish impl [] (done ++ p :: pending)
  sorted : (done ++ p :: pending).Pairwise fun q r => q.slots.length ≤ r.slots.length
  bound : ∀ q ∈ pending, q.slots.length ≤ p.slots.length + 1
  scanned : ∀ q ∈ done, ∀ i, Scanned hashFinish impl (done ++ p :: pending) head q i

namespace SearchInv

variable {b₁ b₂ : BitVec 32} {done pending : List Path} {p : Path} {head : ℕ}

section

variable (h : SearchInv hashFinish impl b₁ b₂ done p pending head)
include h

/-- A path with a loop shares its end with one that has been explored. -/
lemma exists_done_of_loop (hloop : ¬ (p.trail hashFinish impl).Nodup) :
    ∃ q ∈ done, q.fin = p.fin := by
  simpa using h.good.get.loop hloop

lemma length_le_of_done {q : Path} (hq : q ∈ done) : q.slots.length ≤ p.slots.length :=
  (pairwise_append.1 h.sorted).2.2 q hq p (by simp)

/-- **The path being explored has no loop if the search succeeds from it.** -/
lemma nodup_of_room (hne : p.fin ≠ impl.otherBucket hashFinish p.fin i)
    (hroom : ¬ impl.Full (impl.otherBucket hashFinish p.fin i)) :
    (p.trail hashFinish impl).Nodup := by
  by_contra hloop
  obtain ⟨q, hq, hfin⟩ := h.exists_done_of_loop hloop
  have hscanned := h.scanned q hq i
  rw [Scanned, hfin] at hscanned
  exact hroom (hscanned hne).1

/-- Queueing the path one hop further keeps the invariant. -/
lemma extend (hne : p.fin ≠ impl.otherBucket hashFinish p.fin i)
    (hfull : impl.Full (impl.otherBucket hashFinish p.fin i)) (hdepth : p.slots.length < maxDepth)
    (hqueue : head < maxQueue) : SearchInv hashFinish impl b₁ b₂ done p
      (pending ++ [⟨p.start, impl.otherBucket hashFinish p.fin i, p.slots ++ [i]⟩]) (head + 1) := by
  set c : Path := ⟨p.start, impl.otherBucket hashFinish p.fin i, p.slots ++ [i]⟩ with hc
  have hp : Valid hashFinish impl b₁ b₂ p := h.valid p (by simp)
  have htrail : c.trail hashFinish impl =
      p.trail hashFinish impl ++ [impl.otherBucket hashFinish p.fin i] := by
    rw [Path.trail, hc, trail_append, hp.follow]
    rfl
  have hsub : done ++ p :: pending ⊆ done ++ p :: (pending ++ [c]) := by
    rw [← cons_append, ← append_assoc]
    exact subset_append_left _ _
  have hall : ∀ q ∈ done ++ p :: pending, q.slots.length ≤ p.slots.length + 1 := by
    intro q hq
    rcases mem_append.1 hq with hq | hq
    · exact (h.length_le_of_done hq).trans (Nat.le_succ _)
    · rcases mem_cons.1 hq with rfl | hq
      · exact Nat.le_succ _
      · exact h.bound q hq
  have hgood : Good hashFinish impl ([] ++ (done ++ p :: pending)) c := by
    have hgp : Good hashFinish impl ([] ++ done) p := h.good.get
    refine ⟨fun b hb => ?_, fun hloop => ?_⟩
    · rw [htrail, mem_append, mem_singleton] at hb
      rcases hb with hb | rfl
      · obtain ⟨q, hq, hfin⟩ := hgp.trail b hb
        exact ⟨q, by simp at hq ⊢; tauto, hfin⟩
      · exact ⟨c, by simp, rfl⟩
    · -- the loop is on `p` already, or the last hop closes it
      by_cases hnd : (p.trail hashFinish impl).Nodup
      · rw [htrail, nodup_append] at hloop
        have hmem : impl.otherBucket hashFinish p.fin i ∈ p.trail hashFinish impl := by
          by_contra hmem
          refine hloop ⟨hnd, nodup_singleton _, fun x hx y hy => ?_⟩
          rw [mem_singleton.1 hy]
          exact ne_of_mem_of_not_mem hx hmem
        obtain ⟨q, hq, hfin⟩ := hgp.trail _ hmem
        exact ⟨q, by simp at hq ⊢; tauto, hfin⟩
      · obtain ⟨q, hq, hfin⟩ := h.exists_done_of_loop hnd
        have hscanned := h.scanned q hq i
        rw [Scanned, hfin] at hscanned
        rcases (hscanned hne).2 with hd | hm | hex
        · exact absurd (h.length_le_of_done hq) (by omega)
        · omega
        · simpa using hex
  refine ⟨fun q hq => ?_, ?_, ?_, fun q hq => ?_,
    fun q hq k => (h.scanned q hq k).mono hsub (by omega)⟩
  · rw [← cons_append, ← append_assoc, mem_append, mem_singleton] at hq
    rcases hq with hq | rfl
    · exact h.valid q hq
    · refine ⟨hp.start, by rw [follow_append, hp.follow], fun b hb => ?_⟩
      rw [htrail, mem_append, mem_singleton] at hb
      rcases hb with hb | rfl
      · exact hp.full b hb
      · exact hfull
  · rw [← cons_append, ← append_assoc]
    exact h.good.append hgood
  · rw [← cons_append, ← append_assoc, pairwise_append]
    refine ⟨h.sorted, pairwise_singleton _ _, fun q hq r hr => ?_⟩
    rw [mem_singleton.1 hr, hc]
    simpa using hall q hq
  · rw [mem_append, mem_singleton] at hq
    rcases hq with hq | rfl
    · exact h.bound q hq
    · simp [hc]

end

/-- When every slot has been looked at, the next path is taken off the queue. -/
lemma advance {p' : Path} (h : SearchInv hashFinish impl b₁ b₂ done p (p' :: pending) head)
    (hscanned : ∀ i, Scanned hashFinish impl (done ++ p :: p' :: pending) head p i) :
    SearchInv hashFinish impl b₁ b₂ (done ++ [p]) p' pending head := by
  have hq : done ++ [p] ++ p' :: pending = done ++ p :: p' :: pending := by simp
  refine ⟨hq ▸ h.valid, hq ▸ h.good, hq ▸ h.sorted, fun q hmem => ?_, fun q hmem i => ?_⟩
  · have hle := h.bound q (by simp [hmem])
    have hsorted := (pairwise_append.1 h.sorted).2.1
    have hpp' : p.slots.length ≤ p'.slots.length :=
      (pairwise_cons.1 hsorted).1 p' (by simp)
    omega
  · rw [hq]
    rcases mem_append.1 hmem with hmem | hmem
    · exact h.scanned q hmem i
    · rw [mem_singleton.1 hmem]
      exact hscanned i

end SearchInv

/-! ## What a successful search returns -/

/-- A path without a loop, through full buckets, to a neighbour with an empty slot. -/
structure Found (hashFinish : BitVec 32 → BitVec 32 → BitVec 32) (impl : CmapImpl)
    (b₁ b₂ : BitVec 32) (room : Room) : Prop where
  valid : Valid hashFinish impl b₁ b₂ room.path
  nodup : (room.path.trail hashFinish impl).Nodup
  empty : impl.findEmptySlot (impl.otherBucket hashFinish room.path.fin room.hop) = some room.empty

variable {b₁ b₂ : BitVec 32} {room : Room} {pending : List Path}

/-- The inner loop succeeds as it should, or keeps the invariant and has looked at every slot. -/
lemma scanSlots_spec {done : List Path} (is : List (Fin cmapK)) {head : ℕ}
    (h : SearchInv hashFinish impl b₁ b₂ done p pending head) (seen : Fin cmapK → Prop)
    (hseen : ∀ i, seen i → Scanned hashFinish impl (done ++ p :: pending) head p i) :
    (∀ room, scanSlots hashFinish impl p is pending head = .inl room →
        Found hashFinish impl b₁ b₂ room) ∧
      ∀ pending' head', scanSlots hashFinish impl p is pending head = .inr (pending', head') →
        SearchInv hashFinish impl b₁ b₂ done p pending' head' ∧
          ∀ i, seen i ∨ i ∈ is →
            Scanned hashFinish impl (done ++ p :: pending') head' p i := by
  induction is generalizing pending head seen with
  | nil =>
    refine ⟨by simp [scanSlots], fun pending' head' he => ?_⟩
    obtain ⟨rfl, rfl⟩ := he
    exact ⟨h, by simpa using hseen⟩
  | cons i is ih =>
    -- whatever is done about slot `i`, the rest of the loop goes on with `i` seen
    have continue_ : ∀ pending1 head1, SearchInv hashFinish impl b₁ b₂ done p pending1 head1 →
        done ++ p :: pending ⊆ done ++ p :: pending1 → head ≤ head1 →
        Scanned hashFinish impl (done ++ p :: pending1) head1 p i →
        (∀ room, scanSlots hashFinish impl p is pending1 head1 = .inl room →
          Found hashFinish impl b₁ b₂ room) ∧
        ∀ pending' head', scanSlots hashFinish impl p is pending1 head1 = .inr (pending', head') →
          SearchInv hashFinish impl b₁ b₂ done p pending' head' ∧ ∀ k, seen k ∨ k ∈ i :: is →
            Scanned hashFinish impl (done ++ p :: pending') head' p k := by
      intro pending1 head1 h1 hsub hle hi
      obtain ⟨hroom, hrest⟩ := ih h1 (fun k => seen k ∨ k = i) fun k hk => by
        rcases hk with hk | rfl
        · exact (hseen k hk).mono hsub hle
        · exact hi
      refine ⟨hroom, fun pending' head' he => ?_⟩
      obtain ⟨h', hs'⟩ := hrest pending' head' he
      exact ⟨h', fun k hk => hs' k (by simpa [or_assoc] using hk)⟩
    simp only [scanSlots]
    by_cases hne : p.fin = impl.otherBucket hashFinish p.fin i
    · rw [if_pos hne]
      exact continue_ pending head h (List.Subset.refl _) le_rfl fun hne' => absurd hne hne'
    · rw [if_neg hne]
      cases hempty : impl.findEmptySlot (impl.otherBucket hashFinish p.fin i) with
      | some j =>
        refine ⟨fun room hr => ?_, by simp⟩
        simp only [Sum.inl.injEq] at hr
        subst hr
        refine ⟨h.valid p (by simp), h.nodup_of_room hne fun hfull => ?_, hempty⟩
        rw [impl.findEmptySlot_eq_none_iff.2 hfull] at hempty
        simp at hempty
      | none =>
        have hfull := impl.findEmptySlot_eq_none_iff.1 hempty
        dsimp only
        split
        · next hlim =>
          refine continue_ _ _ (h.extend hne hfull hlim.1 hlim.2) ?_ (Nat.le_succ _) fun _ =>
            ⟨hfull, .inr (.inr ⟨⟨p.start, impl.otherBucket hashFinish p.fin i, p.slots ++ [i]⟩,
              by simp, rfl⟩)⟩
          rw [← cons_append, ← append_assoc]
          exact subset_append_left _ _
        · next hlim =>
          refine continue_ pending head h (List.Subset.refl _) le_rfl fun _ => ⟨hfull, ?_⟩
          rw [not_and_or, not_lt, not_lt] at hlim
          exact hlim.elim .inl fun hq => .inr (.inl hq)

/-- The outer loop only returns paths that are as they should be. -/
lemma bfsLoop_spec (fuel : ℕ) (done : List Path) {head : ℕ}
    (h : ∀ p rest, pending = p :: rest → SearchInv hashFinish impl b₁ b₂ done p rest head)
    (hr : bfsLoop hashFinish impl fuel pending head = some room) :
    Found hashFinish impl b₁ b₂ room := by
  induction fuel generalizing done pending head with
  | zero => simp [bfsLoop] at hr
  | succ fuel ih =>
    cases pending with
    | nil => simp [bfsLoop] at hr
    | cons p rest =>
      obtain ⟨hfound, hrest⟩ := scanSlots_spec (finRange cmapK) (h p rest rfl)
        (fun _ => False) (by simp)
      simp only [bfsLoop] at hr
      split at hr
      · next room' hscan =>
        cases hr
        exact hfound _ hscan
      · next queue head' hscan =>
        obtain ⟨h', hs'⟩ := hrest _ _ hscan
        refine ih (done ++ [p]) (fun p' rest' hq => ?_) hr
        subst hq
        exact h'.advance fun i => hs' i (.inr (mem_finRange i))

lemma good_start (pre : List Path) (b : BitVec 32) : Good hashFinish impl pre ⟨b, b, []⟩ :=
  ⟨fun b' hb => ⟨⟨b, b, []⟩, by simp, (mem_singleton.1 hb).symm⟩,
    fun hloop => absurd (nodup_singleton b) hloop⟩

lemma valid_start (hashFinish : BitVec 32 → BitVec 32 → BitVec 32) (hb : b = b₁ ∨ b = b₂)
    (hfull : impl.Full b) : Valid hashFinish impl b₁ b₂ ⟨b, b, []⟩ :=
  ⟨hb, rfl, by simpa [Path.trail, trail] using hfull⟩

/-- **A search from two full buckets returns a path without a loop.** -/
lemma findRoom_spec (h1 : impl.Full b₁) (h2 : impl.Full b₂)
    (hr : findRoom hashFinish impl b₁ b₂ = some room) : Found hashFinish impl b₁ b₂ room := by
  have hv1 : Valid hashFinish impl b₁ b₂ ⟨b₁, b₁, []⟩ := valid_start hashFinish (.inl rfl) h1
  have hv2 : Valid hashFinish impl b₁ b₂ ⟨b₂, b₂, []⟩ := valid_start hashFinish (.inr rfl) h2
  unfold findRoom at hr
  split at hr
  · refine bfsLoop_spec maxQueue [] (fun p rest hq => ?_) hr
    cases hq
    exact ⟨by simpa using ⟨hv1, hv2⟩, ⟨good_start [] b₁, good_start _ b₂, trivial⟩,
      by simp, by simp, by simp⟩
  · refine bfsLoop_spec maxQueue [] (fun p rest hq => ?_) hr
    cases hq
    exact ⟨by simpa using hv1, ⟨good_start [] b₁, trivial⟩, by simp, by simp, by simp⟩

/-! ## Nodes can be moved back along the path -/

/-- Every chain in the buckets is in a candidate bucket of its hash. -/
def AtCandidates (hashFinish : BitVec 32 → BitVec 32 → BitVec 32) (impl : CmapImpl)
    (T : CmapBuckets) : Prop :=
  ∀ {b i h x}, T b i = ⟨h, some x⟩ →
    b = impl.bucket₁ hashFinish h ∨ b = impl.bucket₂ hashFinish h

/-- The other bucket of a slot of a full bucket is its other candidate. -/
lemma otherBucket_cases (hc : impl.AtCandidates hashFinish impl.buckets) (hfull : impl.Full b)
    (i : Fin cmapK) : b = impl.bucket₁ hashFinish (impl.buckets b i).hash ∧
        impl.otherBucket hashFinish b i = impl.bucket₂ hashFinish (impl.buckets b i).hash ∨
      b = impl.bucket₂ hashFinish (impl.buckets b i).hash ∧
        impl.otherBucket hashFinish b i = impl.bucket₁ hashFinish (impl.buckets b i).hash := by
  obtain ⟨x, hx⟩ := Option.isSome_iff_exists.1 (hfull i)
  by_cases hb : impl.bucket₁ hashFinish (impl.buckets b i).hash = b
  · refine .inl ⟨hb.symm, ?_⟩
    rw [bucket₁] at hb
    rw [otherBucket, if_pos hb]
    rfl
  · refine .inr ⟨(hc (show impl.buckets b i = ⟨_, some x⟩ by rw [← hx])).resolve_left
      fun h => hb h.symm, ?_⟩
    rw [bucket₁] at hb
    rw [otherBucket, if_neg hb]
    rfl

/-- Nodes can be moved back along a sequence of slots through distinct full buckets to one with
an empty slot. -/
lemma movable_positions (hc : impl.AtCandidates hashFinish impl.buckets) {hop empty : Fin cmapK}
    (hfull : ∀ b' ∈ impl.trail hashFinish b slots, impl.Full b')
    (hnodup : (impl.trail hashFinish b (slots ++ [hop])).Nodup) (hempty : impl.findEmptySlot
      (impl.otherBucket hashFinish (impl.follow hashFinish b slots) hop) = some empty) :
    Cuckoo.Movable (impl.bucket₁ hashFinish) (impl.bucket₂ hashFinish) impl.buckets
      (impl.positions hashFinish b (slots ++ [hop, empty])) := by
  have hnew : ∀ b k rest j, (impl.trail hashFinish b (k :: rest)).Nodup →
      ∀ q ∈ impl.positions hashFinish (impl.otherBucket hashFinish b k) (rest ++ [j]),
        q.1 ≠ b := by
    intro b k rest j hnd q hq hqb
    have hmem := mem_map_of_mem (f := Prod.fst) hq
    rw [positions_map_fst, hqb] at hmem
    exact (nodup_cons.1 hnd).1 hmem
  induction slots generalizing b with
  | nil =>
    have hb := hfull b (by simp [trail])
    obtain ⟨hdead, hbefore⟩ := impl.findEmptySlot_eq_some hempty
    exact .step hb (otherBucket_cases hc hb hop) (hnew b hop [] empty hnodup) (.last hdead hbefore)
  | cons s slots ih =>
    have hb := hfull b (by simp [trail])
    have hrest := ih (fun b' hb' => hfull b' (by simp [trail, hb']))
      (nodup_cons.1 hnodup).2 hempty
    have hne := hnew b s (slots ++ [hop]) empty hnodup
    rw [append_assoc] at hne
    -- the first position behind `(b, s)` is in the bucket that slot `s` leads to
    cases slots with
    | nil | cons => exact .step hb (otherBucket_cases hc hb s) hne hrest

/-- **The path of a successful search.**  It starts in one of the two candidate buckets, and nodes
can be moved back along it. -/
lemma findRoom_movable (hc : impl.AtCandidates hashFinish impl.buckets) (h1 : impl.Full b₁)
    (h2 : impl.Full b₂) (hr : findRoom hashFinish impl b₁ b₂ = some room) :
    (room.path.start = b₁ ∨ room.path.start = b₂) ∧
      Cuckoo.Movable (impl.bucket₁ hashFinish) (impl.bucket₂ hashFinish) impl.buckets
        (impl.positions hashFinish room.path.start
          (room.path.slots ++ [room.hop, room.empty])) := by
  obtain ⟨hvalid, hnodup, hempty⟩ := findRoom_spec h1 h2 hr
  rw [← hvalid.follow] at hempty
  refine ⟨hvalid.start, movable_positions hc hvalid.full ?_ hempty⟩
  rw [trail_append, nodup_append]
  refine ⟨hnodup, nodup_singleton _, fun b hb b' hb' he => ?_⟩
  rw [mem_singleton] at hb'
  have hfull := hvalid.full b hb
  rw [he, hb', ← findEmptySlot_eq_none_iff, hempty] at hfull
  simp at hfull

end CmapImpl

end OVS
