import OpenVSwitch.Cmap.Insert

/-!
# Rearranging buckets, one store at a time

A reader may run between any two calls of `cmap_set_bucket()`, so `cmap_insert_bfs()` must not lose
a chain even for the time between two of them.  `insertBfsRun` is the function with all the states
that it goes through.

* `insertBfsRun_eq` — it is the same function as `insertBfs`.
* `insert_bfs_keeps_chains` — no bucket is on the path twice, every chain is in a candidate bucket
  after every store, and in the end there are the old chains and the new one, each as often as it
  should be.  This needs only that the chains have been in candidate buckets.
-/

namespace OVS

namespace CmapImpl

open List

variable (hashFinish : BitVec 32 → BitVec 32 → BitVec 32) (impl : CmapImpl)

/-- The return value of `cmap_insert_bfs()`, its `buckets[]`, and the state after each call of
`cmap_set_bucket()`. -/
structure BfsRun where
  ret : Bool
  path : List (BitVec 32)
  states : List CmapImpl

/-- `cmap_insert_bfs()`, store by store. -/
def insertBfsRun (node : ℕ) (hash b₁ b₂ : BitVec 32) : BfsRun :=
  match impl.findRoom hashFinish b₁ b₂ with
  | none => ⟨false, [], []⟩
  | some room =>
    let slots := room.path.slots ++ [room.hop, room.empty]
    let ps := impl.positions hashFinish room.path.start slots
    let moved := (Cuckoo.moveBackSteps ps impl.buckets).map fun T => { impl with buckets := T }
    match ps with
    | [] => ⟨false, [], []⟩
    | (b, i) :: _ => ⟨true, ps.map Prod.fst,
        moved ++ [(moved.getLast?.getD impl).setBucket b i (some node) hash]⟩

noncomputable instance : Fintype (BitVec 32) :=
  have : Finite (BitVec 32) :=
    Finite.of_injective BitVec.toFin fun _ _ => BitVec.eq_of_toFin_eq
  Fintype.ofFinite _

/-- How often a chain is stored with a hash. -/
noncomputable def countChain (hash : BitVec 32) (node : ℕ) : ℕ :=
  Cuckoo.count impl.buckets hash node

variable {hashFinish impl} {node : ℕ} {hash b₁ b₂ : BitVec 32}

/-- What the room that was found looks like in both definitions. -/
lemma positions_room (hashFinish : BitVec 32 → BitVec 32 → BitVec 32) (impl : CmapImpl)
    (room : Room) : ∃ s q rest, impl.positions hashFinish room.path.start
      (room.path.slots ++ [room.hop, room.empty]) = (room.path.start, s) :: q :: rest := by
  obtain ⟨s, s', rest, hs⟩ : ∃ s s' rest,
      room.path.slots ++ [room.hop, room.empty] = s :: s' :: rest := by
    rcases room.path.slots with _ | ⟨s, _ | ⟨s', rest⟩⟩
    · exact ⟨_, _, _, rfl⟩
    · exact ⟨_, _, _, rfl⟩
    · exact ⟨_, _, _, rfl⟩
  exact ⟨s, _, _, by rw [hs, positions, positions]⟩

/-- A search that finds room, store by store. -/
lemma insertBfsRun_of_room {room : Room}
    (hroom : impl.findRoom hashFinish b₁ b₂ = some room) :
    ∃ s q rest, impl.positions hashFinish room.path.start
        (room.path.slots ++ [room.hop, room.empty]) = (room.path.start, s) :: q :: rest ∧
      impl.insertBfs hashFinish node hash b₁ b₂ = some ({ impl with
        buckets := Cuckoo.moveBack ((room.path.start, s) :: q :: rest) impl.buckets }.setBucket
          room.path.start s (some node) hash) ∧
      impl.insertBfsRun hashFinish node hash b₁ b₂ = ⟨true,
        ((room.path.start, s) :: q :: rest).map Prod.fst,
        (Cuckoo.moveBackSteps ((room.path.start, s) :: q :: rest) impl.buckets).map
          (fun T => { impl with buckets := T }) ++ [{ impl with
            buckets := Cuckoo.moveBack ((room.path.start, s) :: q :: rest) impl.buckets }.setBucket
              room.path.start s (some node) hash]⟩ := by
  obtain ⟨s, q, rest, hps⟩ := positions_room hashFinish impl room
  refine ⟨s, q, rest, hps, ?_, ?_⟩
  · rw [insertBfs, hroom]
    simp only [hps]
  · rw [insertBfsRun, hroom]
    simp only [hps, Cuckoo.moveBackSteps, map_append, map_singleton,
      getLast?_concat, Option.getD_some]

/-- The last state is the result. -/
lemma insertBfsRun_eq : impl.insertBfs hashFinish node hash b₁ b₂ =
    (impl.insertBfsRun hashFinish node hash b₁ b₂).states.getLast? := by
  cases hroom : impl.findRoom hashFinish b₁ b₂ with
  | none => rw [insertBfs, insertBfsRun, hroom]; rfl
  | some room =>
    obtain ⟨s, q, rest, -, hbfs, hrun⟩ : ∃ s q rest, _ ∧
        impl.insertBfs hashFinish node hash b₁ b₂ = _ ∧ _ := insertBfsRun_of_room hroom
    rw [hbfs, hrun, getLast?_concat]

/-- **`cmap_insert_bfs()` loses no chain.**  A failure stores nothing.  Otherwise no bucket is on
the path twice, after every store each chain is in one of its candidate buckets, and in the end
the new chain has been added, in a candidate bucket of its own. -/
theorem insert_bfs_keeps_chains (hc : impl.AtCandidates hashFinish impl.buckets)
    (hf₁ : impl.Full (impl.bucket₁ hashFinish hash))
    (hf₂ : impl.Full (impl.bucket₂ hashFinish hash)) (node : ℕ) :
    let run := impl.insertBfsRun hashFinish node hash (impl.bucket₁ hashFinish hash)
      (impl.bucket₂ hashFinish hash)
    (run.ret = false → run.states = []) ∧
    (run.ret = true → run.path.Nodup ∧
      (∀ impl' ∈ run.states, impl.AtCandidates hashFinish impl'.buckets ∧
        ∀ b i h x, impl.buckets b i = ⟨h, some x⟩ → ∃ b' i', impl'.buckets b' i' = ⟨h, some x⟩) ∧
      ∃ impl', run.states.getLast? = some impl' ∧ ∀ h x, impl'.countChain h x =
        impl.countChain h x + if (h, x) = (hash, node) then 1 else 0) := by
  cases hroom : impl.findRoom hashFinish (impl.bucket₁ hashFinish hash)
      (impl.bucket₂ hashFinish hash) with
  | none =>
    rw [insertBfsRun, hroom]
    exact ⟨fun _ => rfl, by simp⟩
  | some room =>
    obtain ⟨s, q, rest, hps, -, hrun⟩ : ∃ s q rest, _ ∧ _ ∧
        impl.insertBfsRun hashFinish node hash (impl.bucket₁ hashFinish hash)
          (impl.bucket₂ hashFinish hash) = _ := insertBfsRun_of_room hroom
    obtain ⟨hstart, hmovable⟩ := findRoom_movable hc hf₁ hf₂ hroom
    rw [hps] at hmovable
    set moved := Cuckoo.moveBack ((room.path.start, s) :: q :: rest) impl.buckets with hmoved
    -- the new chain takes the place of a duplicate
    have hlast : ∀ h x, Cuckoo.count (Cuckoo.set moved room.path.start s ⟨hash, some node⟩) h x =
        Cuckoo.count impl.buckets h x + if (h, x) = (hash, node) then 1 else 0 := by
      intro h x
      have hcount := hmovable.count_moveBack h x
      have hset := Cuckoo.count_set moved room.path.start s ⟨hash, some node⟩ h x
      have hsame : moved room.path.start s = impl.buckets room.path.start s :=
        Cuckoo.moveBack_of_not_mem hmovable.head_new s
      have hnew : ((⟨hash, some node⟩ : CmapSlot) = ⟨h, some x⟩) ↔ (h, x) = (hash, node) := by
        rw [Cuckoo.Slot.mk.injEq, Option.some.injEq, Prod.mk.injEq]
        exact ⟨fun h => ⟨h.1.symm, h.2.symm⟩, fun h => ⟨h.1.symm, h.2.symm⟩⟩
      rw [hsame] at hset
      simp only [hnew] at hset
      dsimp only at hcount
      rw [← hmoved] at hcount
      omega
    rw [hrun]
    refine ⟨by simp, fun _ => ⟨?_, fun impl' himpl' => ?_, _, getLast?_concat, hlast⟩⟩
    · exact hmovable.nodup
    · rcases mem_append.1 himpl' with himpl' | himpl'
      · obtain ⟨T, hT, rfl⟩ := mem_map.1 himpl'
        obtain ⟨q', rest', hsuffix, rfl⟩ := Cuckoo.mem_moveBackSteps hT
        have hm := hmovable.of_suffix hsuffix
        refine ⟨fun hs => hm.candidate hc hs, fun b i h x hs => ?_⟩
        refine Cuckoo.exists_of_count_pos ?_
        rw [hm.count_moveBack]
        exact Nat.add_pos_left (Cuckoo.count_pos_of_eq hs) _
      · rw [mem_singleton.1 himpl']
        refine ⟨fun {b i h x} hs => ?_, fun b i h x hs => ?_⟩
        · change Cuckoo.set moved room.path.start s ⟨hash, some node⟩ b i = _ at hs
          rw [Cuckoo.set_apply] at hs
          split_ifs at hs with hb
          · cases hs
            exact hb.1 ▸ hstart
          · exact hmovable.candidate hc hs
        · refine Cuckoo.exists_of_count_pos ?_
          change 0 < Cuckoo.count (Cuckoo.set moved room.path.start s ⟨hash, some node⟩) h x
          rw [hlast]
          exact Nat.add_pos_left (Cuckoo.count_pos_of_eq hs) _

/-- Two buckets of which the first is full, with hashes that could be in the second. -/
def oneFull : CmapImpl where
  n := 5
  mask := 1
  basis := 0
  buckets b i := if b = 0 then ⟨0x10000 + BitVec.ofNat 32 (2 * i), some i⟩ else ⟨0, none⟩

/-- Both candidates of the hash 0 are the full bucket, and there is room for it. -/
theorem insert_bfs_keeps_chains_oneFull :
    (oneFull.insertBfsRun (fun _ hash => hash) 7 0 0 0).ret = true ∧
      ∃ impl', (oneFull.insertBfsRun (fun _ hash => hash) 7 0 0 0).states.getLast? = some impl' ∧
        ∀ h x, impl'.countChain h x =
          oneFull.countChain h x + if (h, x) = (0, 7) then 1 else 0 := by
  have hret : (oneFull.insertBfsRun (fun _ hash => hash) 7 0 0 0).ret = true := by decide +kernel
  have hfull : oneFull.Full (oneFull.bucket₁ (fun _ hash => hash) 0) := by
    unfold Full
    decide
  have hc : oneFull.AtCandidates (fun _ hash => hash) oneFull.buckets := by
    intro b i h x hs
    simp only [oneFull] at hs
    split at hs
    · next hb =>
      cases hs
      subst hb
      revert i
      decide
    · cases hs
  exact ⟨hret, ((insert_bfs_keeps_chains hc hfull hfull 7).2 hret).2.2⟩

end CmapImpl

end OVS
