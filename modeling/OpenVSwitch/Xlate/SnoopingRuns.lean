import Mathlib.Algebra.Order.Group.Int
import Mathlib.Data.List.Flatten
import OpenVSwitch.Xlate.Snooping

/-!
# Changes of the multicast snooping table

What `mcast_snooping_run()` returns, and what it leaves in the table.  The result says whether flows
have to be revalidated, that is, whether the members, the routers or the configured ports have
changed since the last call.  What has expired should be removed.

* `step_noted` — an operation that changes the table sets `need_revalidate`, unless it makes a port
  a member of a group that has other members, or flushes a table that has routers only.
* **`run_revalidates`** — so a change is reported if there are no such operations.
* `member_not_reported` — a member that joins a group is not reported.
* **`run_expires`** — nothing that has expired is left, as long as the groups are in the order in
  which their members expire and none of them is empty (`Orderly`).
* `expired_remains` — otherwise expired members are left, and empty groups.
-/

namespace OVS

namespace Xlate

open List

variable {π : Type} {ms ms' : McastSnooping π} {now : ℤ}

namespace McastSnooping

/-- Whether the first loop of `mcast_snooping_run__()` removes anything, which it does at once if it
does at all. -/
def groupsExpire (now : ℤ) (maxEntries : ℕ) : List (McastGroup π) → Bool
  | [] => false
  | grp :: groups =>
    maxEntries < (grp :: groups).length || (pruneExpired now grp.bundleLru).isEmpty ||
      (pruneExpired now grp.bundleLru).length ≠ grp.bundleLru.length

/-- What `mcast_snooping_run()` returns. -/
def runReturns (ms : McastSnooping π) (now : ℤ) : Bool :=
  ms.needRevalidate || groupsExpire now ms.maxEntries ms.groupLru ||
    ms.mrouterLru.head?.any fun m => m.expires ≤ now

/-! ## Changes -/

/-- A port is a member of the group with a key. -/
def Member (ms : McastSnooping π) (key : BitVec 32 × ℕ) (port : π) : Prop :=
  ∃ grp ∈ ms.groupLru, grp.key = key ∧ port ∈ grp.ports

instance [DecidableEq π] (key : BitVec 32 × ℕ) (port : π) : Decidable (ms.Member key port) :=
  inferInstanceAs (Decidable (∃ grp ∈ ms.groupLru, _))

/-- Members, routers and configured ports are the same. -/
structure Unchanged (ms ms' : McastSnooping π) : Prop where
  member : ∀ key port, ms.Member key port ↔ ms'.Member key port
  router : ∀ key, key ∈ ms.mrouterLru.map (·.key) ↔ key ∈ ms'.mrouterLru.map (·.key)
  fport : ms.fportList = ms'.fportList
  rport : ms.rportList = ms'.rportList

lemma Unchanged.refl (ms : McastSnooping π) : Unchanged ms ms := ⟨by simp, by simp, rfl, rfl⟩

lemma Unchanged.trans {ms'' : McastSnooping π} (h : Unchanged ms ms') (h' : Unchanged ms' ms'') :
    Unchanged ms ms'' :=
  ⟨fun key port => (h.member key port).trans (h'.member key port),
    fun key => (h.router key).trans (h'.router key), h.fport.trans h'.fport,
    h.rport.trans h'.rport⟩

/-- A call that returns false has not changed anything. -/
lemma run_unchanged (h : ms.runReturns now = false) :
    ms.needRevalidate = false ∧ Unchanged ms (ms.run now) := by
  simp only [runReturns, Bool.or_eq_false_iff] at h
  obtain ⟨⟨hneed, hgroups⟩, hrouters⟩ := h
  have hgroups' : runGroups now ms.maxEntries ms.groupLru = ms.groupLru := by
    cases hlru : ms.groupLru with
    | nil => rfl
    | cons grp groups =>
      rw [hlru] at hgroups
      simp only [groupsExpire, Bool.or_eq_false_iff, decide_eq_false_iff_not, not_not] at hgroups
      have heq : pruneExpired now grp.bundleLru = grp.bundleLru :=
        (dropWhile_sublist _).eq_of_length hgroups.2
      rw [runGroups, if_neg hgroups.1.1, heq]
      split
      · rename_i hnil
        simp [heq.trans hnil] at hgroups
      · rename_i hcons
        rw [← hcons]
  have hrouters' : ms.mrouterLru.dropWhile (fun m => m.expires ≤ now) = ms.mrouterLru := by
    cases hlru : ms.mrouterLru with
    | nil => rfl
    | cons m routers =>
      rw [hlru] at hrouters
      exact dropWhile_cons_of_neg (by simpa using hrouters)
  exact ⟨hneed, by simp [Member, run, hgroups'], by simp [run, hrouters'], rfl, rfl⟩

variable [DecidableEq π]

/-- An operation whose changes are noted. -/
def Noted (ms : McastSnooping π) : McastOp π → Prop
  | .report ip4 vlan port =>
    ms.mrouterLookup vlan port ∨ port ∈ ms.fportList ∨ ∀ grp ∈ ms.lookup ip4 vlan, port ∈ grp.ports
  | .mdbFlush => ms.groupLru = [] → ms.mrouterLru = []
  | .leave .. | .query .. | .setPortFlood .. | .setPortFloodReports .. => True
  | _ => False

lemma setPort_fst {ports : List π} {port : π} {flood : Bool}
    (h : (setPort ports port flood).2 = false) : (setPort ports port flood).1 = ports := by
  unfold setPort at h ⊢
  split_ifs at h ⊢
  rfl

/-- **What does not set `need_revalidate` changes nothing.** -/
lemma step_noted {op : McastOp π} (hop : ms.Noted op)
    (h : (ms.step now op).needRevalidate = false) :
    ms.needRevalidate = false ∧ Unchanged ms (ms.step now op) := by
  cases op with
  | report ip4 vlan port =>
    simp only [step, addGroup] at h ⊢
    split at h
    · rename_i hc
      rw [if_pos hc]
      exact ⟨h, .refl ms⟩
    · rename_i hc
      rw [if_neg hc]
      split at h
      · cases h
      · rename_i grp hgrp
        refine ⟨h, fun key p => ?_, fun _ => .rfl, rfl, rfl⟩
        have hport : port ∈ grp.ports := by
          obtain hop | hop | hop := hop
          · exact absurd (.inl hop) hc
          · exact absurd (.inr hop) hc
          · exact hop grp hgrp
        have hports : p ∈ (insertBundle grp port (now + ms.idleTime)).ports ↔ p ∈ grp.ports :=
          (Lru.perm_map_touch (x := (⟨port, now + ms.idleTime⟩ : GroupBundle π)) hport).mem_iff
        have hkey : (insertBundle grp port (now + ms.idleTime)).key = grp.key := rfl
        have hgrp' : grp.key = (ip4, vlan) := by simpa using find?_some hgrp
        rw [lookup, ← hgrp', ← hkey] at hgrp
        obtain ⟨pre, post, hlru, htouch⟩ := Lru.exists_touch_eq hgrp
        rw [Member, Member, htouch, hlru]
        simp only [mem_append, mem_cons, not_mem_nil, or_false, or_and_right, exists_or,
          exists_eq_left, hkey, hports, or_assoc, or_comm (a := grp.key = key ∧ _)]
  | leave ip4 vlan port =>
    simp only [step, leaveGroup] at h ⊢
    split_ifs at h ⊢
    · exact ⟨h, .refl ms⟩
    · split at h
      · exact ⟨h, .refl ms⟩
      · split_ifs at h ⊢
        exact ⟨h, .refl ms⟩
  | query vlan port =>
    simp only [step, addMrouter] at h ⊢
    split_ifs at h ⊢
    · exact ⟨h, .refl ms⟩
    · simp only [Bool.or_eq_false_iff, Bool.not_eq_false'] at h
      refine ⟨h.1, fun _ _ => .rfl, fun key => ?_, rfl, rfl⟩
      refine (Lru.perm_map_touch ?_).mem_iff.symm
      obtain ⟨m, hm, hkey⟩ := any_eq_true.1 h.2
      exact mem_map.2 ⟨m, hm, of_decide_eq_true hkey⟩
  | setPortFlood port flood =>
    obtain ⟨hneed, hports⟩ := Bool.or_eq_false_iff.1 h
    exact ⟨hneed, fun _ _ => .rfl, fun _ => .rfl, (setPort_fst hports).symm, rfl⟩
  | setPortFloodReports port flood =>
    obtain ⟨hneed, hports⟩ := Bool.or_eq_false_iff.1 h
    exact ⟨hneed, fun _ _ => .rfl, fun _ => .rfl, rfl, (setPort_fst hports).symm⟩
  | mdbFlush =>
    simp only [step, mdbFlush, Bool.or_eq_false_iff, Bool.not_eq_false', List.isEmpty_iff] at h ⊢
    exact ⟨h.1, by simp [Member, h.2], by simp [hop h.2], rfl, rfl⟩
  | _ => cases hop

/-- Operations at some times, one after the other. -/
def steps (ms : McastSnooping π) (ops : List (ℤ × McastOp π)) : McastSnooping π :=
  ops.foldl (fun ms e => ms.step e.1 e.2) ms

/-- The changes of all operations are noted. -/
def AllNoted (ms : McastSnooping π) : List (ℤ × McastOp π) → Prop
  | [] => True
  | e :: ops => ms.Noted e.2 ∧ AllNoted (ms.step e.1 e.2) ops

lemma steps_noted {ops : List (ℤ × McastOp π)} (hops : ms.AllNoted ops)
    (h : (ms.steps ops).needRevalidate = false) :
    ms.needRevalidate = false ∧ Unchanged ms (ms.steps ops) := by
  induction ops generalizing ms with
  | nil => exact ⟨h, .refl ms⟩
  | cons e ops ih =>
    obtain ⟨hneed, hrest⟩ := ih hops.2 h
    obtain ⟨hneed, hstep⟩ := step_noted hops.1 hneed
    exact ⟨hneed, hstep.trans hrest⟩

/-- **Changes are reported**: if members, routers or configured ports are not the same after two
calls of `mcast_snooping_run()`, then the second one returns true. -/
theorem run_revalidates {t t' : ℤ} {ops : List (ℤ × McastOp π)} (hops : (ms.run t).AllNoted ops)
    (hchanged : ¬Unchanged (ms.run t) (((ms.run t).steps ops).run t')) :
    ((ms.run t).steps ops).runReturns t' = true := by
  by_contra h
  obtain ⟨hneed, hrun⟩ := run_unchanged (Bool.eq_false_iff.2 h)
  exact hchanged ((steps_noted hops hneed).2.trans hrun)

theorem run_revalidates_leave :
    (((create.addGroup 0 7 0 1).run 0).steps [(1, .leave 7 0 1)]).runReturns 2 = true :=
  run_revalidates ⟨trivial, trivial⟩ fun h =>
    absurd ((h.member (7, 0) 1).1 (by decide)) (by decide)

/-- **A member that joins a group is not reported.** -/
theorem member_not_reported :
    let ms : McastSnooping ℕ := (create.addGroup 0 7 0 1).run 0
    ¬Unchanged ms ((ms.addGroup 1 7 0 2).run 2) ∧ (ms.addGroup 1 7 0 2).runReturns 2 = false :=
  ⟨fun h => absurd ((h.member (7, 0) 2).2 (by decide)) (by decide), by decide⟩

/-! ## What expires -/

/-- Expiry times in order, none of them behind a limit. -/
def InTime (limit : ℤ) (l : List ℤ) : Prop := l.Pairwise (· ≤ ·) ∧ ∀ e ∈ l, e ≤ limit

lemma InTime.nil (limit : ℤ) : InTime limit [] := ⟨.nil, by simp⟩

lemma InTime.sublist {limit limit' : ℤ} {l l' : List ℤ} (h : InTime limit l)
    (hsub : l'.Sublist l) (hle : limit ≤ limit') : InTime limit' l' :=
  ⟨h.1.sublist hsub, fun e he => (h.2 e (hsub.subset he)).trans hle⟩

lemma InTime.concat {limit : ℤ} {l : List ℤ} (h : InTime limit l) :
    InTime limit (l ++ [limit]) := by
  refine ⟨pairwise_append.2 ⟨h.1, pairwise_singleton _ _, ?_⟩, ?_⟩
  · simpa using h.2
  · simpa [or_imp, forall_and] using h.2

lemma InTime.map_add {limit : ℤ} {l : List ℤ} (h : InTime limit l) (delta : ℤ) :
    InTime (limit + delta) (l.map (· + delta)) := by
  refine ⟨h.1.map _ fun _ _ => by omega, ?_⟩
  simpa using h.2

/-- What is left of a list that is sorted by expiry times. -/
lemma lt_of_mem_dropWhile {α : Type} {f : α → ℤ} {l : List α} (h : (l.map f).Pairwise (· ≤ ·)) :
    ∀ x ∈ l.dropWhile (fun x => f x ≤ now), now < f x := by
  induction l with
  | nil => simp
  | cons y l ih =>
    rw [dropWhile_cons]
    split
    · exact ih h.of_cons
    · rename_i hy
      have hy : now < f y := by simpa using hy
      rintro x (_ | ⟨_, hx⟩)
      · exact hy
      · exact hy.trans_le (rel_of_pairwise_cons h (mem_map_of_mem hx))

/-- When the members of groups expire, in the order of the lists. -/
def expiries (groups : List (McastGroup π)) : List ℤ :=
  groups.flatMap fun grp => grp.bundleLru.map (·.expires)

/-- Members and routers are in the order in which they expire, and no group is empty. -/
structure InOrder (now : ℤ) (ms : McastSnooping π) : Prop where
  member : InTime (now + ms.idleTime) (expiries ms.groupLru)
  router : InTime (now + mcastMrouterPortIdleTime) (ms.mrouterLru.map (·.expires))
  nonempty : ∀ grp ∈ ms.groupLru, grp.bundleLru ≠ []

omit [DecidableEq π] in
/-- What is left by the first loop. -/
lemma runGroups_spec (now : ℤ) (maxEntries : ℕ) (groups : List (McastGroup π)) :
    (expiries (runGroups now maxEntries groups)).Sublist (expiries groups) ∧
      (runGroups now maxEntries groups).length ≤ maxEntries ∧
      ((∀ grp ∈ groups, grp.bundleLru ≠ []) →
        ∀ grp ∈ runGroups now maxEntries groups, grp.bundleLru ≠ []) ∧
      ((expiries groups).Pairwise (· ≤ ·) →
        ∀ e ∈ expiries (runGroups now maxEntries groups), now < e) := by
  fun_induction runGroups now maxEntries groups with
  | case1 => simp [expiries]
  | case2 grp groups hlength ih | case3 grp groups hlength hprune ih =>
    obtain ⟨hsub, hle, hne, hexpires⟩ := ih
    rw [show expiries (grp :: groups) = grp.bundleLru.map (·.expires) ++ expiries groups from rfl]
    exact ⟨hsub.trans (sublist_append_right _ _), hle,
      fun h => hne fun g hg => h g (mem_cons_of_mem _ hg),
      fun h => hexpires (h.sublist (sublist_append_right _ _))⟩
  | case4 grp groups hlength b bs hprune =>
    have hsub : (b :: bs).Sublist grp.bundleLru := hprune ▸ dropWhile_sublist _
    have hflat : (expiries ({ grp with bundleLru := b :: bs } :: groups)).Sublist
        (expiries (grp :: groups)) := (hsub.map _).append_right _
    refine ⟨hflat, not_lt.1 hlength, fun h g hg => ?_, fun h e he => ?_⟩
    · obtain rfl | hg := mem_cons.1 hg
      · exact cons_ne_nil b bs
      · exact h g (mem_cons_of_mem _ hg)
    · -- the first member has not expired, and the others are behind it
      have hb : now < b.expires :=
        lt_of_mem_dropWhile (h.sublist (sublist_append_left _ _)) b (by
          rw [show dropWhile _ _ = _ from hprune]
          exact mem_cons_self)
      obtain rfl | he := mem_cons.1 he
      · exact hb
      · exact hb.trans_le (rel_of_pairwise_cons (h.sublist hflat) he)

/-- An operation after which members are still in the order in which they expire: a report moves a
group behind the others, so its other members must not expire before theirs, and a port may
leave a group only if it is not the last one.  Nothing is asked of what is ignored: a report from
a router port of the VLAN or from a flood port, and a port that leaves although reports are flooded
to it. -/
def Orderly (ms : McastSnooping π) : McastOp π → Prop
  | .report ip4 vlan port => ¬(ms.mrouterLookup vlan port ∨ port ∈ ms.fportList) →
      ∀ grp ∈ ms.lookup ip4 vlan, ∀ b ∈ (deleteBundle grp port).bundleLru,
        ∀ e ∈ expiries (ms.groupLru.eraseP fun g => g.key = (ip4, vlan)), e ≤ b.expires
  | .leave ip4 vlan port => port ∉ ms.rportList →
      ∀ grp ∈ ms.groupLru, grp.key = (ip4, vlan) → (deleteBundle grp port).bundleLru ≠ []
  | _ => True

instance (ms : McastSnooping π) (op : McastOp π) : Decidable (ms.Orderly op) := by
  cases op <;> unfold Orderly <;> infer_instance

lemma InOrder.addGroup {ip4 : BitVec 32} {vlan : ℕ} {port : π} (h : InOrder now ms)
    (hop : ms.Orderly (.report ip4 vlan port)) : InOrder now (ms.addGroup now ip4 vlan port) := by
  have hflat {groups} (hsub : groups.Sublist ms.groupLru) : InTime _ (expiries groups) :=
    h.member.sublist (hsub.flatMap _) le_rfl
  have hnonempty {groups grp expires} (hsub : groups.Sublist ms.groupLru) :
      ∀ g ∈ groups ++ [insertBundle grp port expires], g.bundleLru ≠ [] := by
    intro g hg
    obtain hg | hg := mem_append.1 hg
    · exact h.nonempty g (hsub.subset hg)
    · rw [mem_singleton.1 hg]
      exact append_ne_nil_of_right_ne_nil _ (cons_ne_nil _ _)
  unfold McastSnooping.addGroup
  split
  case isTrue => exact h
  rename_i hheard
  split
  · have hsub : (if ms.maxEntries ≤ ms.groupLru.length then ms.groupLru.tail
        else ms.groupLru).Sublist ms.groupLru := by
      split
      · exact tail_sublist _
      · exact .refl _
    refine ⟨?_, h.router, hnonempty hsub⟩
    rw [expiries, flatMap_append]
    exact (hflat hsub).concat
  · rename_i grp hgrp
    have hkey : grp.key = (ip4, vlan) := by simpa using find?_some hgrp
    refine ⟨?_, h.router, hnonempty eraseP_sublist⟩
    have hothers : InTime (now + ms.idleTime) ((deleteBundle grp port).bundleLru.map (·.expires)) :=
      h.member.sublist ((eraseP_sublist.map _).trans
        (sublist_flatten_of_mem (mem_map_of_mem (mem_of_find?_eq_some hgrp)))) le_rfl
    have hrest := hflat (eraseP_sublist (p := fun g : McastGroup π => g.key = (ip4, vlan)))
    have hall : InTime (now + ms.idleTime)
        (expiries (ms.groupLru.eraseP fun g : McastGroup π => g.key = (ip4, vlan)) ++
          (deleteBundle grp port).bundleLru.map (·.expires)) := by
      refine ⟨pairwise_append.2 ⟨hrest.1, hothers.1, ?_⟩, ?_⟩
      · simpa using fun e he b hb => hop hheard grp hgrp b hb e he
      · intro e he
        exact (mem_append.1 he).elim (hrest.2 e) (hothers.2 e)
    simpa [expiries, Lru.touch, insertBundle, deleteBundle, McastGroup.key, ← hkey]
      using hall.concat

/-- **An orderly operation keeps the order.** -/
lemma InOrder.step {t : ℤ} {op : McastOp π} (h : InOrder t ms) (ht : t ≤ now)
    (hop : ms.Orderly op) : InOrder now (ms.step now op) := by
  have hnow : InOrder now ms :=
    ⟨h.member.sublist (.refl _) (by omega), h.router.sublist (.refl _) (by omega), h.nonempty⟩
  cases op with
  | report ip4 vlan port => exact hnow.addGroup hop
  | leave ip4 vlan port =>
    simp only [McastSnooping.step, leaveGroup]
    split
    case isTrue => exact hnow
    rename_i hheard
    split
    · exact hnow
    split
    · rename_i grp hgrp _
      have hkey : grp.key = (ip4, vlan) := by simpa using find?_some hgrp
      refine ⟨hnow.member.sublist ?_ le_rfl, hnow.router, fun g hg => ?_⟩
      · rw [expiries, flatMap_map]
        refine Sublist.flatMap_right _ fun g _ => ?_
        split
        · exact eraseP_sublist.map _
        · exact .refl _
      · obtain ⟨g, hmem, rfl⟩ := mem_map.1 hg
        split
        · rename_i heq
          exact hop hheard g hmem (heq.trans hkey)
        · exact h.nonempty g hmem
    · exact hnow
  | query vlan port =>
    simp only [McastSnooping.step, addMrouter]
    split
    · exact hnow
    · refine ⟨hnow.member, ?_, h.nonempty⟩
      rw [Lru.touch, map_append]
      exact (hnow.router.sublist (eraseP_sublist.map _) le_rfl).concat
  | setIdleTime idleTime =>
    simp only [McastSnooping.step, McastSnooping.setIdleTime]
    refine ⟨?_, hnow.router, ?_⟩
    · have hmap := hnow.member.map_add (normalizeIdleTime idleTime - ms.idleTime)
      rw [add_assoc, add_sub_cancel] at hmap
      simp only [expiries, map_flatMap, flatMap_map, map_map] at hmap ⊢
      exact hmap
    · simpa using h.nonempty
  | run =>
    obtain ⟨hsub, -, hne, -⟩ := runGroups_spec now ms.maxEntries ms.groupLru
    exact ⟨hnow.member.sublist hsub le_rfl,
      hnow.router.sublist ((dropWhile_sublist _).map _) le_rfl, hne h.nonempty⟩
  | mdbFlush | flush => exact ⟨.nil _, .nil _, fun _ hg => absurd hg not_mem_nil⟩
  | setPortFlood | setPortFloodReports | setMaxEntries | setFloodUnreg => exact { hnow with }

/-- What orderly operations make of an empty table, up to some time. -/
inductive OrderlyRun : ℤ → McastSnooping π → Prop
  | create (t : ℤ) : OrderlyRun t create
  | step {t : ℤ} {ms : McastSnooping π} (h : OrderlyRun t ms) (t' : ℤ) {op : McastOp π}
    (ht : t ≤ t') (hop : ms.Orderly op) : OrderlyRun t' (ms.step t' op)

lemma OrderlyRun.inOrder {t : ℤ} (h : OrderlyRun t ms) : InOrder t ms := by
  induction h with
  | create => exact ⟨.nil _, .nil _, fun _ hg => absurd hg not_mem_nil⟩
  | step _ _ ht hop ih => exact ih.step ht hop

/-- **Whatever has expired is removed** by `mcast_snooping_run()`, and `mcast_snooping_wait()` finds
a member in the first group, if all operations are orderly. -/
theorem run_expires {t : ℤ} (h : OrderlyRun t ms) (t' : ℤ) :
    (∀ grp ∈ (ms.run t').groupLru, ∀ b ∈ grp.bundleLru, t' < b.expires) ∧
      (∀ m ∈ (ms.run t').mrouterLru, t' < m.expires) ∧
      (ms.run t').groupLru.length ≤ ms.maxEntries ∧
      ∀ grp ∈ ms.groupLru.head?, grp.bundleLru ≠ [] := by
  have horder := h.inOrder
  obtain ⟨-, hle, -, hexpires⟩ := runGroups_spec t' ms.maxEntries ms.groupLru
  refine ⟨fun grp hgrp b hb => ?_, ?_, hle, fun grp hgrp => ?_⟩
  · exact hexpires horder.member.1 b.expires
      (mem_flatMap.2 ⟨grp, hgrp, mem_map_of_mem hb⟩)
  · exact lt_of_mem_dropWhile horder.router.1
  · exact horder.nonempty grp (mem_of_mem_head? hgrp)

/-- Two ports join group 7 and two others group 8, one of which leaves again.  A router port and a
report from it that is ignored are among the operations. -/
def twoGroups : McastSnooping ℕ :=
  ((((((create.step 0 (.report 7 0 1)).step 10 (.report 7 0 2)).step 20 (.report 8 0 3)).step 30
    (.report 8 0 4)).step 40 (.query 0 9)).step 50 (.report 7 0 9)).step 60 (.leave 8 0 3)

lemma orderlyRun_twoGroups : OrderlyRun 60 twoGroups :=
  ((((((OrderlyRun.create 0).step 0 le_rfl (by decide)).step 10 (by decide) (by decide)).step 20
    (by decide) (by decide)).step 30 (by decide) (by decide)).step 40 (by decide)
    (by decide)).step 50 (by decide) (by decide) |>.step 60 (by decide) (by decide)

/-- The first member of group 7 expires at 300, and the other ones later. -/
theorem run_expires_twoGroups :
    (∀ grp ∈ (twoGroups.run 300).groupLru, ∀ b ∈ grp.bundleLru, 300 < b.expires) ∧
      (∀ m ∈ (twoGroups.run 300).mrouterLru, 300 < m.expires) ∧
      (twoGroups.run 300).groupLru.length ≤ 2048 ∧
      (∀ grp ∈ twoGroups.groupLru.head?, grp.bundleLru ≠ []) ∧
      (twoGroups.run 300).groupLru.map (·.ports) = [[2], [4]] :=
  have h := run_expires orderlyRun_twoGroups 300
  ⟨h.1, h.2.1, h.2.2.1, h.2.2.2, by decide⟩

/-- **Members stay behind**: port 1 of group 7 is behind the group 8, which has not expired. -/
theorem expired_remains : let ms : McastSnooping ℕ :=
      ((create.addGroup 0 7 0 1).addGroup 50 8 0 3).addGroup 100 7 0 2
    ((ms.run 300).groupLru.map (·.bundleLru.map (·.expires))) = [[350], [300, 400]] ∧
    let ms : McastSnooping ℕ := ((((create.addGroup 0 8 0 1).addGroup 0 7 0 2).leaveGroup 7 0 2).run
      1).addGroup 2 8 0 1
    ms.needRevalidate = false ∧ ms.groupLru.map (·.ports) = [[], [1]] := by
  decide

end McastSnooping

end Xlate

end OVS
