import Mathlib.Data.Int.Notation
import OpenVSwitch.Lib.Keyed

/-!
# The multicast snooping table

`lib/mcast-snooping.c`.  A table knows four kinds of ports: the *members* of each multicast group,
which have sent a report for it, the *router* ports, where a query has come from, and the *flood*
and *report* ports, which are configured.  Members and routers belong to a VLAN and expire; groups,
members and routers are in the order of their last use.

A packet is sent to several of these lists one after the other.  To avoid duplicates a report is
ignored if its port is a router port of the same VLAN or a flood port, and a query if its port is a
flood port.

* `Separate` says that no port is in two lists that a packet may be sent to, nor twice in one list.
* `Separate.step` — an operation keeps the lists separate if it is `McastOp.Clean`.
-/

namespace OVS

namespace Xlate

open List

/-- `struct mcast_group_bundle`. -/
structure GroupBundle (π : Type) where
  port : π
  expires : ℤ

structure McastGroup (π : Type) where
  ip4 : BitVec 32
  vlan : ℕ
  bundleLru : List (GroupBundle π)

/-- `struct mcast_mrouter_bundle`. -/
structure MrouterBundle (π : Type) where
  vlan : ℕ
  port : π
  expires : ℤ

/-- `struct mcast_snooping`.  The hash table has the groups of the list. -/
structure McastSnooping (π : Type) where
  groupLru : List (McastGroup π)
  mrouterLru : List (MrouterBundle π)
  fportList : List π
  rportList : List π
  idleTime : ℕ
  maxEntries : ℕ
  needRevalidate : Bool
  floodUnreg : Bool

def mcastMrouterPortIdleTime : ℕ := 180

variable {π : Type} {grp : McastGroup π}

/-- What identifies a group. -/
def McastGroup.key (grp : McastGroup π) : BitVec 32 × ℕ := (grp.ip4, grp.vlan)

/-- What identifies a router port. -/
def MrouterBundle.key (m : MrouterBundle π) : ℕ × π := (m.vlan, m.port)

/-- The members of a group. -/
def McastGroup.ports (grp : McastGroup π) : List π := grp.bundleLru.map (·.port)

namespace McastSnooping

def create : McastSnooping π :=
  { groupLru := [], mrouterLru := [], fportList := [], rportList := [], idleTime := 300,
    maxEntries := 2048, needRevalidate := false, floodUnreg := true }

/-- The router ports of all VLANs. -/
def mrouterPorts (ms : McastSnooping π) : List π := ms.mrouterLru.map (·.port)

/-! ## Operations -/

def lookup (ms : McastSnooping π) (dip : BitVec 32) (vlan : ℕ) : Option (McastGroup π) :=
  ms.groupLru.find? fun grp => grp.key = (dip, vlan)

/-- A group found for an address and a VLAN is in the table with that VLAN. -/
lemma lookup_spec {ms : McastSnooping π} {dip : BitVec 32} {vlan : ℕ}
    (h : ms.lookup dip vlan = some grp) : grp ∈ ms.groupLru ∧ grp.vlan = vlan := by
  have hkey := find?_some h
  simp only [McastGroup.key, Prod.mk.injEq, decide_eq_true_eq] at hkey
  exact ⟨mem_of_find?_eq_some h, hkey.2⟩

def normalizeIdleTime (idleTime : ℕ) : ℕ :=
  if idleTime < 15 then 15 else if idleTime > 3600 then 3600 else idleTime

def setIdleTime (ms : McastSnooping π) (idleTime : ℕ) : McastSnooping π :=
  let idleTime := normalizeIdleTime idleTime
  let delta : ℤ := idleTime - ms.idleTime
  { ms with
    groupLru := ms.groupLru.map fun grp =>
      { grp with bundleLru := grp.bundleLru.map fun b => { b with expires := b.expires + delta } }
    idleTime := idleTime }

def setMaxEntries (ms : McastSnooping π) (maxEntries : ℕ) : McastSnooping π :=
  { ms with maxEntries := if maxEntries < 10 then 10 else min maxEntries (1000 * 1000) }

def setFloodUnreg (ms : McastSnooping π) (enable : Bool) : McastSnooping π :=
  { ms with floodUnreg := enable }

/-- `mcast_snooping_prune_expired()` on the bundles of a group: the list is sorted by time. -/
def pruneExpired (now : ℤ) (bundles : List (GroupBundle π)) : List (GroupBundle π) :=
  bundles.dropWhile fun b => b.expires ≤ now

/-- The first loop of `mcast_snooping_run__()`.  It stops at the first group that has nothing to
expire, which is the first group that is not deleted. -/
def runGroups (now : ℤ) (maxEntries : ℕ) : List (McastGroup π) → List (McastGroup π)
  | [] => []
  | grp :: groups =>
    if maxEntries < (grp :: groups).length then runGroups now maxEntries groups
    else match pruneExpired now grp.bundleLru with
      | [] => runGroups now maxEntries groups
      | bundles@(_ :: _) => { grp with bundleLru := bundles } :: groups

def run (ms : McastSnooping π) (now : ℤ) : McastSnooping π :=
  { ms with
    groupLru := runGroups now ms.maxEntries ms.groupLru
    mrouterLru := ms.mrouterLru.dropWhile fun m => m.expires ≤ now
    needRevalidate := false }

def mdbFlush (ms : McastSnooping π) : McastSnooping π :=
  { ms with
    groupLru := []
    mrouterLru := []
    needRevalidate := ms.needRevalidate || !ms.groupLru.isEmpty }

def flush (ms : McastSnooping π) : McastSnooping π :=
  { ms.mdbFlush with
    fportList := []
    rportList := [] }

section Ports

variable [DecidableEq π]

def mrouterLookup (ms : McastSnooping π) (vlan : ℕ) (port : π) : Bool :=
  ms.mrouterLru.any fun m => m.key = (vlan, port)

/-- `mcast_group_insert_bundle()`. -/
def insertBundle (grp : McastGroup π) (port : π) (expires : ℤ) : McastGroup π :=
  { grp with bundleLru := Lru.touch (·.port) grp.bundleLru ⟨port, expires⟩ }

def addGroup (ms : McastSnooping π) (now : ℤ) (ip4 : BitVec 32) (vlan : ℕ) (port : π) :
    McastSnooping π :=
  if ms.mrouterLookup vlan port ∨ port ∈ ms.fportList then ms
  else match ms.lookup ip4 vlan with
    | none =>
      -- A full table loses the group that has not been used for the longest time.
      let groups := if ms.maxEntries ≤ ms.groupLru.length then ms.groupLru.tail else ms.groupLru
      { ms with
        groupLru := groups ++ [insertBundle ⟨ip4, vlan, []⟩ port (now + ms.idleTime)]
        needRevalidate := true }
    | some grp =>
      { ms with
        groupLru :=
          Lru.touch McastGroup.key ms.groupLru (insertBundle grp port (now + ms.idleTime)) }

/-- `mcast_group_delete_bundle()`. -/
def deleteBundle (grp : McastGroup π) (port : π) : McastGroup π :=
  { grp with bundleLru := grp.bundleLru.eraseP fun b => b.port = port }

def leaveGroup (ms : McastSnooping π) (ip4 : BitVec 32) (vlan : ℕ) (port : π) : McastSnooping π :=
  if port ∈ ms.rportList then ms
  else match ms.lookup ip4 vlan with
    | none => ms
    | some grp =>
      if port ∈ grp.ports then
        { ms with
          groupLru := ms.groupLru.map fun g => if g.key = grp.key then deleteBundle g port else g
          needRevalidate := true }
      else ms

def addMrouter (ms : McastSnooping π) (now : ℤ) (vlan : ℕ) (port : π) : McastSnooping π :=
  if port ∈ ms.fportList then ms
  else
    { ms with
      mrouterLru := Lru.touch MrouterBundle.key ms.mrouterLru
        ⟨vlan, port, now + mcastMrouterPortIdleTime⟩
      needRevalidate := ms.needRevalidate || !ms.mrouterLookup vlan port }

/-- `mcast_snooping_set_port_flood()`, or `mcast_snooping_set_port_flood_reports()`, on its list:
the list, and if it has changed. -/
def setPort (ports : List π) (port : π) (flood : Bool) : List π × Bool :=
  if flood ∧ port ∉ ports then (ports ++ [port], true)
  else if ¬flood ∧ port ∈ ports then (ports.erase port, true)
  else (ports, false)

def setPortFlood (ms : McastSnooping π) (port : π) (flood : Bool) : McastSnooping π :=
  { ms with
    fportList := (setPort ms.fportList port flood).1
    needRevalidate := ms.needRevalidate || (setPort ms.fportList port flood).2 }

def setPortFloodReports (ms : McastSnooping π) (port : π) (flood : Bool) : McastSnooping π :=
  { ms with
    rportList := (setPort ms.rportList port flood).1
    needRevalidate := ms.needRevalidate || (setPort ms.rportList port flood).2 }

end Ports

end McastSnooping

/-- The operations on a table. -/
inductive McastOp (π : Type) where
  | report (ip4 : BitVec 32) (vlan : ℕ) (port : π)
  | leave (ip4 : BitVec 32) (vlan : ℕ) (port : π)
  | query (vlan : ℕ) (port : π)
  | setPortFlood (port : π) (flood : Bool)
  | setPortFloodReports (port : π) (flood : Bool)
  | setIdleTime (idleTime : ℕ)
  | setMaxEntries (maxEntries : ℕ)
  | setFloodUnreg (enable : Bool)
  | run
  | mdbFlush
  | flush

/-- Perform an operation at some time. -/
def McastSnooping.step [DecidableEq π] (ms : McastSnooping π) (now : ℤ) :
    McastOp π → McastSnooping π
  | .report ip4 vlan port => ms.addGroup now ip4 vlan port
  | .leave ip4 vlan port => ms.leaveGroup ip4 vlan port
  | .query vlan port => ms.addMrouter now vlan port
  | .setPortFlood port flood => ms.setPortFlood port flood
  | .setPortFloodReports port flood => ms.setPortFloodReports port flood
  | .setIdleTime idleTime => ms.setIdleTime idleTime
  | .setMaxEntries maxEntries => ms.setMaxEntries maxEntries
  | .setFloodUnreg enable => ms.setFloodUnreg enable
  | .run => ms.run now
  | .mdbFlush => ms.mdbFlush
  | .flush => ms.flush

/-- An operation is clean if it makes no port a member, router, flood or report port that is already
in another list of the same packet. -/
def McastOp.Clean (ms : McastSnooping π) : McastOp π → Prop
  | .report _ vlan port => ∀ m ∈ ms.mrouterLru, m.port = port → m.vlan = vlan
  | .query vlan port =>
    (∀ m ∈ ms.mrouterLru, m.port = port → m.vlan = vlan) ∧
      (∀ grp ∈ ms.groupLru, port ∉ grp.ports) ∧ port ∉ ms.rportList
  | .setPortFlood port flood =>
    flood → port ∉ ms.mrouterPorts ∧ ∀ grp ∈ ms.groupLru, port ∉ grp.ports
  | .setPortFloodReports port flood => flood → port ∉ ms.mrouterPorts
  | _ => True

namespace McastSnooping

/-- No port is twice in a list, nor in two lists that a packet may be sent to.  Flood ports and
report ports may overlap, and so may members and report ports. -/
structure Separate (ms : McastSnooping π) : Prop where
  member : ∀ grp ∈ ms.groupLru, grp.ports.Nodup
  router : ms.mrouterPorts.Nodup
  fport : ms.fportList.Nodup
  rport : ms.rportList.Nodup
  member_router : ∀ grp ∈ ms.groupLru, grp.ports.Disjoint ms.mrouterPorts
  member_fport : ∀ grp ∈ ms.groupLru, grp.ports.Disjoint ms.fportList
  router_fport : ms.mrouterPorts.Disjoint ms.fportList
  router_rport : ms.mrouterPorts.Disjoint ms.rportList

lemma Separate.create : Separate (create : McastSnooping π) where
  member := by simp [McastSnooping.create]
  router := nodup_nil
  fport := nodup_nil
  rport := nodup_nil
  member_router := by simp [McastSnooping.create]
  member_fport := by simp [McastSnooping.create]
  router_fport := disjoint_nil_left _
  router_rport := disjoint_nil_left _

/-- The lists of `ms'` are parts of those of `ms`. -/
structure Within (ms' ms : McastSnooping π) : Prop where
  group : ∀ grp' ∈ ms'.groupLru, ∃ grp ∈ ms.groupLru,
    grp'.vlan = grp.vlan ∧ grp'.ports.Sublist grp.ports
  router : ms'.mrouterLru.Sublist ms.mrouterLru
  fport : ms'.fportList.Sublist ms.fportList
  rport : ms'.rportList.Sublist ms.rportList

variable {ms ms' : McastSnooping π} {groups : List (McastGroup π)}

/-- Entries that only went away cannot make two roles meet. -/
lemma Separate.of_within (h : Separate ms) (hw : Within ms' ms) : Separate ms' where
  member grp' hgrp' := by
    obtain ⟨grp, hgrp, -, hsub⟩ := hw.group grp' hgrp'
    exact (h.member grp hgrp).sublist hsub
  router := h.router.sublist (hw.router.map _)
  fport := h.fport.sublist hw.fport
  rport := h.rport.sublist hw.rport
  member_router grp' hgrp' := by
    obtain ⟨grp, hgrp, -, hsub⟩ := hw.group grp' hgrp'
    exact disjoint_of_subset_left hsub.subset
      (disjoint_of_subset_right (hw.router.map _).subset (h.member_router grp hgrp))
  member_fport grp' hgrp' := by
    obtain ⟨grp, hgrp, -, hsub⟩ := hw.group grp' hgrp'
    exact disjoint_of_subset_left hsub.subset
      (disjoint_of_subset_right hw.fport.subset (h.member_fport grp hgrp))
  router_fport := disjoint_of_subset_left (hw.router.map _).subset
    (disjoint_of_subset_right hw.fport.subset h.router_fport)
  router_rport := disjoint_of_subset_left (hw.router.map _).subset
    (disjoint_of_subset_right hw.rport.subset h.router_rport)

/-! ### Operations that only remove ports -/

/-- Expiry drops groups and ports of groups, and adds nothing. -/
lemma runGroups_within (now : ℤ) (maxEntries : ℕ) {grp' : McastGroup π}
    (h : grp' ∈ runGroups now maxEntries groups) :
    ∃ grp ∈ groups, grp'.vlan = grp.vlan ∧ grp'.ports.Sublist grp.ports := by
  induction groups with
  | nil => cases h
  | cons grp groups ih =>
    have hrest (h : grp' ∈ runGroups now maxEntries groups) :
        ∃ g ∈ grp :: groups, grp'.vlan = g.vlan ∧ grp'.ports.Sublist g.ports := by
      obtain ⟨g, hg, hsub⟩ := ih h
      exact ⟨g, mem_cons_of_mem _ hg, hsub⟩
    rw [runGroups] at h
    split at h
    case isTrue => exact hrest h
    case isFalse =>
      split at h
      case h_1 => exact hrest h
      case h_2 bundles b bs hbs =>
        rcases mem_cons.mp h with rfl | h
        · refine ⟨grp, mem_cons_self, rfl, ?_⟩
          rw [← hbs]
          exact (dropWhile_sublist _).map _
        · exact ⟨grp', mem_cons_of_mem _ h, rfl, Sublist.refl _⟩

/-- Operations that leave routers and configured ports alone, and change groups one by one. -/
lemma within_of_map {f : McastGroup π → McastGroup π}
    (hf : ∀ grp, (f grp).vlan = grp.vlan ∧ (f grp).ports.Sublist grp.ports)
    (hgroups : ms'.groupLru = ms.groupLru.map f) (hrouter : ms'.mrouterLru = ms.mrouterLru)
    (hfport : ms'.fportList = ms.fportList) (hrport : ms'.rportList = ms.rportList) :
    Within ms' ms where
  group grp' h := by
    rw [hgroups] at h
    obtain ⟨grp, hgrp, rfl⟩ := mem_map.mp h
    exact ⟨grp, hgrp, hf grp⟩
  router := by rw [hrouter]
  fport := by rw [hfport]
  rport := by rw [hrport]

variable (ms)

lemma within_run (now : ℤ) : Within (ms.run now) ms where
  group _ h := runGroups_within now ms.maxEntries h
  router := dropWhile_sublist _
  fport := Sublist.refl _
  rport := Sublist.refl _

lemma within_mdbFlush : Within ms.mdbFlush ms where
  group _ h := by cases h
  router := nil_sublist _
  fport := Sublist.refl _
  rport := Sublist.refl _

lemma within_flush : Within ms.flush ms where
  group _ h := by cases h
  router := nil_sublist _
  fport := nil_sublist _
  rport := nil_sublist _

lemma within_refl : Within ms ms :=
  within_of_map (fun _ => ⟨rfl, Sublist.refl _⟩) (map_id _).symm rfl rfl rfl

lemma within_setIdleTime (idleTime : ℕ) : Within (ms.setIdleTime idleTime) ms := by
  refine within_of_map (fun grp => ?_) rfl rfl rfl rfl
  refine ⟨rfl, ?_⟩
  rw [McastGroup.ports, map_map]
  exact Sublist.refl _

variable [DecidableEq π]

/-- Leaving a group takes one port out of it, and the group with its last port. -/
lemma within_leaveGroup (ip4 : BitVec 32) (vlan : ℕ) (port : π) :
    Within (ms.leaveGroup ip4 vlan port) ms := by
  unfold leaveGroup
  split
  · exact within_refl ms
  split
  · exact within_refl ms
  split
  case isTrue =>
    refine within_of_map (fun g => ?_) rfl rfl rfl rfl
    split
    · exact ⟨rfl, eraseP_sublist.map _⟩
    · exact ⟨rfl, Sublist.refl _⟩
  case isFalse => exact within_refl ms

variable {ms}

/-! ### Operations that add a port -/

variable {port : π} {now : ℤ} {vlan : ℕ} {flood : Bool}

/-- Which ports a list of configured ports has afterwards. -/
lemma mem_setPort {ports : List π} {p : π} (h : p ∈ (setPort ports port flood).1) :
    p ∈ ports ∨ p = port ∧ flood := by
  unfold setPort at h
  split at h
  case isTrue hc => simpa [hc.1] using h
  case isFalse =>
    split at h
    · exact .inl (mem_of_mem_erase h)
    · exact .inl h

lemma nodup_setPort {ports : List π} (h : ports.Nodup) (port : π) (flood : Bool) :
    (setPort ports port flood).1.Nodup := by
  unfold setPort
  split
  case isTrue hc => simpa [nodup_append, h] using fun a ha => ne_of_mem_of_not_mem ha hc.2
  case isFalse =>
    split
    · exact h.erase port
    · exact h

/-- A report is ignored, or makes its port a member of a group that was empty, or one of the
table's. -/
lemma addGroup_cases (ms : McastSnooping π) (now : ℤ) (ip4 : BitVec 32) (vlan : ℕ) (port : π) :
    ms.addGroup now ip4 vlan port = ms ∨
    ms.mrouterLookup vlan port = false ∧ port ∉ ms.fportList ∧ ∃ grp groups need,
      grp.vlan = vlan ∧ (grp ∈ ms.groupLru ∨ grp.ports = []) ∧
      (∀ g ∈ groups, g ∈ ms.groupLru ∨ g = insertBundle grp port (now + ms.idleTime)) ∧
      ms.addGroup now ip4 vlan port = { ms with groupLru := groups, needRevalidate := need } := by
  unfold addGroup
  split
  case isTrue => exact .inl rfl
  case isFalse hc =>
    obtain ⟨hlookup, hfport⟩ := not_or.mp hc
    refine .inr ⟨by simpa using hlookup, hfport, ?_⟩
    split
    case h_1 =>
      refine ⟨⟨ip4, vlan, []⟩, _, _, rfl, .inr rfl, fun g hg => ?_, rfl⟩
      rcases mem_append.mp hg with hg | hg
      · left
        split at hg
        · exact mem_of_mem_tail hg
        · exact hg
      · exact .inr (mem_singleton.mp hg)
    case h_2 grp hgrp =>
      obtain ⟨hin, hvlan⟩ := lookup_spec hgrp
      exact ⟨grp, _, _, hvlan, .inl hin, fun g hg => Lru.mem_touch hg, rfl⟩

section

variable (h : Separate ms)
include h

/-- A clean report enters a port that is in no list the members have to stay apart from. -/
lemma Separate.addGroup {ip4 : BitVec 32} (hclean : McastOp.Clean ms (.report ip4 vlan port)) :
    Separate (ms.addGroup now ip4 vlan port) := by
  obtain heq | ⟨hlookup, hfport, grp, groups, need, -, hgrp, hgroups, heq⟩ :=
    addGroup_cases ms now ip4 vlan port
  · rwa [heq]
  -- A router port of another VLAN would not have been noticed.
  have hrouter : port ∉ ms.mrouterPorts := by
    intro hmem
    obtain ⟨m, hm, hp⟩ := mem_map.mp hmem
    have hkey := any_eq_false.mp hlookup m hm
    simp [MrouterBundle.key, hp, hclean m hm hp] at hkey
  have hmem : ∀ p ∈ (insertBundle grp port (now + ms.idleTime)).ports,
      p ∈ grp.ports ∨ p = port := fun p hp => Lru.mem_map_touch hp
  have hall {P : List π → Prop} (hold : ∀ g ∈ ms.groupLru, P g.ports) (hnil : P [])
      (hnew : P grp.ports → P (insertBundle grp port (now + ms.idleTime)).ports) :
      ∀ g ∈ groups, P g.ports := by
    intro g hg
    rcases hgroups g hg with hg | rfl
    · exact hold g hg
    · exact hnew (hgrp.elim (hold grp) fun hempty => hempty ▸ hnil)
  rw [heq]
  exact
    { h with
      member := hall h.member nodup_nil Lru.nodup_touch
      member_router := hall (P := (·.Disjoint _)) h.member_router (disjoint_nil_left _)
        fun hold p hp hr => (hmem p hp).elim (hold · hr) fun e => hrouter (e ▸ hr)
      member_fport := hall (P := (·.Disjoint _)) h.member_fport (disjoint_nil_left _)
        fun hold p hp hf => (hmem p hp).elim (hold · hf) fun e => hfport (e ▸ hf) }

/-- A clean query enters a port that is in no list the routers have to stay apart from. -/
lemma Separate.addMrouter (hclean : McastOp.Clean ms (.query vlan port)) :
    Separate (ms.addMrouter now vlan port) := by
  unfold McastSnooping.addMrouter
  split
  case isTrue => exact h
  case isFalse hfport =>
    obtain ⟨hrouter, hmember, hrport⟩ := hclean
    -- The port is a router port of this VLAN only, so it is the key as well.
    have htouch : Lru.touch MrouterBundle.key ms.mrouterLru
        ⟨vlan, port, now + mcastMrouterPortIdleTime⟩ =
        Lru.touch (·.port) ms.mrouterLru ⟨vlan, port, now + mcastMrouterPortIdleTime⟩ := by
      refine Lru.touch_congr fun m hm => ?_
      simp only [MrouterBundle.key, Prod.mk.injEq, and_iff_right_iff_imp]
      exact hrouter m hm
    have hmem : ∀ p ∈ (Lru.touch (·.port) ms.mrouterLru
        ⟨vlan, port, now + mcastMrouterPortIdleTime⟩).map (·.port),
        p ∈ ms.mrouterPorts ∨ p = port := fun p hp => Lru.mem_map_touch hp
    rw [htouch]
    exact
      { h with
        router := Lru.nodup_touch h.router
        member_router := fun grp hgrp p hp hr =>
          (hmem p hr).elim (h.member_router grp hgrp hp) fun e => hmember grp hgrp (e ▸ hp)
        router_fport := fun p hr hf =>
          (hmem p hr).elim (h.router_fport · hf) fun e => hfport (e ▸ hf)
        router_rport := fun p hr hp =>
          (hmem p hr).elim (h.router_rport · hp) fun e => hrport (e ▸ hp) }

lemma Separate.setPortFlood (hclean : McastOp.Clean ms (.setPortFlood port flood)) :
    Separate (ms.setPortFlood port flood) :=
  { h with
    fport := nodup_setPort h.fport port flood
    member_fport := fun grp hgrp p hp hf => by
      rcases mem_setPort hf with hf | ⟨rfl, hflood⟩
      · exact h.member_fport grp hgrp hp hf
      · exact (hclean hflood).2 grp hgrp hp
    router_fport := fun p hp hf => by
      rcases mem_setPort hf with hf | ⟨rfl, hflood⟩
      · exact h.router_fport hp hf
      · exact (hclean hflood).1 hp }

lemma Separate.setPortFloodReports (hclean : McastOp.Clean ms (.setPortFloodReports port flood)) :
    Separate (ms.setPortFloodReports port flood) :=
  { h with
    rport := nodup_setPort h.rport port flood
    router_rport := fun p hp hr => by
      rcases mem_setPort hr with hr | ⟨rfl, hflood⟩
      · exact h.router_rport hp hr
      · exact hclean hflood hp }

/-- **A clean operation keeps the lists separate.** -/
lemma Separate.step {op : McastOp π} (hclean : op.Clean ms) : Separate (ms.step now op) := by
  cases op with
  | report ip4 vlan port => exact h.addGroup hclean
  | leave ip4 vlan port => exact h.of_within (within_leaveGroup ms ip4 vlan port)
  | query vlan port => exact h.addMrouter hclean
  | setPortFlood port flood => exact h.setPortFlood hclean
  | setPortFloodReports port flood => exact h.setPortFloodReports hclean
  | setIdleTime idleTime => exact h.of_within (within_setIdleTime ms idleTime)
  | setMaxEntries | setFloodUnreg => exact { h with }
  | run => exact h.of_within (within_run ms now)
  | mdbFlush => exact h.of_within (within_mdbFlush ms)
  | flush => exact h.of_within (within_flush ms)

end

/-- All members and routers, with the VLAN they have been learned in, have a property. -/
structure All (P : π → ℕ → Prop) (ms : McastSnooping π) : Prop where
  member : ∀ grp ∈ ms.groupLru, ∀ p ∈ grp.ports, P p grp.vlan
  router : ∀ m ∈ ms.mrouterLru, P m.port m.vlan

variable {P : π → ℕ → Prop}

omit [DecidableEq π] in
lemma All.of_within (h : All P ms) (hw : Within ms' ms) : All P ms' where
  member grp' hgrp' p hp := by
    obtain ⟨grp, hgrp, hvlan, hsub⟩ := hw.group grp' hgrp'
    exact hvlan ▸ h.member grp hgrp p (hsub.subset hp)
  router m hm := h.router m (hw.router.subset hm)

/-- A report enters one port with one VLAN, which have to meet the condition. -/
lemma All.addGroup (h : All P ms) {ip4 : BitVec 32} (hport : P port vlan) :
    All P (ms.addGroup now ip4 vlan port) := by
  obtain heq | ⟨-, -, grp, groups, need, hvlan, hgrp, hgroups, heq⟩ :=
    addGroup_cases ms now ip4 vlan port
  · rwa [heq]
  rw [heq]
  refine ⟨fun g hg p hp => ?_, h.router⟩
  rcases hgroups g hg with hg | rfl
  · exact h.member g hg p hp
  · rcases Lru.mem_map_touch hp with hp | rfl
    · rcases hgrp with hgrp | hempty
      · exact h.member grp hgrp p hp
      · exact absurd (show p ∈ grp.ports from hp) (by simp [hempty])
    · exact hvlan.symm ▸ hport

/-- And so does a query. -/
lemma All.addMrouter (h : All P ms) (hport : P port vlan) :
    All P (ms.addMrouter now vlan port) := by
  unfold McastSnooping.addMrouter
  split
  case isTrue => exact h
  case isFalse =>
    refine ⟨h.member, fun m hm => ?_⟩
    rcases Lru.mem_touch hm with hm | rfl
    · exact h.router m hm
    · exact hport

end McastSnooping

end Xlate

end OVS
