import OpenVSwitch.Xlate.Normal

/-!
# Where the NORMAL action sends packets

**VLANs.** Flooding looks at the VLANs of each bundle, but a bundle that comes from a table has been
learned from some earlier packet.  What is learned is a port *in a VLAN* that its bundle carries
(`Carried`), in every run of packets.  That is enough for destination addresses and for the members
of groups.  It is not for router ports, which get packets of all VLANs, nor for the configured flood
and report ports.

**Duplicates.**  A multicast packet is sent to several lists of ports.  Its copies go to different
bundles if these lists are separate, which holds after any operations that are clean.

* `normal_vlan_isolation`, with `normal_vlan_leak` for what can happen otherwise.
* `normal_no_duplicates`, with `normal_duplicates`.
-/

namespace OVS

namespace Xlate

open List McastSnooping MacLearning Option

/-! ## Lookups -/

variable {br : XBridge} {b inBundle : XBundle} {ports : List ℕ} {f : Flow} {ms : McastSnooping ℕ}
  {vlan : ℕ}

lemma ofbundle_of_lookup {p : ℕ} (h : br.xbundleLookup p = some b) : b.ofbundle = some p := by
  have := find?_some h
  simpa using this

/-- A list of ports is never answered with the bundle the packet came from. -/
lemma ne_of_mem_sendTo (h : b ∈ sendTo br inBundle ports) : b.ofbundle ≠ inBundle.ofbundle := by
  simpa using (mem_filter.mp h).2

lemma exists_of_mem_sendTo (h : b ∈ sendTo br inBundle ports) :
    ∃ p ∈ ports, br.xbundleLookup p = some b :=
  mem_filterMap.mp (mem_filter.mp h).1

/-- A flood reaches other bundles only, and those that carry the VLAN. -/
lemma of_mem_flood (h : b ∈ xlateNormalFlood br inBundle vlan) :
    b.ofbundle ≠ inBundle.ofbundle ∧ b.includesVlan vlan := by
  have := (mem_filter.mp h).2
  simp only [Bool.and_eq_true, decide_eq_true_eq] at this
  exact ⟨this.1.1.1, this.1.1.2⟩

/-- The bundle of a packet is a bundle of the bridge, or `ofpp_none_bundle`. -/
lemma lookupInputBundle_cases {inPort : BitVec 16} (h : (lookupInputBundle br inPort).1 = some b) :
    (∃ p, br.xbundleLookup p = some b) ∨ b = ofppNoneBundle := by
  unfold lookupInputBundle at h
  dsimp only at h
  split at h
  case h_1 b' hb' =>
    cases h
    obtain ⟨xport, -, hx⟩ := bind_eq_some_iff.mp hb'
    obtain ⟨p, -, hp⟩ := bind_eq_some_iff.mp hx
    exact .inl ⟨p, hp⟩
  case h_2 =>
    split at h
    · exact .inr (some.inj h).symm
    · cases h

lemma ofppNoneBundle_includesVlan : ofppNoneBundle.includesVlan vlan := by
  simp [XBundle.includesVlan, XBundle.trunksVlan, ofppNoneBundle]

/-- The inversion of `inputVlan`. -/
lemma inputVlan_spec (h : inputVlan br f = some (b, vlan)) :
    (lookupInputBundle br ((f .inPort).setWidth 16)).1 = some b ∧
      inputVidIsValid (vlanTciToVid (f .vlanTci)) b ∧
      vlan = inputVidToVlan b (vlanTciToVid (f .vlanTci)) := by
  unfold inputVlan at h
  split at h
  case h_1 => cases h
  case h_2 inBundle hin =>
    dsimp only at h
    split_ifs at h with h1 h2 h3
    cases h
    exact ⟨hin, by simpa using h3, rfl⟩

/-- The input bundle carries the VLAN of its packet. -/
lemma inputVlan_includesVlan (h : inputVlan br f = some (b, vlan)) : b.includesVlan vlan := by
  obtain ⟨hin, hvalid, rfl⟩ := inputVlan_spec h
  rcases lookupInputBundle_cases hin with ⟨p, hp⟩ | rfl
  · have hsome : b.ofbundle ≠ none := by rw [ofbundle_of_lookup hp]; exact some_ne_none p
    have hnative : b.vlanMode ≠ .trunk → b.includesVlan b.vlan.toNat := by
      intro hne
      simp [XBundle.includesVlan, (b.vlan_valid hne).1]
    unfold inputVidIsValid at hvalid
    unfold inputVidToVlan
    cases hmode : b.vlanMode with
    | access => exact hnative (by simp [hmode])
    | trunk => simpa [hsome, hmode] using hvalid
    | nativeTagged | nativeUntagged =>
      dsimp only
      split
      case isTrue hvid => simpa [hsome, hmode, hvid] using hvalid
      case isFalse => exact hnative (by simp [hmode])
  · exact ofppNoneBundle_includesVlan

/-- The bundle of a port, if there is one, carries a VLAN. -/
def Carries (br : XBridge) (p : ℕ) (vlan : ℕ) : Prop :=
  ∀ b, br.xbundleLookup p = some b → b.includesVlan vlan

/-! ### Learning addresses -/

/-- All entries, with the VLAN they have been learned in, have a property. -/
def MacLearning.All (P : ℕ → ℕ → Prop) (ml : MacLearning) : Prop :=
  ∀ e ∈ ml.lrus, ∀ p, e.port = some p → P p e.vlan

section Mac

variable {P : ℕ → ℕ → Prop} {ml : MacLearning}

/-- An entry found for an address and a VLAN is in the table with that VLAN. -/
lemma MacLearning.entryLookup_spec {mac : BitVec 48} {e : MacEntry}
    (h : ml.entryLookup mac vlan = some e) : e ∈ ml.lrus ∧ e.vlan = vlan := by
  have hkey := find?_some h
  simp only [MacEntry.key, Prod.mk.injEq, decide_eq_true_eq] at hkey
  exact ⟨mem_of_find?_eq_some h, hkey.2⟩

/-- Storing an entry is allowed when its own port meets the condition. -/
lemma MacLearning.All.store (h : ml.All P) {e : MacEntry}
    (he : ∀ p, e.port = some p → P p e.vlan) : (ml.store e).All P := by
  intro e' he'
  rcases Lru.mem_touch he' with he' | rfl
  · exact h e' he'
  · exact he

/-- A new entry has no port yet, so inserting it, with an eviction if the table is full, is
harmless. -/
lemma MacLearning.All.insert (h : ml.All P) (heapMax : ℕ) (now : ℤ) (srcMac : BitVec 48)
    (vlan : ℕ) : (ml.insert heapMax now srcMac vlan).1.All P ∧
      (ml.insert heapMax now srcMac vlan).2.vlan = vlan := by
  unfold MacLearning.insert
  split
  case h_1 =>
    refine ⟨MacLearning.All.store ?_ nofun, rfl⟩
    split
    · exact fun e he => h e (mem_of_mem_eraseP he)
    · exact h
  case h_2 e he =>
    obtain ⟨hin, hvlan⟩ := entryLookup_spec he
    exact ⟨h.store (h e hin), hvlan⟩

lemma MacLearning.All.run (h : ml.All P) (now : ℤ) : (ml.run now).All P := by
  have hsub : ∀ lrus, (runFrom now ml.maxEntries lrus).Sublist lrus := by
    intro lrus
    induction lrus with
    | nil => exact Sublist.refl _
    | cons e lrus ih =>
      rw [runFrom]
      split
      · exact ih.cons e
      · exact Sublist.refl _
  exact fun e he => h e ((hsub _).subset he)

/-- Learning writes the port the packet came from, with the VLAN it came in. -/
lemma MacLearning.All.update (h : ml.All P) (x : Packet) (wc : Wildcards) {inBundle : XBundle}
    (hin : ∀ p, inBundle.ofbundle = some p → P p vlan) :
    (updateLearningTable ml x wc vlan inBundle).1.All P := by
  have hlocked : ∀ wc, (updateLearningTableLocked ml x wc vlan inBundle).1.All P := by
    intro wc
    obtain ⟨hins, hvlan⟩ := h.insert x.heapMax x.now (x.flow .dlSrc) vlan
    unfold updateLearningTableLocked
    split
    · exact h
    · dsimp only
      split
      · exact hins
      · refine MacLearning.All.store hins fun p hp => ?_
        split <;> exact hvlan.symm ▸ hin p hp
  unfold updateLearningTable
  dsimp only
  split
  · exact h
  · split
    · exact hlocked _
    · exact h

end Mac

/-! ### Steps and runs -/

/-- Everything in the tables has been learned in a VLAN that its bundle carries. -/
structure Carried (br : XBridge) (t : Tables) : Prop where
  mac : t.ml.All (Carries br)
  mcast : ∀ ms, t.ms = some ms → ms.All (Carries br)

/-- What happens to the tables of a bridge: a packet comes in, or entries expire. -/
inductive NormalEvent where
  | packet (x : Packet)
  | expire (now : ℤ)

/-- The tables after an event. -/
def Tables.step (br : XBridge) (t : Tables) : NormalEvent → Tables
  | .packet x => (xlateNormal br t x (initialWildcards x.flow)).tables
  | .expire now => ⟨t.ml.run now, t.ms.map (·.run now)⟩

/-- The tables that runs from empty tables lead to.  Flood ports, report ports and settings are as
they may be. -/
inductive Reachable (br : XBridge) : Tables → Prop where
  | init {t : Tables} (hml : t.ml.lrus = [])
      (hms : ∀ ms, t.ms = some ms → ms.groupLru = [] ∧ ms.mrouterLru = []) : Reachable br t
  | step {t : Tables} (h : Reachable br t) (event : NormalEvent) : Reachable br (t.step br event)

variable {br : XBridge} {t : Tables} {x : Packet} {wc : Wildcards} {inBundle : XBundle} {vlan : ℕ}
  {ml : MacLearning}

/-- The port of a bundle of the bridge carries what the bundle carries. -/
lemma carries_of_inputVlan (h : inputVlan br f = some (inBundle, vlan)) :
    ∀ p, inBundle.ofbundle = some p → Carries br p vlan := by
  intro p hp b hb
  rcases lookupInputBundle_cases (inputVlan_spec h).1 with ⟨q, hq⟩ | rfl
  · obtain rfl : q = p := some.inj ((ofbundle_of_lookup hq).symm.trans hp)
    cases hq.symm.trans hb
    exact inputVlan_includesVlan h
  · cases hp

/-- The snooping table is left alone, or an IGMP packet from a port changes it. -/
lemma snoop_cases (br : XBridge) (ms : McastSnooping ℕ) (x : Packet) (vlan : ℕ)
    (inBundle : XBundle) : snoop br ms x vlan inBundle = ms ∨
      ∃ p op, inBundle.ofbundle = some p ∧ isIgmpUpdate x ∧
        snoopingOp br ms x.flow vlan inBundle = some op ∧ igmpOp x.flow vlan p = some op ∧
        snoop br ms x vlan inBundle = ms.step x.now op := by
  unfold snoop updateMcastSnoopingTable
  split
  case isFalse => exact .inl rfl
  case isTrue hupdate =>
    cases hs : snoopingOp br ms x.flow vlan inBundle with
    | none => exact .inl rfl
    | some op =>
      have hop := hs
      unfold snoopingOp at hop
      split at hop
      case h_1 => cases hop
      case h_2 p hp =>
        split_ifs at hop
        exact .inr ⟨p, op, hp, hupdate, rfl, hop, rfl⟩

/-- Snooping enters the port of a packet under the VLAN of the packet, which the port carries. -/
lemma Carried.snoop (h : ms.All (Carries br))
    (hin : ∀ p, inBundle.ofbundle = some p → Carries br p vlan) (x : Packet) :
    (Xlate.snoop br ms x vlan inBundle).All (Carries br) := by
  obtain heq | ⟨p, op, hp, -, -, hop, heq⟩ := snoop_cases br ms x vlan inBundle
  · rwa [heq]
  rw [heq]
  unfold igmpOp at hop
  split_ifs at hop <;> cases hop
  · exact h.addGroup (hin p hp)
  · exact h.of_within (within_leaveGroup ..)
  · exact h.addMrouter (hin p hp)

lemma sendTo_append (br : XBridge) (ports' : List ℕ) : sendTo br inBundle (ports ++ ports') =
      sendTo br inBundle ports ++ sendTo br inBundle ports' := by
  rw [sendTo, filterMap_append, filter_append, sendTo, sendTo]

/-- Where a multicast packet can go: everywhere, or to the ports of one list after the other. -/
inductive McastCase (br : XBridge) (ms : McastSnooping ℕ) (inBundle : XBundle) (vlan : ℕ)
    (outputs : List XBundle) : Prop where
  | flood (h : outputs = xlateNormalFlood br inBundle vlan)
  | reports (h : outputs = sendTo br inBundle (ms.mrouterPorts ++ ms.rportList))
  | group (grp : McastGroup ℕ) (hgrp : grp ∈ ms.groupLru) (hvlan : grp.vlan = vlan)
      (h : outputs = sendTo br inBundle (grp.ports ++ ms.fportList ++ ms.mrouterPorts))
  | unregistered (h : outputs = sendTo br inBundle (ms.mrouterPorts ++ ms.fportList))

/-- A multicast packet goes to the members of its group, to routers, to flood ports or to all. -/
lemma xlateNormalMcast_cases (br : XBridge) (ms : McastSnooping ℕ) (f : Flow) (inBundle : XBundle)
    (vlan : ℕ) : McastCase br ms inBundle vlan (xlateNormalMcast br ms f inBundle vlan) := by
  unfold xlateNormalMcast
  split
  · split
    · exact .reports (sendTo_append ..).symm
    · exact .flood rfl
  · split
    · exact .flood rfl
    · split
      case h_1 grp hgrp =>
        obtain ⟨hin, hvlan⟩ := lookup_spec hgrp
        refine .group grp hin hvlan ?_
        rw [sendTo_append, sendTo_append]
      case h_2 =>
        split
        · exact .flood rfl
        · exact .unregistered (sendTo_append ..).symm

/-- What `xlate_normal()` can do with a packet: drop it, look up its destination address, or send it
to the ports of the snooping table. -/
inductive NormalCase (br : XBridge) (t : Tables) (x : Packet) : NormalResult → Prop where
  | dropped (wc : Wildcards) : NormalCase br t x ⟨[], t, wc⟩
  | unicast {inBundle : XBundle} {vlan : ℕ} (wc : Wildcards)
      (hin : inputVlan br x.flow = some (inBundle, vlan)) :
      NormalCase br t x ⟨xlateNormalUnicast br (learn t.ml x wc vlan inBundle).1 x.flow inBundle
        vlan, ⟨(learn t.ml x wc vlan inBundle).1, t.ms⟩, (learn t.ml x wc vlan inBundle).2⟩
  | mcast {inBundle : XBundle} {vlan : ℕ} {ms : McastSnooping ℕ} (wc : Wildcards)
      (hin : inputVlan br x.flow = some (inBundle, vlan)) (hms : t.ms = some ms)
      (hx : isSnooped x.flow) :
      NormalCase br t x ⟨xlateNormalMcast br (snoop br ms x vlan inBundle) x.flow inBundle vlan,
        ⟨(learn t.ml x wc vlan inBundle).1, some (snoop br ms x vlan inBundle)⟩,
        (learn t.ml x wc vlan inBundle).2⟩

/-- The ways a packet goes through the normal action, with the tables and the outputs of each. -/
lemma xlateNormal_cases (br : XBridge) (t : Tables) (x : Packet) (wc : Wildcards) :
    NormalCase br t x (xlateNormal br t x wc) := by
  unfold xlateNormal
  split
  case h_1 => exact .dropped _
  case h_2 inBundle vlan hin =>
    unfold xlateNormalFrom
    dsimp only
    split
    case isTrue => exact .dropped _
    case isFalse =>
      split
      case h_1 hms => exact hms ▸ .unicast _ hin
      case h_2 ms hms =>
        split
        case isTrue hx => exact .mcast _ hin hms hx
        case isFalse => exact hms ▸ .unicast _ hin

lemma Carried.learn (h : Carried br t) (hin : ∀ p, inBundle.ofbundle = some p → Carries br p vlan)
    (x : Packet) (wc : Wildcards) : (learn t.ml x wc vlan inBundle).1.All (Carries br) := by
  unfold Xlate.learn
  split
  · exact h.mac.update x wc hin
  · exact h.mac

/-- An event keeps the tables as they should be. -/
lemma Carried.step (h : Carried br t) (event : NormalEvent) : Carried br (t.step br event) := by
  cases event with
  | packet x =>
    have hcase := xlateNormal_cases br t x (initialWildcards x.flow)
    rw [Tables.step]
    generalize xlateNormal br t x (initialWildcards x.flow) = r at hcase ⊢
    cases hcase with
    | dropped wc => exact h
    | unicast wc hin => exact ⟨h.learn (carries_of_inputVlan hin) x wc, h.mcast⟩
    | mcast wc hin hms hx =>
      refine ⟨h.learn (carries_of_inputVlan hin) x wc, fun ms' hms' => ?_⟩
      cases hms'
      exact Carried.snoop (h.mcast _ hms) (carries_of_inputVlan hin) x
  | expire now =>
    refine ⟨h.mac.run now, fun ms' hms' => ?_⟩
    obtain ⟨ms, hms, rfl⟩ := map_eq_some_iff.mp hms'
    exact (h.mcast ms hms).of_within (within_run ms now)

/-- Every run keeps the tables as they should be. -/
lemma Reachable.carried (h : Reachable br t) : Carried br t := by
  induction h with
  | init hml hms =>
    refine ⟨fun e he => ?_, fun ms h => ⟨?_, ?_⟩⟩
    · rw [hml] at he
      cases he
    · rw [(hms ms h).1]
      exact nofun
    · rw [(hms ms h).2]
      exact nofun
  | step _ event ih => exact ih.step event

/-! ## VLAN isolation -/

/-- The ports that get packets whatever their VLAN is carry a VLAN: the router ports of other
VLANs, the flood ports and the report ports. -/
structure PortsCarry (br : XBridge) (ms : McastSnooping ℕ) (vlan : ℕ) : Prop where
  router : ∀ m ∈ ms.mrouterLru, m.vlan ≠ vlan → Carries br m.port vlan
  fport : ∀ p ∈ ms.fportList, Carries br p vlan
  rport : ∀ p ∈ ms.rportList, Carries br p vlan

/-- An IGMP packet changes no configured port, and makes a port a router port of its own VLAN. -/
lemma PortsCarry.snoop (h : PortsCarry br ms vlan) (x : Packet) (inBundle : XBundle) :
    PortsCarry br (snoop br ms x vlan inBundle) vlan := by
  obtain heq | ⟨p, op, -, -, -, hop, heq⟩ := snoop_cases br ms x vlan inBundle
  · rwa [heq]
  rw [heq]
  unfold igmpOp at hop
  split_ifs at hop <;> cases hop
  · rw [step]
    obtain heq | ⟨-, -, _, _, _, -, -, -, heq⟩ :=
      addGroup_cases ms x.now (x.flow .igmpGroupIp4) vlan p
    · rwa [heq]
    · exact heq ▸ { h with }
  · rw [step, leaveGroup]
    split
    · exact h
    split
    · exact h
    split <;> exact { h with }
  · rw [step, addMrouter]
    split
    · exact h
    refine ⟨fun m hm hv => ?_, h.fport, h.rport⟩
    rcases Lru.mem_touch hm with hm | rfl
    · exact h.router m hm hv
    · exact absurd rfl hv

/-- Ports that carry the VLAN are turned into bundles that carry it, without the packet's own. -/
lemma of_mem_sendTo (h : ∀ p ∈ ports, Carries br p vlan) (hb : b ∈ sendTo br inBundle ports) :
    b.ofbundle ≠ inBundle.ofbundle ∧ b.includesVlan vlan := by
  obtain ⟨p, hp, hlookup⟩ := exists_of_mem_sendTo hb
  exact ⟨ne_of_mem_sendTo hb, h p hp b hlookup⟩

/-- A learned port carries the VLAN it was learned with; without one the packet is flooded. -/
lemma of_mem_unicast (h : ml.All (Carries br)) (hb : b ∈ xlateNormalUnicast br ml f inBundle vlan) :
    b.ofbundle ≠ inBundle.ofbundle ∧ b.includesVlan vlan := by
  unfold xlateNormalUnicast at hb
  split at hb
  case h_1 macPort hport =>
    obtain ⟨e, he, hpe⟩ := bind_eq_some_iff.mp hport
    obtain ⟨hmem, hvlan⟩ : e ∈ ml.lrus ∧ e.vlan = vlan := by
      unfold MacLearning.lookup at he
      split_ifs at he
      exact entryLookup_spec he
    refine of_mem_sendTo (fun p hp => ?_) hb
    rw [mem_singleton.mp hp]
    exact hvlan ▸ h e hmem macPort hpe
  case h_2 => exact of_mem_flood hb

/-- The members of a group carry its VLAN, and so must the ports that are configured to flood. -/
lemma of_mem_mcast (h : ms.All (Carries br)) (hports : PortsCarry br ms vlan)
    (hb : b ∈ xlateNormalMcast br ms f inBundle vlan) :
    b.ofbundle ≠ inBundle.ofbundle ∧ b.includesVlan vlan := by
  have hrouter : ∀ p ∈ ms.mrouterPorts, Carries br p vlan := by
    intro p hp
    obtain ⟨m, hm, rfl⟩ := mem_map.mp hp
    by_cases hv : m.vlan = vlan
    · exact hv ▸ h.router m hm
    · exact hports.router m hm hv
  cases xlateNormalMcast_cases br ms f inBundle vlan with
  | flood he => exact of_mem_flood (he ▸ hb)
  | reports he =>
    exact of_mem_sendTo (forall_mem_append.mpr ⟨hrouter, hports.rport⟩) (he ▸ hb)
  | group grp hgrp hvlan he =>
    have hmember : ∀ p ∈ grp.ports, Carries br p vlan := hvlan ▸ h.member grp hgrp
    exact of_mem_sendTo (forall_mem_append.mpr ⟨forall_mem_append.mpr ⟨hmember, hports.fport⟩,
      hrouter⟩) (he ▸ hb)
  | unregistered he =>
    exact of_mem_sendTo (forall_mem_append.mpr ⟨hrouter, hports.fport⟩) (he ▸ hb)

/-- **A packet stays in its VLAN.**  After any run of packets, each bundle on which a packet is
output is another one than its input bundle, and it carries the VLAN that the packet belongs to, if
the router ports of other VLANs, the flood ports and the report ports carry that VLAN. -/
theorem normal_vlan_isolation (br : XBridge) (t : Tables) (hreach : Reachable br t) (x : Packet)
    (wc : Wildcards) (inBundle : XBundle) (vlan : ℕ)
    (hin : inputVlan br x.flow = some (inBundle, vlan))
    (hports : isSnooped x.flow → ∀ ms, t.ms = some ms → PortsCarry br ms vlan) :
    ∀ b ∈ (xlateNormal br t x wc).outputs,
      b.ofbundle ≠ inBundle.ofbundle ∧ b.includesVlan vlan := by
  have hcarried := hreach.carried
  have hcase := xlateNormal_cases br t x wc
  generalize xlateNormal br t x wc = r at hcase
  intro b hb
  cases hcase with
  | dropped wc => cases hb
  | unicast wc hin' =>
    cases hin.symm.trans hin'
    exact of_mem_unicast (hcarried.learn (carries_of_inputVlan hin) x wc) hb
  | mcast wc hin' hms hx =>
    cases hin.symm.trans hin'
    exact of_mem_mcast (Carried.snoop (hcarried.mcast _ hms) (carries_of_inputVlan hin) x)
      ((hports hx _ hms).snoop x inBundle) hb

/-- A bundle of one port, which has the number of the bundle. -/
def plainBundle (i : ℕ) (vlanMode : VlanMode) (vlan : ℤ)
    (h : vlanMode ≠ .trunk → 0 ≤ vlan ∧ vlan < 4096) : XBundle :=
  { ofbundle := some i, vlanMode := vlanMode, vlan := vlan, trunks := none,
    usePriorityTags := false, floodable := true, bond := false, mirrorOut := false,
    xports := [BitVec.ofNat 16 i], vlan_valid := h }

lemma trunk_valid : VlanMode.trunk ≠ .trunk → 0 ≤ (-1 : ℤ) ∧ (-1 : ℤ) < 4096 := by decide

/-- Two access ports for different VLANs and a trunk port. -/
def twoVlans : XBridge :=
  { xbundles := [plainBundle 1 .access 10 (by decide), plainBundle 2 .access 20 (by decide),
      plainBundle 3 .trunk (-1) trunk_valid]
    xports := fun p => some
      { xbundle := some p.toNat, odpPort := some (p.setWidth 32), noFwd := false,
        forwardsBpdu := true, forwards := true }
    forwardBpdu := false
    nodup := by decide
    named := by decide }

/-- An IGMP packet of some type, with an 802.1Q header unless its tag is zero, for the group
224.1.1.1. -/
def igmpFlow (inPort tag igmpType : ℕ) : Flow
  | .inPort => BitVec.ofNat 32 inPort
  | .dlDst => 0x01005e010101
  | .dlSrc => BitVec.ofNat 48 inPort
  | .dlType => ethTypeIp
  | .vlanTci => if tag = 0 then 0 else BitVec.ofNat 16 tag ||| vlanCfi
  | .nwSrc => 0x0a000001
  | .nwDst => 0xe0010101
  | .nwProto => ipprotoIgmp
  | .tpSrc => BitVec.ofNat 16 igmpType
  | .igmpGroupIp4 => 0xe0010101
  | x => 0#x.bits

/-- Such a packet at time zero. -/
def igmpPacket (inPort tag igmpType : ℕ) : Packet :=
  { flow := igmpFlow inPort tag igmpType, mayLearn := true, now := 0, verdict := .accept,
    heapMax := 0 }

/-- Empty tables with the default settings. -/
def emptyTables : Tables :=
  { ml := ⟨[], none, 300, 2048, false⟩, ms := some McastSnooping.create }

lemma reachable_query (inPort tag : ℕ) :
    Reachable twoVlans (emptyTables.step twoVlans (.packet (igmpPacket inPort tag 0x11))) := by
  refine .step (.init rfl fun ms hms => ?_) _
  cases hms
  exact ⟨rfl, rfl⟩

theorem normal_vlan_isolation_report :
    (xlateNormal twoVlans (emptyTables.step twoVlans (.packet (igmpPacket 3 20 0x11)))
      (igmpPacket 1 0 0x16) Flow.zero).outputs.all
        fun b => b.ofbundle ≠ some 1 ∧ b.includesVlan 10 := by
  refine all_eq_true.mpr fun b hb => decide_eq_true ?_
  refine normal_vlan_isolation twoVlans _ (reachable_query 3 20) (igmpPacket 1 0 0x16) Flow.zero
    (plainBundle 1 .access 10 (by decide)) 10 rfl (fun _ ms hms => ?_) b hb
  obtain ⟨hr, hf, hp⟩ : ms.mrouterLru = [⟨20, 3, 180⟩] ∧ ms.fportList = [] ∧ ms.rportList = [] := by
    cases hms
    exact ⟨rfl, rfl, rfl⟩
  refine ⟨fun m hm _ b hb => ?_, by simp [hf], by simp [hp]⟩
  rw [hr, mem_singleton] at hm
  rw [hm] at hb
  cases hb
  decide

/-- **A membership report leaves its VLAN.**  The port of VLAN 20 has become a router port by a
query.  It then gets the report that comes in from VLAN 10, which it does not carry. -/
theorem normal_vlan_leak :
    Reachable twoVlans (emptyTables.step twoVlans (.packet (igmpPacket 2 0 0x11))) ∧
    inputVlan twoVlans (igmpPacket 1 0 0x16).flow =
      some (plainBundle 1 .access 10 (by decide), 10) ∧
    ∃ b ∈ (xlateNormal twoVlans (emptyTables.step twoVlans (.packet (igmpPacket 2 0 0x11)))
      (igmpPacket 1 0 0x16) Flow.zero).outputs, ¬b.includesVlan 10 := by
  refine ⟨reachable_query 2 0, rfl, plainBundle 2 .access 20 (by decide), ?_, by decide⟩
  exact mem_cons_self

/-! ## No duplicates -/

/-- A list without duplicates is sent to without duplicates. -/
lemma nodup_sendTo (h : ports.Nodup) :
    ((sendTo br inBundle ports).map (·.ofbundle)).Nodup := by
  have hlookup : ((ports.filterMap br.xbundleLookup).map (·.ofbundle)).Sublist
      (ports.map some) := by
    clear h
    induction ports with
    | nil => exact Sublist.refl _
    | cons p ports ih =>
      rw [filterMap_cons]
      cases hp : br.xbundleLookup p with
      | none => exact ih.cons _
      | some b =>
        rw [map_cons, ofbundle_of_lookup hp]
        exact ih.cons_cons _
  exact (h.map (some_injective ℕ)).sublist ((filter_sublist.map _).trans hlookup)

lemma nodup_flood (br : XBridge) (inBundle : XBundle) (vlan : ℕ) :
    ((xlateNormalFlood br inBundle vlan).map (·.ofbundle)).Nodup :=
  br.nodup.sublist (filter_sublist.map _)

/-- Members, routers and flood ports that have nothing in common give no bundle twice. -/
lemma nodup_mcast (h : ms.Separate) (f : Flow) :
    ((xlateNormalMcast br ms f inBundle vlan).map (·.ofbundle)).Nodup := by
  cases xlateNormalMcast_cases br ms f inBundle vlan with
  | flood he => exact he ▸ nodup_flood br inBundle vlan
  | reports he => exact he ▸ nodup_sendTo (h.router.append h.rport h.router_rport)
  | group grp hgrp hvlan he =>
    refine he ▸ nodup_sendTo (((h.member grp hgrp).append h.fport (h.member_fport grp hgrp)).append
      h.router ?_)
    exact disjoint_append_left.mpr ⟨h.member_router grp hgrp, h.router_fport.symm⟩
  | unregistered he => exact he ▸ nodup_sendTo (h.router.append h.fport h.router_fport)

/-- The snooping tables that clean operations lead to. -/
inductive CleanRun : McastSnooping ℕ → Prop where
  | create : CleanRun McastSnooping.create
  | step {ms : McastSnooping ℕ} (h : CleanRun ms) (now : ℤ) {op : McastOp ℕ} (hop : op.Clean ms) :
      CleanRun (ms.step now op)

/-- A run in which no port takes two of these roles keeps them apart. -/
lemma CleanRun.separate (h : CleanRun ms) : ms.Separate := by
  induction h with
  | create => exact .create
  | step _ now hop ih => exact ih.step hop

/-- **No packet is sent twice to a bundle.**  The snooping table is what any clean operations have
made of an empty one, and if something is learned from the packet itself then this is a clean
operation, too. -/
theorem normal_no_duplicates (br : XBridge) (ms : McastSnooping ℕ) (hrun : CleanRun ms)
    (ml : MacLearning) (x : Packet) (wc : Wildcards)
    (hop : isSnooped x.flow → isIgmpUpdate x → ∀ inBundle vlan op,
      inputVlan br x.flow = some (inBundle, vlan) →
      snoopingOp br ms x.flow vlan inBundle = some op → op.Clean ms) :
    ((xlateNormal br ⟨ml, some ms⟩ x wc).outputs.map (·.ofbundle)).Nodup := by
  have hcase := xlateNormal_cases br ⟨ml, some ms⟩ x wc
  generalize xlateNormal br ⟨ml, some ms⟩ x wc = r at hcase
  cases hcase with
  | dropped wc => exact nodup_nil
  | unicast wc hin =>
    unfold xlateNormalUnicast
    split
    · exact nodup_sendTo (nodup_singleton _)
    · exact nodup_flood br _ _
  | mcast wc hin hms hx =>
    cases hms
    refine nodup_mcast ?_ x.flow
    obtain heq | ⟨p, op, -, hupdate, hs, -, heq⟩ := snoop_cases br ms x _ _ <;> rw [heq]
    · exact hrun.separate
    · exact hrun.separate.step (hop hx hupdate _ _ op hin hs)

/-- A port is a router port of VLAN 10, and another one a member of the group there. -/
def memberAndRouter : McastSnooping ℕ :=
  (McastSnooping.create.step 0 (.query 10 3)).step 1 (.report 0xe0010101 10 1)

lemma cleanRun_memberAndRouter : CleanRun memberAndRouter := by
  have hquery : McastOp.Clean create (.query 10 3) := ⟨nofun, nofun, nofun⟩
  have hreport : McastOp.Clean (create.step 0 (.query 10 3))
      (.report 0xe0010101 10 1) := by
    intro m hm hp
    rcases mem_cons.mp hm with rfl | hm
    · rfl
    · cases hm
  exact .step (.step .create 0 hquery) 1 hreport

theorem normal_no_duplicates_report :
    ((xlateNormal twoVlans ⟨emptyTables.ml, some memberAndRouter⟩ (igmpPacket 1 0 0x16)
      Flow.zero).outputs.map (·.ofbundle)).Nodup := by
  refine normal_no_duplicates twoVlans memberAndRouter cleanRun_memberAndRouter emptyTables.ml
    (igmpPacket 1 0 0x16) Flow.zero fun _ _ inBundle vlan op hin hop => ?_
  cases hin
  cases hop
  intro m hm hp
  rcases mem_cons.mp hm with rfl | hm
  · cases hp
  · cases hm

/-- **A report is sent twice to a trunk port.**  The port is a router port of two VLANs, and the
report goes to the router ports of all VLANs. -/
theorem normal_duplicates :
    (xlateNormal twoVlans ⟨emptyTables.ml, some ((McastSnooping.create.step 0 (.query 10 3)).step 1
      (.query 20 3))⟩ (igmpPacket 1 0 0x16) Flow.zero).outputs.map (·.ofbundle) =
      [some 3, some 3] := by
  decide

end Xlate

end OVS
