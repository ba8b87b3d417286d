import OpenVSwitch.Xlate.Flow
import OpenVSwitch.Xlate.Snooping

/-!
# The NORMAL action

`xlate_normal()` makes a bridge a learning switch.  A packet belongs to a VLAN, which depends on its
802.1Q header and on the bundle that it comes in on (`inputVlan`).  Its source address is learned,
and it is output to the bundle of its destination address or, if that is not known, to all bundles
that carry the VLAN (`xlateNormalFlood`).  With multicast snooping an IPv4 multicast packet goes to
the ports in the lists of the snooping table instead (`xlateNormalMcast`).

**Two stages.**  `xlateNormal` says on which bundles `output_normal()` is called, and what has been
learned.  The datapath actions are composed by these calls one after the other (`outputNormal`);
nothing that they do has an effect on where the packet goes.

**Ports.**  The ports here are ports of the datapath.  Patch ports, tunnels, QoS and VLAN splinters
are not part of the model, nor is the choice of a bond's slave.
-/

namespace OVS

namespace Xlate

open Masked

/-! ## Bridges -/

/-- `enum port_vlan_mode`. -/
inductive VlanMode where
  | access
  | trunk
  | nativeTagged
  | nativeUntagged
deriving DecidableEq

/-- `struct xbundle`.  `ofpp_none_bundle` has no `ofbundle`.  A bundle that is not a trunk has a
VLAN. -/
structure XBundle where
  ofbundle : Option ℕ
  vlanMode : VlanMode
  vlan : ℤ
  trunks : Option (ℕ → Bool)
  usePriorityTags : Bool
  floodable : Bool
  bond : Bool
  mirrorOut : Bool
  xports : List (BitVec 16)
  vlan_valid : vlanMode ≠ .trunk → 0 ≤ vlan ∧ vlan < 4096

/-- `struct xport`, with what STP and RSTP say about it. -/
structure XPort where
  xbundle : Option ℕ
  odpPort : Option (BitVec 32)
  noFwd : Bool
  forwardsBpdu : Bool
  forwards : Bool

/-- `struct xbridge`.  No two of its bundles are for the same `ofbundle`. -/
structure XBridge where
  xbundles : List XBundle
  xports : BitVec 16 → Option XPort
  forwardBpdu : Bool
  nodup : (xbundles.map (·.ofbundle)).Nodup
  named : ∀ b ∈ xbundles, b.ofbundle.isSome

def ofppNoneBundle : XBundle :=
  { ofbundle := none, vlanMode := .trunk, vlan := 0, trunks := none, usePriorityTags := false,
    floodable := false, bond := false, mirrorOut := false, xports := [], vlan_valid := nofun }

def XBridge.xbundleLookup (br : XBridge) (ofbundle : ℕ) : Option XBundle :=
  br.xbundles.find? fun b => b.ofbundle = some ofbundle

def XBundle.trunksVlan (b : XBundle) (vlan : ℕ) : Bool :=
  b.vlanMode ≠ .access && (b.trunks.elim true fun bitmap => bitmap vlan)

def XBundle.includesVlan (b : XBundle) (vlan : ℕ) : Bool :=
  (vlan : ℤ) = b.vlan || b.trunksVlan vlan

/-! ## Addresses and packets -/

def ethAddrIsBroadcast (ea : BitVec 48) : Bool := ea = BitVec.allOnes 48

/-- `eth_addr_is_multicast()`: the lowest bit of the first byte. -/
def ethAddrIsMulticast (ea : BitVec 48) : Bool := ea.getLsbD 40

def ethAddrIsReserved (ea : BitVec 48) : Bool :=
  ea &&& 0xfffffffffff0 = 0x0180c2000000 ||
  ea ∈ [0x00e02b000000, 0x00e02b000004, 0x00e02b000006, 0x01000c000000, 0x01000ccccccc,
    0x01000ccccccd, 0x01000ccdcdcd] ||
  ea &&& 0xfffffffffff8 = 0x01000cccccc0

def ipIsLocalMulticast (ip : BitVec 32) : Bool := ip &&& 0xffffff00 = 0xe0000000

def ethTypeArp : BitVec 16 := 0x0806

def ethTypeVlan : BitVec 16 := 0x8100

def ipprotoIgmp : BitVec 8 := 2

def mcastSnoopingIsQuery (igmpType : BitVec 16) : Bool := igmpType = 0x11

def mcastSnoopingIsMembership (igmpType : BitVec 16) : Bool :=
  igmpType = 0x12 ∨ igmpType = 0x16 ∨ igmpType = 0x17

def vlanTciToVid (tci : BitVec 16) : ℕ := (tci &&& vlanVidMask).toNat

/-- `is_gratuitous_arp()`, with the wildcards. -/
def isGratuitousArp (f : Flow) (wc : Wildcards) : Bool × Wildcards :=
  if f .dlType ≠ ethTypeArp then (false, wc)
  else
    let wc := exact wc .dlDst
    if !ethAddrIsBroadcast (f .dlDst) then (false, wc)
    else
      let wc := exact wc .nwProto
      if f .nwProto = 2 then (true, wc)
      else if f .nwProto = 1 then
        (f .nwSrc = f .nwDst, exactAll wc [.nwSrc, .nwDst])
      else (false, wc)

inductive BondVerdict where
  | accept
  | drop
  | dropIfMoved

/-- A packet as `xlate_normal()` gets it: its flow, if anything may be learned from it, and when.
What a bond says about it is part of it, and which port has the most addresses. -/
structure Packet where
  flow : Flow
  mayLearn : Bool
  now : ℤ
  verdict : BondVerdict
  heapMax : ℕ

/-! ## MAC learning -/

structure MacEntry where
  mac : BitVec 48
  vlan : ℕ
  port : Option ℕ
  expires : ℤ
  gratArpLock : Option ℤ

/-- What identifies an entry. -/
def MacEntry.key (e : MacEntry) : BitVec 48 × ℕ := (e.mac, e.vlan)

def MacEntry.isGratArpLocked (e : MacEntry) (now : ℤ) : Bool :=
  e.gratArpLock.elim false fun lock => now < lock

/-- `struct mac_learning`.  The hash table has the entries of the list. -/
structure MacLearning where
  lrus : List MacEntry
  floodVlans : Option (ℕ → Bool)
  idleTime : ℕ
  maxEntries : ℕ
  needRevalidate : Bool

namespace MacLearning

def isLearningVlan (ml : MacLearning) (vlan : ℕ) : Bool :=
  ml.floodVlans.elim true fun bitmap => !bitmap vlan

def mayLearn (ml : MacLearning) (srcMac : BitVec 48) (vlan : ℕ) : Bool :=
  ml.isLearningVlan vlan && !ethAddrIsMulticast srcMac

/-- `mac_entry_lookup()`. -/
def entryLookup (ml : MacLearning) (mac : BitVec 48) (vlan : ℕ) : Option MacEntry :=
  ml.lrus.find? fun e => e.key = (mac, vlan)

def lookup (ml : MacLearning) (dst : BitVec 48) (vlan : ℕ) : Option MacEntry :=
  if ethAddrIsMulticast dst then none
  else if !ml.isLearningVlan vlan then none
  else ml.entryLookup dst vlan

/-- `evict_mac_entry_fairly()`: the least recently used entry of a port goes. -/
def evictMacEntryFairly (ml : MacLearning) (heapMax : ℕ) : MacLearning :=
  { ml with lrus := ml.lrus.eraseP fun e => e.port = some heapMax, needRevalidate := true }

/-- Write an entry that has been used last. -/
def store (ml : MacLearning) (e : MacEntry) : MacLearning :=
  { ml with lrus := Lru.touch MacEntry.key ml.lrus e }

/-- `mac_learning_insert()`: the table, and the entry, which is the last of it. -/
def insert (ml : MacLearning) (heapMax : ℕ) (now : ℤ) (srcMac : BitVec 48) (vlan : ℕ) :
    MacLearning × MacEntry :=
  match ml.entryLookup srcMac vlan with
  | none =>
    let ml := if ml.maxEntries ≤ ml.lrus.length then ml.evictMacEntryFairly heapMax else ml
    let e : MacEntry := ⟨srcMac, vlan, none, now + ml.idleTime, none⟩
    (ml.store e, e)
  | some e =>
    let e := { e with expires := now + ml.idleTime }
    (ml.store e, e)

/-- The loop of `mac_learning_run()`. -/
def runFrom (now : ℤ) (maxEntries : ℕ) : List MacEntry → List MacEntry
  | [] => []
  | e :: lrus =>
    if maxEntries < (e :: lrus).length ∨ e.expires ≤ now then runFrom now maxEntries lrus
    else e :: lrus

def run (ml : MacLearning) (now : ℤ) : MacLearning :=
  { ml with lrus := runFrom now ml.maxEntries ml.lrus, needRevalidate := false }

end MacLearning

/-- `is_mac_learning_update_needed()`, with the wildcards. -/
def isMacLearningUpdateNeeded (ml : MacLearning) (x : Packet) (wc : Wildcards) (vlan : ℕ)
    (inBundle : XBundle) : Bool × Wildcards :=
  if !ml.mayLearn (x.flow .dlSrc) vlan then (false, wc)
  else match ml.lookup (x.flow .dlSrc) vlan with
    | none => (true, wc)
    | some mac =>
      if (ml.idleTime : ℤ) - (mac.expires - x.now) ≠ 0 then (true, wc)
      else
        let (grat, wc) := isGratuitousArp x.flow wc
        if grat ∧ !inBundle.bond then (true, wc)
        else if grat ∧ mac.isGratArpLocked x.now then (false, wc)
        else (mac.port ≠ inBundle.ofbundle, wc)

/-- `update_learning_table__()`, with the wildcards. -/
def updateLearningTableLocked (ml : MacLearning) (x : Packet) (wc : Wildcards) (vlan : ℕ)
    (inBundle : XBundle) : MacLearning × Wildcards :=
  if !ml.mayLearn (x.flow .dlSrc) vlan then (ml, wc)
  else
    let (ml, mac) := ml.insert x.heapMax x.now (x.flow .dlSrc) vlan
    let (grat, wc) := isGratuitousArp x.flow wc
    if grat ∧ inBundle.bond ∧ mac.isGratArpLocked x.now then (ml, wc)
    else
      let mac := if grat ∧ !inBundle.bond then { mac with gratArpLock := some (x.now + 5) } else mac
      ({ ml.store { mac with port := inBundle.ofbundle } with
          needRevalidate := ml.needRevalidate || mac.port ≠ inBundle.ofbundle }, wc)

def updateLearningTable (ml : MacLearning) (x : Packet) (wc : Wildcards) (vlan : ℕ)
    (inBundle : XBundle) : MacLearning × Wildcards :=
  if inBundle.ofbundle = none then (ml, wc)
  else
    let (needUpdate, wc) := isMacLearningUpdateNeeded ml x wc vlan inBundle
    if needUpdate then updateLearningTableLocked ml x wc vlan inBundle else (ml, wc)

/-- The MAC learning table after a packet. -/
def learn (ml : MacLearning) (x : Packet) (wc : Wildcards) (vlan : ℕ) (inBundle : XBundle) :
    MacLearning × Wildcards :=
  if x.mayLearn then updateLearningTable ml x wc vlan inBundle else (ml, wc)

/-! ## The input VLAN -/

/-- `lookup_input_bundle()`: the bundle, and the port if there is one. -/
def lookupInputBundle (br : XBridge) (inPort : BitVec 16) : Option XBundle × Option XPort :=
  let xport := br.xports inPort
  match xport.bind fun p => p.xbundle.bind br.xbundleLookup with
  | some xbundle => (some xbundle, xport)
  | none =>
    (if inPort = 0xfffd ∨ inPort = 0xffff then some ofppNoneBundle else none, xport)

def inputVidToVlan (inBundle : XBundle) (vid : ℕ) : ℕ :=
  match inBundle.vlanMode with
  | .access => inBundle.vlan.toNat
  | .trunk => vid
  | .nativeUntagged | .nativeTagged => if vid ≠ 0 then vid else inBundle.vlan.toNat

def inputVidIsValid (vid : ℕ) (inBundle : XBundle) : Bool :=
  inBundle.ofbundle = none ||
  match inBundle.vlanMode with
  | .access => vid = 0
  | .nativeUntagged | .nativeTagged => vid = 0 || inBundle.includesVlan vid
  | .trunk => inBundle.includesVlan vid

/-- The bundle that a packet comes in on, and the VLAN that it belongs to; nothing if it is
dropped. -/
def inputVlan (br : XBridge) (f : Flow) : Option (XBundle × ℕ) :=
  match (lookupInputBundle br ((f .inPort).setWidth 16)).1 with
  | none => none
  | some inBundle =>
    if f .dlType = ethTypeVlan ∧ f .vlanTci &&& vlanCfi = 0 then none
    else if inBundle.mirrorOut then none
    else
      let vid := vlanTciToVid (f .vlanTci)
      if !inputVidIsValid vid inBundle then none else some (inBundle, inputVidToVlan inBundle vid)

/-- `is_admissible()`, with the wildcards. -/
def isAdmissible (br : XBridge) (ml : MacLearning) (x : Packet) (inBundle : XBundle) (vlan : ℕ)
    (wc : Wildcards) : Bool × Wildcards :=
  if !br.forwardBpdu && ethAddrIsReserved (x.flow .dlDst) then (false, wc)
  else if !inBundle.bond then (true, wc)
  else match x.verdict with
    | .accept => (true, wc)
    | .drop => (false, wc)
    | .dropIfMoved =>
      match ml.lookup (x.flow .dlSrc) vlan with
      | none => (true, wc)
      | some mac =>
        if mac.port = inBundle.ofbundle then (true, wc)
        else
          let (grat, wc) := isGratuitousArp x.flow wc
          (grat && !mac.isGratArpLocked x.now, wc)

/-- The check of `is_admissible()` in `xlate_normal()`.  There is a port unless the packet comes
from the controller. -/
def checkAdmissible (br : XBridge) (ml : MacLearning) (x : Packet) (inBundle : XBundle) (vlan : ℕ)
    (wc : Wildcards) : Bool × Wildcards :=
  if (lookupInputBundle br ((x.flow .inPort).setWidth 16)).2.isSome then
    isAdmissible br ml x inBundle vlan wc
  else (true, wc)

/-! ## The output bundles -/

/-- The loop of the functions `xlate_normal_mcast_send_*()`. -/
def sendTo (br : XBridge) (inBundle : XBundle) (ports : List ℕ) : List XBundle :=
  (ports.filterMap br.xbundleLookup).filter fun b => b.ofbundle ≠ inBundle.ofbundle

def xlateNormalFlood (br : XBridge) (inBundle : XBundle) (vlan : ℕ) : List XBundle :=
  br.xbundles.filter fun b =>
    b.ofbundle ≠ inBundle.ofbundle && b.includesVlan vlan && b.floodable && !b.mirrorOut

/-- What `update_mcast_snooping_table__()` does with an IGMP packet. -/
def igmpOp (f : Flow) (vlan port : ℕ) : Option (McastOp ℕ) :=
  if f .tpSrc = 0x12 ∨ f .tpSrc = 0x16 then some (.report (f .igmpGroupIp4) vlan port)
  else if f .tpSrc = 0x17 then some (.leave (f .igmpGroupIp4) vlan port)
  else if f .tpSrc = 0x11 ∧ f .nwSrc ≠ 0 then some (.query vlan port)
  else none

/-- The operation of `update_mcast_snooping_table()`: nothing is learned from flood ports. -/
def snoopingOp (br : XBridge) (ms : McastSnooping ℕ) (f : Flow) (vlan : ℕ) (inBundle : XBundle) :
    Option (McastOp ℕ) :=
  match inBundle.ofbundle with
  | none => none
  | some port =>
    if ms.fportList.any fun p => (br.xbundleLookup p).any fun b => b.ofbundle = some port then none
    else igmpOp f vlan port

def updateMcastSnoopingTable (br : XBridge) (ms : McastSnooping ℕ) (now : ℤ) (f : Flow) (vlan : ℕ)
    (inBundle : XBundle) : McastSnooping ℕ :=
  (snoopingOp br ms f vlan inBundle).elim ms (ms.step now)

/-- If a packet is handled by multicast snooping. -/
def isSnooped (f : Flow) : Bool :=
  !ethAddrIsBroadcast (f .dlDst) && ethAddrIsMulticast (f .dlDst) && f .dlType = ethTypeIp

/-- If the snooping table is updated for a packet. -/
def isIgmpUpdate (x : Packet) : Bool :=
  x.flow .nwProto = ipprotoIgmp && x.mayLearn &&
    (mcastSnoopingIsMembership (x.flow .tpSrc) || mcastSnoopingIsQuery (x.flow .tpSrc))

/-- The snooping table after a packet that is handled by multicast snooping. -/
def snoop (br : XBridge) (ms : McastSnooping ℕ) (x : Packet) (vlan : ℕ) (inBundle : XBundle) :
    McastSnooping ℕ :=
  if isIgmpUpdate x then updateMcastSnoopingTable br ms x.now x.flow vlan inBundle else ms

/-- Where a multicast packet goes. -/
def xlateNormalMcast (br : XBridge) (ms : McastSnooping ℕ) (f : Flow) (inBundle : XBundle)
    (vlan : ℕ) : List XBundle :=
  if f .nwProto = ipprotoIgmp then
    if mcastSnoopingIsMembership (f .tpSrc) then
      sendTo br inBundle ms.mrouterPorts ++ sendTo br inBundle ms.rportList
    else
      xlateNormalFlood br inBundle vlan
  else if ipIsLocalMulticast (f .nwDst) then
    xlateNormalFlood br inBundle vlan
  else
    match ms.lookup (f .nwDst) vlan with
    | some grp =>
      sendTo br inBundle grp.ports ++ sendTo br inBundle ms.fportList ++
        sendTo br inBundle ms.mrouterPorts
    | none =>
      if ms.floodUnreg then xlateNormalFlood br inBundle vlan
      else sendTo br inBundle ms.mrouterPorts ++ sendTo br inBundle ms.fportList

/-- Where any other packet goes. -/
def xlateNormalUnicast (br : XBridge) (ml : MacLearning) (f : Flow) (inBundle : XBundle)
    (vlan : ℕ) : List XBundle :=
  match (ml.lookup (f .dlDst) vlan).bind (·.port) with
  | some macPort => sendTo br inBundle [macPort]
  | none => xlateNormalFlood br inBundle vlan

/-- The tables of a bridge.  Without multicast snooping there is no table for it. -/
structure Tables where
  ml : MacLearning
  ms : Option (McastSnooping ℕ)

/-- What `xlate_normal()` does: the bundles on which it calls `output_normal()`, the tables and the
wildcards. -/
structure NormalResult where
  outputs : List XBundle
  tables : Tables
  wc : Wildcards

/-- The part of `xlate_normal()` that comes after the input VLAN is known. -/
def xlateNormalFrom (br : XBridge) (t : Tables) (x : Packet) (wc : Wildcards) (inBundle : XBundle)
    (vlan : ℕ) : NormalResult :=
  let (admissible, wc) := checkAdmissible br t.ml x inBundle vlan wc
  if !admissible then ⟨[], t, wc⟩
  else
    let (ml, wc) := learn t.ml x wc vlan inBundle
    match t.ms with
    | none => ⟨xlateNormalUnicast br ml x.flow inBundle vlan, ⟨ml, none⟩, wc⟩
    | some ms =>
      if isSnooped x.flow then
        let ms := snoop br ms x vlan inBundle
        ⟨xlateNormalMcast br ms x.flow inBundle vlan, ⟨ml, some ms⟩, wc⟩
      else
        ⟨xlateNormalUnicast br ml x.flow inBundle vlan, ⟨ml, some ms⟩, wc⟩

def xlateNormal (br : XBridge) (t : Tables) (x : Packet) (wc : Wildcards) : NormalResult :=
  let wc := orBits (exactAll wc [.dlSrc, .dlDst]) .vlanTci (vlanVidMask ||| vlanCfi)
  match inputVlan br x.flow with
  | none => ⟨[], t, wc⟩
  | some (inBundle, vlan) => xlateNormalFrom br t x wc inBundle vlan

/-! ## Output -/

/-- The datapath actions that occur here. -/
inductive DpAction where
  | popVlan
  | pushVlan (tci : BitVec 16)
  | output (port : BitVec 32)
deriving DecidableEq

/-- What composing the actions changes: `vlan_tci` of the base flow, the actions, the wildcards. -/
structure OutputState where
  baseTci : BitVec 16
  actions : List DpAction
  wc : Wildcards

/-- `commit_vlan_action()`, with `pop_vlan()`. -/
def commitVlanAction (tci : BitVec 16) (s : OutputState) : OutputState :=
  if s.baseTci = tci then s
  else
    let pop := if s.baseTci &&& vlanCfi ≠ 0 then [DpAction.popVlan] else []
    let push := if tci &&& vlanCfi ≠ 0 then [DpAction.pushVlan tci] else []
    { baseTci := tci, actions := s.actions ++ pop ++ push, wc := exact s.wc .vlanTci }

def outputVlanToVid (b : XBundle) (vlan : ℕ) : ℕ :=
  match b.vlanMode with
  | .access => 0
  | .trunk | .nativeTagged => vlan
  | .nativeUntagged => if (vlan : ℤ) = b.vlan then 0 else vlan

/-- `vlan_tci` of the packets that `output_normal()` sends. -/
def outputTci (b : XBundle) (vlan : ℕ) (flowTci : BitVec 16) : BitVec 16 :=
  let tci := BitVec.ofNat 16 (outputVlanToVid b vlan)
  if tci ≠ 0 ∨ b.usePriorityTags then
    let tci := tci ||| (flowTci &&& vlanPcpMask)
    if tci ≠ 0 then tci ||| vlanCfi else tci
  else tci

def isStp (f : Flow) : Bool := f .dlDst = 0x0180c2000000 ∧ f .dlType = 0x5ff

/-- The datapath port that `compose_output_action()` sends a flow to, if it does. -/
def outputPort (br : XBridge) (f : Flow) (ofpPort : BitVec 16) : Option (BitVec 32) :=
  match br.xports ofpPort with
  | none => none
  | some xport =>
    if xport.noFwd then none
    else if !(if isStp f then xport.forwardsBpdu else xport.forwards) then none
    else xport.odpPort

/-- `output_normal()` on a bundle that is not a bond. -/
def outputNormal (br : XBridge) (f : Flow) (vlan : ℕ) (s : OutputState) (b : XBundle) :
    OutputState :=
  match b.xports with
  | [] => s
  | ofpPort :: _ =>
    match outputPort br f ofpPort with
    | none => s
    | some odpPort =>
      let s := commitVlanAction (outputTci b vlan (f .vlanTci)) s
      { s with actions := s.actions ++ [.output odpPort] }

/-- The translation of a flow by the NORMAL action alone, from the initial wildcards on.  There is
nothing to output if the packet has no VLAN. -/
def translateNormal (br : XBridge) (t : Tables) (x : Packet) : OutputState :=
  let r := xlateNormal br t x (initialWildcards x.flow)
  let vlan := ((inputVlan br x.flow).map (·.2)).getD 0
  r.outputs.foldl (outputNormal br x.flow vlan) ⟨x.flow .vlanTci, [], r.wc⟩

end Xlate

end OVS
