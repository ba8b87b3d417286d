import OpenVSwitch.Lib.Bounded
import OpenVSwitch.Xlate.Context

/-!
# Translating actions

`do_xlate_actions()` goes through a list of actions.  There are four ways in which it comes back to
itself: a *table* action translates the rule that a flow table has for the packet, a *group* the
buckets, an output to a *patch port* goes on in the flow table of another bridge, and when that is
done, in the *action set* that the rules there have written.

The functions here follow the source.  Each of them takes `rec`, which is `do_xlate_actions()`, and
fails if `rec` does.  `doXlateActions env n` is the function for which at most `n` calls of it may
be nested inside one another.
-/

namespace OVS

namespace Xlate

open Masked Function

section

variable {β ω α : Type} (env : Env β ω α) (rec : List Ofpact → Ctx β ω α → Option (Ctx β ω α))

/-! ## Tables -/

def maxResubmitRecursion : ℕ := 64

def maxInternalResubmits : ℕ := 1

def maxResubmits : ℕ := maxResubmitRecursion * maxResubmitRecursion

/-- `xlate_resubmit_resource_check()`.  An element of the stack takes 16 bytes. -/
def xlateResubmitResourceCheck (ctx : Ctx β ω α) : Bool :=
  ctx.recurse < maxResubmitRecursion + maxInternalResubmits ∧
  ctx.resubmits < maxResubmits + maxInternalResubmits ∧
  env.size ctx.odpActions ≤ 65535 ∧ 16 * ctx.stack.length < 65536

/-- The context in which the actions of a rule are translated. -/
def Ctx.enterRule (ctx : Ctx β ω α) (rule : Rule) : Ctx β ω α :=
  { ctx with
    resubmits := ctx.resubmits + 1
    recurse := ctx.recurse + 1
    rule := some rule
    ruleCookie := rule.cookie
    inSetCall := false }

/-- The context after that, which was `old` before. -/
def Ctx.leaveRule (old ctx : Ctx β ω α) : Ctx β ω α :=
  { ctx with
    ruleCookie := old.ruleCookie
    rule := old.rule
    recurse := ctx.recurse - 1
    inSetCall := old.inSetCall }

def xlateRecursively (rule : Rule) (ctx : Ctx β ω α) : Option (Ctx β ω α) :=
  (rec rule.ofpacts (ctx.enterRule rule)).map ctx.leaveRule

def xlateTableAction (inPort : BitVec 16) (tableId : ℕ) (mayPacketIn honorTableMiss : Bool)
    (ctx : Ctx β ω α) : Option (Ctx β ω α) :=
  if xlateResubmitResourceCheck env ctx then
    let r := env.lookup ctx.world ctx.bridge ctx.flow ctx.wc tableId inPort mayPacketIn
      honorTableMiss
    match r.rule with
    | none => some { ctx with wc := r.wc }
    | some rule =>
      (xlateRecursively rec rule { ctx with tableId := r.tableId, wc := r.wc }).map
        fun ctx' => { ctx' with tableId := ctx.tableId }
  else some { ctx with exit := true }

def xlateOfpactResubmit (inPort : BitVec 16) (tableId : ℕ) (ctx : Ctx β ω α) :
    Option (Ctx β ω α) :=
  let internal := ctx.rule.any (·.isInternal)
  xlateTableAction env rec (if inPort = 0xfff8 then ctx.inPort else inPort)
    (if tableId = 255 then ctx.tableId else tableId) internal internal ctx

/-! ## Action sets and patch ports -/

/-- The context in which an action set is translated. -/
def Ctx.enterActionSet (ctx : Ctx β ω α) : Ctx β ω α :=
  { ctx.push .actionSet with
    inActionSet := true
    actionSet := []
    inSetCall := true
    setDone := true }

/-- The context after that, which was `old` before. -/
def Ctx.leaveActionSet (old ctx : Ctx β ω α) : Ctx β ω α :=
  { ctx with inActionSet := false, inSetCall := old.inSetCall }

def xlateActionSet (ctx : Ctx β ω α) : Option (Ctx β ω α) :=
  (rec (ofpactsExecuteActionSet ctx.actionSet) ctx.enterActionSet).map ctx.leaveActionSet

/-- The action set is translated if there is one. -/
def xlateActionSetIfAny (ctx : Ctx β ω α) : Option (Ctx β ω α) :=
  if ctx.actionSet.isEmpty then some ctx else xlateActionSet rec ctx

/-- `rule_dpif_lookup_get_init_table_id()`. -/
def initTableId (f : Flow) : ℕ := if f .recircId ≠ 0 then 254 else 0

/-- The flow behind a patch port. -/
def peerFlow (f : Flow) (inPort : BitVec 16) : Flow
  | .inPort => inPort.setWidth 32
  | .metadata => 0
  | .tunId => 0
  | .tunIpSrc => 0
  | .tunIpDst => 0
  | .tunFlags => 0
  | .tunIpTos => 0
  | .tunIpTtl => 0
  | .tunTpSrc => 0
  | .tunTpDst => 0
  | .tunGbpId => 0
  | .tunGbpFlags => 0
  | .regs _ => 0
  | .actsetOutput => ofppUnset
  | x => f x

/-- The context behind a patch port. -/
def Ctx.enterPeer (ctx : Ctx β ω α) (bridge : β) (port : BitVec 16) : Ctx β ω α :=
  { ctx with
    stack := []
    actionSet := []
    bridge := bridge
    flow := peerFlow ctx.flow port
    setDone := false }

/-- The context back in front of the patch port, which was `old` before. -/
def Ctx.leavePeer (old ctx : Ctx β ω α) : Ctx β ω α :=
  { ctx with
    flow := old.flow
    bridge := old.bridge
    actionSet := old.actionSet
    stack := old.stack
    exit := false
    setDone := old.setDone }

def mayReceive (xport : XPort) (config : PortConfig β) (f : Flow) : Bool :=
  !(if isStp f then config.noRecvStp else config.noRecv) && (xport.forwards || config.learns)

/-- The peer forwards the packet. -/
def forwardToPeer (tableId : ℕ) (ctx : Ctx β ω α) : Option (Ctx β ω α) :=
  (xlateTableAction env rec ctx.inPort tableId true true ctx).bind (xlateActionSetIfAny rec)

/-- The peer only learns from the packet.  What has been added to the actions is dropped. -/
def learnAtPeer (tableId : ℕ) (ctx : Ctx β ω α) : Option (Ctx β ω α) :=
  (xlateTableAction env rec ctx.inPort tableId true true ctx).map fun ctx' =>
    { ctx' with
      mirrors := ctx.mirrors
      baseFlow := ctx.baseFlow
      odpActions := ctx'.odpActions.take ctx.odpActions.length
      sent := ctx.sent
      tried := ctx.tried }

/-- The part of `compose_output_action__()` for patch ports.  The port at the other end exists. -/
def crossPatchPort (bridge : β) (port : BitVec 16) (ctx : Ctx β ω α) : Option (Ctx β ω α) :=
  let inner := ctx.enterPeer bridge port
  let special := env.processSpecial inner.world bridge port inner.flow inner.wc
  let inner := { inner with world := special.world, wc := special.wc }
  match (env.xbridge bridge).xports port with
  | none => some (ctx.leavePeer inner)
  | some peer =>
    if special.slow || !mayReceive peer (env.portConfig bridge port) inner.flow then
      some (ctx.leavePeer inner)
    else if peer.forwards then
      (forwardToPeer env rec (initTableId ctx.flow) inner).map ctx.leavePeer
    else
      (learnAtPeer env rec (initTableId ctx.flow) inner).map ctx.leavePeer

/-- The destination mirrors of the port's bundle. -/
def Ctx.addMirrors (ctx : Ctx β ω α) (xport : XPort) : Ctx β ω α :=
  match xport.xbundle with
  | some xbundle =>
    { ctx with
      mirrors :=
        if (env.mbridge ctx.bridge).hasMirrors then
          ctx.mirrors ||| (env.mbridge ctx.bridge).bundleDst xbundle
        else ctx.mirrors
      tried := ctx.tried ++ [(ctx.bridge, xbundle)] }
  | none => ctx

/-- Records an output. -/
def Ctx.record (ctx : Ctx β ω α) (xport : XPort) : Ctx β ω α :=
  { ctx with sent := ctx.sent ++ (xport.xbundle.map (ctx.bridge, ·)).toList }

/-- The part of `compose_output_action__()` for other ports. -/
def Ctx.egress (ctx : Ctx β ω α) (port : BitVec 16) (xport : XPort) : Ctx β ω α :=
  let r := env.egress ctx.world ctx.bridge port ctx.useRecirc ctx.flow ctx.baseFlow ctx.wc
  let ctx := if r.arpRequest then ctx.push .arpRequest else ctx
  let ctx := { ctx with flow := r.flow, baseFlow := r.baseFlow, wc := r.wc }
  match r.actions with
  | none => ctx
  | some actions => { ctx.record xport with odpActions := ctx.odpActions ++ actions }

/-- If a port sends a packet, going by `check_stp` and what STP and RSTP say. -/
def stpForwards (checkStp : Bool) (xport : XPort) (baseFlow : Flow) : Bool :=
  !checkStp || (if isStp baseFlow then xport.forwardsBpdu else xport.forwards)

def composeOutputAction (checkStp : Bool) (port : BitVec 16) (ctx : Ctx β ω α) :
    Option (Ctx β ω α) :=
  match (env.xbridge ctx.bridge).xports port with
  | none => some ctx
  | some xport =>
    if xport.noFwd || !stpForwards checkStp xport ctx.baseFlow then some ctx
    else
      match (env.portConfig ctx.bridge port).peer with
      | some (bridge, peerPort) =>
        crossPatchPort env rec bridge peerPort ((ctx.addMirrors env xport).record xport)
      | none => some ((ctx.addMirrors env xport).egress env port xport)

/-! ## Groups -/

/-- The context in which a bucket is translated. -/
def Ctx.enterBucket (ctx : Ctx β ω α) : Ctx β ω α :=
  { ctx with recurse := ctx.recurse + 1, inSetCall := false }

/-- The context after that, which was `old` before. -/
def Ctx.leaveBucket (old ctx : Ctx β ω α) : Ctx β ω α :=
  { ctx with recurse := ctx.recurse - 1, inSetCall := old.inSetCall }

def xlateGroupBucket (bucket : Bucket (List Ofpact)) (ctx : Ctx β ω α) : Option (Ctx β ω α) :=
  (rec (ofpactsExecuteActionSet bucket.ofpacts) ctx.enterBucket).map ctx.leaveBucket

/-- What the liveness of buckets depends on. -/
def Ctx.liveness (ctx : Ctx β ω α) : Liveness (List Ofpact) :=
  { mayEnable := env.mayEnable ctx.world ctx.bridge
    group := fun id => (env.group ctx.world ctx.bridge id).map (·.buckets) }

/-- `xlate_all_group()`.  The flow is the same for every bucket. -/
def xlateAllGroup (buckets : List (Bucket (List Ofpact))) (ctx : Ctx β ω α) :
    Option (Ctx β ω α) :=
  buckets.foldlM
    (fun ctx' bucket => (xlateGroupBucket rec bucket ctx').map fun c => { c with flow := ctx.flow })
    ctx

/-- The bucket that a group of type *select* or *ff* takes, and the wildcards. -/
def chooseBucket (group : Group) (ctx : Ctx β ω α) :
    Option (Bucket (List Ofpact)) × Wildcards :=
  match group.type with
  | .select => xlateSelectGroup (ctx.liveness env) group.buckets ctx.flow ctx.wc
  | _ => (group.buckets.find? (bucketIsAlive (ctx.liveness env) maxLivenessRecursion), ctx.wc)

/-- `xlate_select_group()` and `xlate_ff_group()`. -/
def xlateOneBucket (group : Group) (ctx : Ctx β ω α) : Option (Ctx β ω α) :=
  let r := chooseBucket env group ctx
  match r.1 with
  | none => some { ctx with wc := r.2 }
  | some bucket => xlateGroupBucket rec bucket { ctx with wc := r.2 }

/-- The `switch` of `xlate_group_action__()`. -/
def xlateGroup (group : Group) (ctx : Ctx β ω α) : Option (Ctx β ω α) :=
  match group.type with
  | .all | .indirect => xlateAllGroup rec group.buckets ctx
  | .select | .ff => xlateOneBucket env rec group ctx

/-- `xlate_group_action()`, with its result. -/
def xlateGroupAction (groupId : BitVec 32) (ctx : Ctx β ω α) : Option (Bool × Ctx β ω α) :=
  if xlateResubmitResourceCheck env ctx && !ctx.inGroup then
    match env.group ctx.world ctx.bridge groupId with
    | none => some (true, ctx)
    | some group =>
      (xlateGroup env rec group { ctx with inGroup := true }).map
        fun ctx => (false, { ctx with inGroup := false })
  else some (false, ctx)

/-! ## Output -/

/-- The ports with a special meaning in `xlate_output_action()`. -/
inductive OutputPort where
  | inPort
  | table
  | normal
  | flood
  | all
  | controller
  | max1
  | max2
  | max3
  | max4
  | other
deriving DecidableEq

/-- The cases of `xlate_output_action()`. -/
def outputPortOf (port : BitVec 16) : OutputPort :=
  if port = 0xfff8 then .inPort
  else if port = 0xfff9 then .table
  else if port = 0xfffa then .normal
  else if port = 0xfffb then .flood
  else if port = 0xfffc then .all
  else if port = 0xfffd then .controller
  else if port = 0xff01 then .max1
  else if port = 0xff02 then .max2
  else if port = 0xff03 then .max3
  else if port = 0xff04 then .max4
  else .other

/-- One round of the loop of `flood_packets()`. -/
def floodPacket (all : Bool) (ctx : Ctx β ω α) (port : BitVec 16) : Option (Ctx β ω α) :=
  if port = ctx.inPort then some ctx
  else if all then composeOutputAction env rec false port ctx
  else if (env.portConfig ctx.bridge port).noFlood then some ctx
  else composeOutputAction env rec true port ctx

def floodPackets (all : Bool) (ctx : Ctx β ω α) : Option (Ctx β ω α) :=
  (env.ports ctx.bridge).foldlM (floodPacket env rec all) ctx

/-- The port of a bundle that `output_normal()` sends the packet to, if there is one. -/
def Ctx.chooseSlave (ctx : Ctx β ω α) (b : XBundle) (vid : ℕ) : Option (BitVec 16) × Ctx β ω α :=
  match b.xports with
  | [] => (none, ctx)
  | port :: _ =>
    if b.bond then
      let r := env.bondChoice ctx.world ctx.bridge b ctx.flow vid ctx.wc
      (r.slave, { ctx with
        useRecirc := if env.enableRecirc ctx.bridge then r.useRecirc else ctx.useRecirc
        world := r.world
        wc := r.wc })
    else (some port, { ctx with useRecirc := false })

/-- `output_normal()`. -/
def outputNormalAction (vlan : ℕ) (ctx : Ctx β ω α) (b : XBundle) : Option (Ctx β ω α) :=
  let r := ctx.chooseSlave env b (outputVlanToVid b vlan)
  match r.1 with
  | none => some r.2
  | some port =>
    let tci := outputTci b vlan (ctx.flow .vlanTci)
    (composeOutputAction env rec true port
      { r.2 with flow := update r.2.flow .vlanTci tci }).map
      fun ctx' => { ctx' with flow := update ctx'.flow .vlanTci (ctx.flow .vlanTci) }

/-- The mirrors that output to a bundle. -/
def xbundleMirrorOut (bridge : β) (b : XBundle) : BitVec 32 :=
  b.ofbundle.elim 0 (env.mbridge bridge).bundleOut

/-- A bundle with what the mirrors say about it. -/
def XBundle.withMirrorOut (bridge : β) (b : XBundle) : XBundle :=
  { b with mirrorOut := xbundleMirrorOut env bridge b ≠ 0 }

/-- The bridge as `xlate_normal()` sees it. -/
def Env.normalBridge (bridge : β) : XBridge :=
  { env.xbridge bridge with
    xbundles := (env.xbridge bridge).xbundles.map (XBundle.withMirrorOut env bridge)
    nodup := by
      rw [List.map_map]
      exact (env.xbridge bridge).nodup
    named := by
      intro b hb
      obtain ⟨b', hb', rfl⟩ := List.mem_map.mp hb
      exact (env.xbridge bridge).named b' hb' }

/-- `xlate_normal()`. -/
def xlateNormalAction (ctx : Ctx β ω α) : Option (Ctx β ω α) :=
  let br := env.normalBridge ctx.bridge
  let packet : Packet :=
    { flow := ctx.flow
      mayLearn := env.mayLearn
      now := env.now ctx.world
      verdict := env.bondVerdict ctx.world ctx.bridge ctx.flow
      heapMax := env.heapMax ctx.world ctx.bridge }
  let r := xlateNormal br (env.tables ctx.world ctx.bridge) packet ctx.wc
  let vlan := ((inputVlan br ctx.flow).map (·.2)).getD 0
  r.outputs.foldlM (outputNormalAction env rec vlan)
    { ctx with world := env.setTables ctx.world ctx.bridge r.tables, wc := r.wc }

/-- Writes `nw_src` if the packet comes from the port `inPort`, and outputs it. -/
def rewriteAndOutput (inPort port : BitVec 16) (nwSrc : BitVec 32) (ctx : Ctx β ω α) :
    Option (Ctx β ω α) :=
  -- The type is compared with 0x0800 in the byte order of a little-endian host.
  if ctx.inPort = inPort ∧ ctx.flow .dlType = 0x0008 then
    composeOutputAction env rec true port
      { ctx with flow := update ctx.flow .nwSrc nwSrc }
  else some ctx

/-- Outputs what comes from the port `inPort`. -/
def outputIfFrom (inPort port : BitVec 16) (ctx : Ctx β ω α) : Option (Ctx β ω α) :=
  if ctx.inPort = inPort then composeOutputAction env rec true port ctx else some ctx

/-- Ports 1 and 2 forward to each other. -/
def outputAcross (ctx : Ctx β ω α) : Option (Ctx β ω α) :=
  (outputIfFrom env rec 1 2 ctx).bind (outputIfFrom env rec 2 1)

/-- The reason of a packet-in for an output to `OFPP_CONTROLLER`. -/
def Ctx.outputReason (ctx : Ctx β ω α) : PacketInReason :=
  if ctx.inGroup then .group else if ctx.inActionSet then .actionSet else .action

def xlateOutputAction (port maxLen : BitVec 16) (mayPacketIn : Bool) (ctx : Ctx β ω α) :
    Option (Ctx β ω α) :=
  match outputPortOf port with
  | .inPort => composeOutputAction env rec true ctx.inPort ctx
  | .table => xlateTableAction env rec ctx.inPort 0 mayPacketIn true ctx
  | .normal => xlateNormalAction env rec ctx
  | .flood => floodPackets env rec false ctx
  | .all => floodPackets env rec true ctx
  | .controller =>
    some (executeControllerAction env maxLen ctx.outputReason 0 (ctx.push .controller))
  | .max1 => outputAcross env rec ctx
  | .max2 =>
    (rewriteAndOutput env rec 1 2 0x0202a8c0 ctx).bind (rewriteAndOutput env rec 2 1 0x0103a8c0)
  | .max3 =>
    outputAcross env rec { ctx with world := env.addFlows ctx.world ctx.bridge }
  | .max4 => if env.hasPacket then outputAcross env rec ctx else some ctx
  | .other => if port = ctx.inPort then some ctx else composeOutputAction env rec true port ctx

def xlateEnqueueAction (port : BitVec 16) (queue : BitVec 32) (ctx : Ctx β ω α) :
    Option (Ctx β ω α) :=
  match env.queueToPriority ctx.bridge queue with
  | none => xlateOutputAction env rec port 0 false ctx
  | some priority =>
    if port ≠ 0xfff8 ∧ port = ctx.inPort then some ctx
    else
      (composeOutputAction env rec true (if port = 0xfff8 then ctx.inPort else port)
        { ctx with flow := update ctx.flow .skbPriority priority }).map
        fun ctx' =>
          { ctx' with flow := update ctx'.flow .skbPriority (ctx.flow .skbPriority) }

def xlateOutputRegAction (src : Flow → ℕ) (mask : Wildcards → Wildcards) (maxLen : BitVec 16)
    (ctx : Ctx β ω α) : Option (Ctx β ω α) :=
  if src ctx.flow ≤ 65535 then
    xlateOutputAction env rec (BitVec.ofNat 16 (src ctx.flow)) maxLen false
      { ctx with wc := mask ctx.wc }
  else some ctx

/-- `slave_enabled_cb()`. -/
def slaveEnabled (ctx : Ctx β ω α) (port : BitVec 16) : Bool :=
  match outputPortOf port with
  | .inPort | .table | .normal | .flood | .all => true
  | .controller => false
  | _ => port = 0xffff || (env.mayEnable ctx.world ctx.bridge port).getD false

def xlateBundleAction
    (execute : (BitVec 16 → Bool) → Flow → Wildcards → BitVec 16 × Wildcards)
    (dst : Option (BitVec 16 → FieldWrite)) (ctx : Ctx β ω α) : Option (Ctx β ω α) :=
  let r := execute (slaveEnabled env ctx) ctx.flow ctx.wc
  match dst with
  | some load =>
    let l := (load r.1).run ctx.flow r.2
    some { ctx with flow := l.1, wc := l.2 }
  | none => xlateOutputAction env rec r.1 0 false { ctx with wc := r.2 }

/-- The `switch` of `do_xlate_actions()`, and if it returns. -/
def xlateOfpact (a : Ofpact) (ctx : Ctx β ω α) : Option (Bool × Ctx β ω α) :=
  match a with
  | .output port maxLen => (xlateOutputAction env rec port maxLen true ctx).map (false, ·)
  | .group groupId => xlateGroupAction env rec groupId ctx
  | .enqueue port queue =>
    (xlateEnqueueAction env rec port queue { ctx with wc := exact ctx.wc .skbPriority }).map
      (false, ·)
  | .outputReg src mask maxLen => (xlateOutputRegAction env rec src mask maxLen ctx).map (false, ·)
  | .bundle execute dst => (xlateBundleAction env rec execute dst ctx).map (false, ·)
  | .resubmit inPort tableId => (xlateOfpactResubmit env rec inPort tableId ctx).map (false, ·)
  | .gotoTable tableId =>
    (xlateTableAction env rec ctx.inPort tableId true true ctx).map (false, ·)
  | a => some (xlateLocalAction env a ctx)

/-- The loop of `do_xlate_actions()`. -/
def xlateOfpacts : List Ofpact → Ctx β ω α → Option (Ctx β ω α)
  | [], ctx => some ctx
  | a :: ofpacts, ctx =>
    if ctx.exit then some ctx
    else if needsRecirculationAfterMpls a ctx then
      some (composeRecirculateAction env (a :: ofpacts) ctx)
    else
      (xlateOfpact env rec a (ctx.push (.action a))).bind fun r =>
        if r.1 then some r.2 else xlateOfpacts ofpacts r.2

end

section

variable {β ω α : Type} (env : Env β ω α)

/-- `do_xlate_actions()`, when at most `n` calls of it may be nested. -/
def doXlateActions (n : ℕ) : List Ofpact → Ctx β ω α → Option (Ctx β ω α) :=
  Bounded.iterate (xlateOfpacts env) n

/-! ## A packet -/

/-- `struct xlate_in`, with the world as it is when the translation starts. -/
structure XlateIn (β ω : Type) where
  bridge : β
  flow : Flow
  ofpacts : Option (List Ofpact)
  rule : Option Rule
  world : ω

/-- The flow as the datapath sees it: without tunnel metadata. -/
def withoutTunnel (f : Flow) : Flow
  | .tunId => 0
  | .tunIpSrc => 0
  | .tunIpDst => 0
  | .tunFlags => 0
  | .tunIpTos => 0
  | .tunIpTtl => 0
  | .tunTpSrc => 0
  | .tunTpDst => 0
  | .tunGbpId => 0
  | .tunGbpFlags => 0
  | x => f x

/-- The context at the start of `xlate_actions()`. -/
def XlateIn.ctx (x : XlateIn β ω) : Ctx β ω α :=
  { bridge := x.bridge
    flow := x.flow
    baseFlow := withoutTunnel x.flow
    wc := initialWildcards x.flow
    odpActions := []
    packetIns := []
    mirrors := 0
    stack := []
    actionSet := []
    actionSetHasGroup := false
    inActionSet := false
    inGroup := false
    wasMpls := false
    tableId := 0
    rule := x.rule
    ruleCookie := BitVec.allOnes 64
    recurse := 0
    resubmits := 0
    exit := false
    useRecirc := false
    world := x.world
    sent := []
    tried := []
    aborted := false
    inSetCall := false
    setDone := false
    trace := [] }

/-- The actions that are translated, and the context with the rule that they are from. -/
def XlateIn.start (x : XlateIn β ω) : List Ofpact × Ctx β ω α :=
  let ctx : Ctx β ω α := x.ctx
  match x.ofpacts, x.rule with
  | some ofpacts, _ => (ofpacts, ctx)
  | none, some rule => (rule.ofpacts, { ctx with ruleCookie := rule.cookie })
  | none, none =>
    let r := env.lookup ctx.world ctx.bridge ctx.flow ctx.wc (initTableId ctx.flow) ctx.inPort
      true true
    let ctx := { ctx with tableId := r.tableId, wc := r.wc, rule := r.rule }
    match r.rule with
    | some rule => (rule.ofpacts, { ctx with ruleCookie := rule.cookie })
    | none => ([], ctx)

/-- What happens with the packet as a whole: what is sampled of it, and if it must go to the local
port. -/
structure Request (β ω α : Type) extends XlateIn β ω where
  tnlMaySend : Bool
  sampleActions : List α
  mustOutputToLocal : Flow → List α → Bool

/-- If the packet is processed by the switch itself. -/
def Request.special (x : Request β ω α) : Special ω :=
  let ctx := (x.start env).2
  match (env.xbridge x.bridge).xports ctx.inPort with
  | none => ⟨false, ctx.world, ctx.wc⟩
  | some _ => env.processSpecial ctx.world x.bridge ctx.inPort ctx.flow ctx.wc

/-- The context in which the actions are translated. -/
def Request.begin (x : Request β ω α) : Ctx β ω α :=
  { (x.start env).2 with
    world := (x.special env).world
    wc := (x.special env).wc
    odpActions := x.sampleActions }

/-- If the input port takes the packet, or there is none. -/
def Request.accepted (x : Request β ω α) : Bool :=
  x.tnlMaySend &&
  match (env.xbridge x.bridge).xports (x.begin env).inPort with
  | none => true
  | some xport => mayReceive xport (env.portConfig x.bridge (x.begin env).inPort) x.flow

/-- If the input port forwards the packet, or there is none. -/
def Request.forwarded (x : Request β ω α) : Bool :=
  match (env.xbridge x.bridge).xports (x.begin env).inPort with
  | none => true
  | some xport => xport.forwards

/-- The translation of the packet's actions and the action set. -/
def Request.translateActions (n : ℕ) (x : Request β ω α) : Option (Ctx β ω α) :=
  if x.accepted env then
    (doXlateActions env n (x.start env).1 (x.begin env)).bind fun ctx =>
      if x.forwarded env then xlateActionSetIfAny (doXlateActions env n) ctx
      else
        some { ctx with
          odpActions := ctx.odpActions.take x.sampleActions.length
          sent := []
          setDone := true }
  else some (x.begin env)

/-- The translation up to the mirrors.  In-band control may need an output to the local port. -/
def Request.translate (n : ℕ) (x : Request β ω α) : Option (Ctx β ω α) :=
  (x.translateActions env n).bind fun ctx =>
    if x.mustOutputToLocal ctx.flow ctx.odpActions then
      composeOutputAction env (doXlateActions env n) true 0xfffe ctx
    else some ctx

/-! ## Mirrors -/

/-- The source mirrors of a bundle. -/
def xbundleMirrorSrc (bridge : β) (b : XBundle) : BitVec 32 :=
  b.ofbundle.elim 0 (env.mbridge bridge).bundleSrc

/-- If a copy is sent to the output of a mirror: not to a VLAN if the packet is in it or is for a
reserved address. -/
def sendsCopy (f : Flow) (vlan : ℕ) (o : Option ℕ × ℤ) : Bool :=
  match o.1 with
  | some _ => true
  | none => (vlan : ℤ) ≠ o.2 ∧ !ethAddrIsReserved (f .dlDst)

/-- The bundles to which a copy goes, with the VLAN of the copy. -/
def copyBundles (bridge : β) (vlan : ℕ) (o : Option ℕ × ℤ) : List (XBundle × ℕ) :=
  match o.1 with
  | some out => ((env.xbridge bridge).xbundleLookup out).toList.map (·, vlan)
  | none =>
    ((env.xbridge bridge).xbundles.filter fun b =>
      b.includesVlan o.2.toNat && xbundleMirrorOut env bridge b = 0).map (·, o.2.toNat)

/-- The packet's input bundle and VLAN, if it may be mirrored. -/
def mirrorInput (bridge : β) (f : Flow) : Option (XBundle × ℕ) :=
  match (lookupInputBundle (env.xbridge bridge) ((f .inPort).setWidth 16)).1 with
  | none => none
  | some inBundle =>
    if xbundleMirrorOut env bridge inBundle ≠ 0 then none
    else
      let vid := vlanTciToVid (f .vlanTci)
      if inputVidIsValid vid inBundle then some (inBundle, inputVidToVlan inBundle vid) else none

/-- The mirrors that `add_mirror_actions()` looks at. -/
def mirrorsVisited (bridge : β) (mirrors : BitVec 32) (inBundle : XBundle) (vlan : ℕ) :
    Option (List (Mirror × Bool)) :=
  (env.mbridge bridge).mirrorLoop vlan 33 (mirrors ||| xbundleMirrorSrc env bridge inBundle)

/-- The outputs of mirrors to which `add_mirror_actions()` sends a copy. -/
def mirrorCopies (f : Flow) (vlan : ℕ) (visited : List (Mirror × Bool)) : List (Option ℕ × ℤ) :=
  (MBridge.copies visited).filter (sendsCopy f vlan)

/-- If the input bundle is reserved for mirroring, in which case all actions are dropped. -/
def droppedByMirror (bridge : β) (f : Flow) : Bool :=
  match (lookupInputBundle (env.xbridge bridge) ((f .inPort).setWidth 16)).1 with
  | none => false
  | some inBundle => xbundleMirrorOut env bridge inBundle ≠ 0

/-- The context in which the copies are sent. -/
def Ctx.restore (ctx : Ctx β ω α) (f : Flow) (visited : List (Mirror × Bool)) : Ctx β ω α :=
  if visited.isEmpty then { ctx with mirrors := 0 }
  else
    { ctx with
      flow := f
      mirrors := (visited.filter (·.2)).foldl (fun mirrors v => mirrors ||| v.1.dupMirrors) 0
      wc := if visited.any (·.1.vlans.isSome) then orBits ctx.wc .vlanTci (vlanVidMask ||| vlanCfi)
        else ctx.wc }

/-- The calls of `output_normal()` for the copies. -/
def outputCopies (rec : List Ofpact → Ctx β ω α → Option (Ctx β ω α))
    (copies : List (XBundle × ℕ)) (ctx : Ctx β ω α) : Option (Ctx β ω α) :=
  copies.foldlM (fun ctx copy => outputNormalAction env rec copy.2 ctx copy.1) ctx

def addMirrorActions (n : ℕ) (f : Flow) (ctx : Ctx β ω α) : Option (Ctx β ω α) :=
  match mirrorInput env ctx.bridge f with
  | none =>
    some (if droppedByMirror env ctx.bridge f then { ctx with mirrors := 0, odpActions := [] }
      else { ctx with mirrors := 0 })
  | some (inBundle, vlan) =>
    match mirrorsVisited env ctx.bridge ctx.mirrors inBundle vlan with
    | none => some { ctx with aborted := true }
    | some visited =>
      outputCopies env (doXlateActions env n)
        ((mirrorCopies f vlan visited).flatMap (copyBundles env ctx.bridge vlan))
        (ctx.restore f visited)

def xlateActions (n : ℕ) (x : Request β ω α) : Option (Ctx β ω α) :=
  if (x.special env).slow then
    some { (x.start env).2 with world := (x.special env).world, wc := (x.special env).wc }
  else
    (x.translate env n).bind fun ctx =>
      if (env.mbridge x.bridge).hasMirrors then addMirrorActions env n x.flow ctx else some ctx

end

/-! ## Two bridges -/

/-- A trunk with one port. -/
def portBundle (port : ℕ) : XBundle :=
  { ofbundle := some port, vlanMode := .trunk, vlan := 0, trunks := none, usePriorityTags := false,
    floodable := true, bond := false, mirrorOut := false, xports := [BitVec.ofNat 16 port],
    vlan_valid := by simp }

/-- A bridge with the ports 1, 2 and 3, each of them in a bundle of the same number. -/
def threePorts : XBridge where
  xbundles := [portBundle 1, portBundle 2, portBundle 3]
  xports port :=
    if port ∈ [1, 2, 3] then some ⟨some port.toNat, some (port.setWidth 32), false, true, true⟩
    else none
  forwardBpdu := false
  nodup := by decide
  named := by decide

/-- Two bridges whose ports 1 and 2 are patch ports to each other.  Their rules only depend on the
input port, and a datapath action is an output to a port of a bridge. -/
def twoBridges (tables : Bool → BitVec 16 → List Ofpact) : Env Bool Unit (Bool × BitVec 16) where
  xbridge _ := threePorts
  portConfig b port :=
    { noFlood := false, noRecv := false, noRecvStp := false, learns := true
      peer := if port ∈ [1, 2] then some (!b, port) else none }
  ports _ := [1, 2, 3]
  mbridge _ := MBridge.create
  enableRecirc _ := true
  hasPacket := true
  origSkbPriority := 0
  mayLearn := false
  now _ := 0
  lookup _ b _ wc tableId inPort _ _ := ⟨some ⟨0, tables b inPort, false, false⟩, tableId, wc⟩
  group _ _ _ := none
  mayEnable _ _ _ := none
  processSpecial _ _ _ _ wc := ⟨false, (), wc⟩
  tables _ _ := ⟨⟨[], none, 300, 2048, false⟩, none⟩
  setTables _ _ _ := ()
  bondVerdict _ _ _ := .accept
  heapMax _ _ := 0
  bondChoice _ _ _ _ _ wc := ⟨none, false, (), wc⟩
  learn _ _ _ _ wc := ((), wc)
  addFlows _ _ := ()
  queueToPriority _ _ := none
  commit _ _ baseFlow wc := ⟨[], baseFlow, wc⟩
  egress _ b port _ flow baseFlow wc := ⟨some [(b, port)], flow, baseFlow, wc, false⟩
  egress_actsetOutput _ _ _ _ _ _ _ := rfl
  sample _ _ _ := none
  recirculate _ _ _ _ := (none, ())
  recirc _ := (false, 0)
  size actions := actions.length

/-- The rules output to a patch port in the first bridge, and to port 3 in the second one. -/
def throughPatchPort (b : Bool) (_ : BitVec 16) : List Ofpact :=
  if b then [.output 3 0] else [.output 1 0]

/-- A packet that comes in on port 3 of the first bridge. -/
def fromPort3 : Request Bool Unit (Bool × BitVec 16) where
  bridge := false
  flow := update Flow.zero .inPort 3
  ofpacts := none
  rule := none
  world := ()
  tnlMaySend := true
  sampleActions := []
  mustOutputToLocal _ _ := false

end Xlate

end OVS
