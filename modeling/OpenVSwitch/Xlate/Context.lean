import OpenVSwitch.Xlate.Mirror
import OpenVSwitch.Xlate.Normal
import OpenVSwitch.Xlate.Select

/-!
# The state of a translation

`xlate_actions()` translates the actions for a packet into datapath actions.  On the way it keeps
everything in a `struct xlate_ctx`, which is `Ctx` here: the bridge that the packet is in and the
flow as the actions have changed it, the stack and the action set, the datapath actions and
packet-ins so far, and a number of flags and counters.

**What is around it.**  An `Env` has what the translation does not change: ports, mirrors, and the
functions that it calls for things that are not its own.  Flow tables, MAC learning tables and the
like are a *world*, of an arbitrary type, since `learn` actions change it during the translation.
The encoding of datapath actions is a parameter, too: `commit` stands for `commit_odp_actions()`,
and `egress` for what `compose_output_action__()` does with a port that is not a patch port.  With
native tunnels, `build_tunnel_send()` may have to flood an ARP request first, which is a translation
of its own, with its own context and counters.  That translation is not part of the model: `egress`
only says that there is one.

**Additions.**  The translation does not look at the last members of the context, which say what it
has done.  `sent` are the bundles that the packet has been output to, for as long as the actions
that do it have not been dropped, and `tried` those whose mirrors have been added to the mask;
`aborted` says that an assertion has failed.  `inSetCall` says that the innermost call of
`do_xlate_actions()` is for an action set, and `setDone` that the action set of the bridge has been
executed or dropped.  `trace` has every step that was made, with a part of the context before it.

This file has the actions that do not call `do_xlate_actions()` again (`xlateLocalAction`).
-/

namespace OVS

namespace Xlate

open Masked List Function

/-! ## OpenFlow actions -/

/-- `enum ofp_packet_in_reason`. -/
inductive PacketInReason where
  | noMatch
  | action
  | invalidTtl
  | actionSet
  | group
  | packetOut
deriving DecidableEq

/-- How an action that sets fields takes part in an action set. -/
inductive SetKind where
  | stripVlan
  | pushVlan
  | setOrMove
  | other
deriving DecidableEq

/-- What an action writes into the flow, and the wildcards.  `actset_output` is read-only. -/
structure FieldWrite where
  run : Flow → Wildcards → Flow × Wildcards
  readOnly : ∀ f wc, (run f wc).1 .actsetOutput = f .actsetOutput

/-- OpenFlow actions.  `set` is for all actions that only write fields of the flow, with what they
do and if they need a header above layer 2; `note` for those that do nothing. -/
inductive Ofpact where
  | output (port maxLen : BitVec 16)
  | group (groupId : BitVec 32)
  | controller (maxLen controllerId : BitVec 16) (reason : PacketInReason)
  | enqueue (port : BitVec 16) (queue : BitVec 32)
  | outputReg (src : Flow → ℕ) (mask : Wildcards → Wildcards) (maxLen : BitVec 16)
  | bundle (execute : (BitVec 16 → Bool) → Flow → Wildcards → BitVec 16 × Wildcards)
      (dst : Option (BitVec 16 → FieldWrite))
  | resubmit (inPort : BitVec 16) (tableId : ℕ)
  | gotoTable (tableId : ℕ)
  | set (kind : SetKind) (l3 : Bool) (f : FieldWrite)
  | setQueue (queue : BitVec 32)
  | popQueue
  | stackPush (src : Flow → BitVec 128) (mask : Wildcards → Wildcards)
  | stackPop (dst : BitVec 128 → FieldWrite)
  | pushMpls (ethertype : BitVec 16)
  | popMpls (ethertype : BitVec 16)
  | decMplsTtl
  | decTtl (controllers : List (BitVec 16))
  | learn (spec : ℕ)
  | sample (spec : ℕ)
  | note
  | finTimeout
  | exit
  | clearActions
  | writeActions (ofpacts : List Ofpact)

namespace Ofpact

/-- If an action is of a certain kind in an action set. -/
def isSet (kind : SetKind) : Ofpact → Bool
  | .set k _ _ => k = kind
  | _ => false

/-- `ofpact_is_set_or_move_action()`. -/
def isSetOrMove : Ofpact → Bool
  | .set k _ _ => k = .setOrMove
  | .setQueue _ => true
  | _ => false

def isPopMpls : Ofpact → Bool
  | .popMpls _ => true
  | _ => false

def isPushMpls : Ofpact → Bool
  | .pushMpls _ => true
  | _ => false

def isDecTtl : Ofpact → Bool
  | .decTtl _ => true
  | _ => false

def isDecMplsTtl : Ofpact → Bool
  | .decMplsTtl => true
  | _ => false

def isSetQueue : Ofpact → Bool
  | .setQueue _ => true
  | _ => false

def isGroup : Ofpact → Bool
  | .group _ => true
  | _ => false

def isOutput : Ofpact → Bool
  | .output _ _ => true
  | _ => false

def isResubmit : Ofpact → Bool
  | .resubmit _ _ => true
  | _ => false

end Ofpact

def ofpactsCopyLast (filter : Ofpact → Bool) (actionSet : List Ofpact) : List Ofpact :=
  (actionSet.reverse.find? filter).toList

/-- The last of the three steps of `ofpacts_execute_action_set()` that say where the packet goes. -/
def ofpactsDestination (actionSet : List Ofpact) : Option Ofpact :=
  (actionSet.reverse.find? Ofpact.isGroup).or
    ((actionSet.reverse.find? Ofpact.isOutput).or (actionSet.reverse.find? Ofpact.isResubmit))

def ofpactsExecuteActionSet (actionSet : List Ofpact) : List Ofpact :=
  match ofpactsDestination actionSet with
  | none => []
  | some a =>
    ofpactsCopyLast (Ofpact.isSet .stripVlan) actionSet ++
      ofpactsCopyLast Ofpact.isPopMpls actionSet ++
      ofpactsCopyLast Ofpact.isPushMpls actionSet ++
      ofpactsCopyLast (Ofpact.isSet .pushVlan) actionSet ++
      ofpactsCopyLast Ofpact.isDecTtl actionSet ++
      ofpactsCopyLast Ofpact.isDecMplsTtl actionSet ++
      actionSet.filter Ofpact.isSetOrMove ++
      ofpactsCopyLast Ofpact.isSetQueue actionSet ++ [a]

variable {actionSet : List Ofpact} {a : Ofpact}

/-- `struct rule_dpif`. -/
structure Rule where
  cookie : BitVec 64
  ofpacts : List Ofpact
  isInternal : Bool
  isTableMiss : Bool

/-- The types of groups. -/
inductive GroupType where
  | all
  | indirect
  | select
  | ff

/-- `struct group_dpif`. -/
structure Group where
  type : GroupType
  buckets : List (Bucket (List Ofpact))

/-! ## MPLS labels -/

def ethTypeMpls (ethType : BitVec 16) : Bool := ethType = 0x8847 ∨ ethType = 0x8848

def mplsBosMask : BitVec 32 := 0x100

def mplsTtlMask : BitVec 32 := 0xff

def ipDscpMask : BitVec 8 := 0xfc

def flowMaxMplsLabels : ℕ := 3

/-- The loop of `flow_count_mpls_labels()`. -/
def flowCountMplsLabelsFrom (f : Flow) : List (Fin 4) → ℕ → Wildcards → ℕ × Wildcards
  | [], cnt, wc => (cnt, wc)
  | i :: is, cnt, wc =>
    let wc := orBits wc (.mplsLse i) mplsBosMask
    if f (.mplsLse i) &&& mplsBosMask ≠ 0 then (i + 1, wc)
    else flowCountMplsLabelsFrom f is (if f (.mplsLse i) ≠ 0 then cnt + 1 else cnt) wc

def flowCountMplsLabels (f : Flow) (wc : Wildcards) : ℕ × Wildcards :=
  if ethTypeMpls (f .dlType) then flowCountMplsLabelsFrom f [0, 1, 2] 0 wc else (0, wc)

/-- The flow without its first label. -/
def withoutLabel (f : Flow) (n : ℕ) (ethType : BitVec 16) : Flow
  | .mplsLse i =>
    if i.val + 1 < n then f (.mplsLse (i + 1))
    else if i.val + 1 = n then 0
    else f (.mplsLse i)
  | .dlType => ethType
  | x => f x

/-- `flow_pop_mpls()`, with `n` labels: nothing if it fails. -/
def flowPopMpls (f : Flow) (n : ℕ) (ethType : BitVec 16) (wc : Wildcards) :
    Option Flow × Wildcards :=
  let wc := if n = flowMaxMplsLabels then orBits wc (.mplsLse 2) mplsBosMask else wc
  if n = 0 ∨ n = flowMaxMplsLabels ∧ f (.mplsLse 2) &&& mplsBosMask = 0 then (none, wc)
  else
    let labels := ([1, 2, 3] : List (Fin 4)).take (n - 1)
    (some (withoutLabel f n ethType), exactAll wc (labels.map .mplsLse))

/-- The label that `flow_push_mpls()` gives to a packet without labels. -/
def firstLabel (f : Flow) : BitVec 32 :=
  let label : BitVec 32 := if f .dlType = ethTypeIpv6 then 2 else 0
  let tc : BitVec 8 := if isIpAny f then (f .nwTos &&& ipDscpMask) >>> 2 else 0
  let ttl : BitVec 8 := if isIpAny f ∧ f .nwTtl ≠ 0 then f .nwTtl else 64
  ttl.setWidth 32 ||| ((tc.setWidth 32 &&& 7) <<< 9) ||| mplsBosMask ||| (label <<< 12)

/-- The flow with a first label.  All fields of layers 3 and 4 become zero. -/
def withFirstLabel (f : Flow) (ethType : BitVec 16) : Flow
  | .mplsLse i => if i = 0 then firstLabel f else f (.mplsLse i)
  | .dlType => ethType
  | .dpHash => 0
  | .nwSrc => 0
  | .nwDst => 0
  | .ipv6Src => 0
  | .ipv6Dst => 0
  | .ipv6Label => 0
  | .nwFrag => 0
  | .nwTos => 0
  | .nwTtl => 0
  | .nwProto => 0
  | .ndTarget => 0
  | .arpSha => 0
  | .arpTha => 0
  | .tcpFlags => 0
  | .tpSrc => 0
  | .tpDst => 0
  | .igmpGroupIp4 => 0
  | x => f x

/-- The flow with another label in front of `n` labels. -/
def withLabel (f : Flow) (n : ℕ) (ethType : BitVec 16) : Flow
  | .mplsLse i =>
    if i = 0 then f (.mplsLse 0) &&& ~~~mplsBosMask
    else if i.val ≤ n then f (.mplsLse (i - 1))
    else f (.mplsLse i)
  | .dlType => ethType
  | x => f x

def flowPushMpls (f : Flow) (n : ℕ) (ethType : BitVec 16) (wc : Wildcards) : Flow × Wildcards :=
  if n = 0 then
    (withFirstLabel f ethType, if isIpAny f then exact (orBits wc .nwTos ipDscpMask) .nwTtl else wc)
  else
    let labels := ([0, 1, 2, 3] : List (Fin 4)).take n
    (withLabel f n ethType, exactAll wc (labels.map .mplsLse))

/-! ## The environment -/

/-- The members of `struct xport` that `xlate_normal()` has no use for. -/
structure PortConfig (β : Type) where
  noFlood : Bool
  noRecv : Bool
  noRecvStp : Bool
  learns : Bool
  peer : Option (β × BitVec 16)

/-- What `rule_dpif_lookup_from_table()` finds: a rule, the table it is in, and the wildcards. -/
structure Lookup where
  rule : Option Rule
  tableId : ℕ
  wc : Wildcards

/-- What `process_special()` does: if the packet has been processed, the world, and the wildcards.
-/
structure Special (ω : Type) where
  slow : Bool
  world : ω
  wc : Wildcards

/-- What `output_normal()` asks a bond: which slave the packet goes to, if it has to be
recirculated, the world, and the wildcards. -/
structure BondChoice (ω : Type) where
  slave : Option (BitVec 16)
  useRecirc : Bool
  world : ω
  wc : Wildcards

/-- What `commit_odp_actions()` does: actions, the base flow, and the wildcards. -/
structure Committed (α : Type) where
  actions : List α
  baseFlow : Flow
  wc : Wildcards

/-- What becomes of an output to a port that is not a patch port.  There are no actions if the port
does not send the packet after all.  An ARP request is flooded if a native tunnel does not know the
address of its other end. -/
structure Egress (α : Type) where
  actions : Option (List α)
  flow : Flow
  baseFlow : Flow
  wc : Wildcards
  arpRequest : Bool

/-- What the translation of a packet depends on: `β` are the bridges, `ω` the states of the world,
and `α` the datapath actions. -/
structure Env (β ω α : Type) where
  xbridge : β → XBridge
  portConfig : β → BitVec 16 → PortConfig β
  ports : β → List (BitVec 16)
  mbridge : β → MBridge
  enableRecirc : β → Bool
  hasPacket : Bool
  origSkbPriority : BitVec 32
  mayLearn : Bool
  now : ω → ℤ
  lookup : ω → β → Flow → Wildcards → (tableId : ℕ) → (inPort : BitVec 16) →
    (mayPacketIn honorTableMiss : Bool) → Lookup
  group : ω → β → BitVec 32 → Option Group
  mayEnable : ω → β → BitVec 16 → Option Bool
  processSpecial : ω → β → BitVec 16 → Flow → Wildcards → Special ω
  tables : ω → β → Tables
  setTables : ω → β → Tables → ω
  bondVerdict : ω → β → Flow → BondVerdict
  heapMax : ω → β → ℕ
  bondChoice : ω → β → XBundle → Flow → (vid : ℕ) → Wildcards → BondChoice ω
  learn : ω → β → ℕ → Flow → Wildcards → ω × Wildcards
  addFlows : ω → β → ω
  queueToPriority : β → BitVec 32 → Option (BitVec 32)
  commit : β → (flow baseFlow : Flow) → Wildcards → Committed α
  egress : ω → β → BitVec 16 → (useRecirc : Bool) → (flow baseFlow : Flow) → Wildcards → Egress α
  egress_actsetOutput : ∀ w b port useRecirc f baseFlow wc,
    (egress w b port useRecirc f baseFlow wc).flow .actsetOutput = f .actsetOutput
  sample : β → ℕ → Flow → Option (List α)
  recirculate : ω → β → Option Rule → List Ofpact → Option (BitVec 32) × ω
  recirc : BitVec 32 → α
  size : List α → ℕ

/-- `enum ofproto_packet_in_miss_type`. -/
inductive MissType where
  | noMiss
  | missFlow
  | missWithoutFlow
deriving DecidableEq

/-- `struct ofproto_packet_in`, for the bridge that sends it.  The packet is the one that came in
after the actions so far. -/
structure PacketIn (β α : Type) where
  bridge : β
  actions : List α
  reason : PacketInReason
  tableId : ℕ
  cookie : BitVec 64
  metadata : Flow
  controllerId : BitVec 16
  sendLen : BitVec 16
  missType : MissType

/-- The part of the context before a step that is recorded with it. -/
structure Snapshot (β : Type) where
  bridge : β
  flow : Flow
  actionSet : List Ofpact
  actionSetHasGroup : Bool
  inGroup : Bool
  inSetCall : Bool
  setDone : Bool

/-- What a translation does: it executes an action, sends a packet to the controller because of an
output action, executes an action set, or has an ARP request flooded. -/
inductive Step (β : Type) where
  | action (a : Ofpact) (s : Snapshot β)
  | controller (s : Snapshot β)
  | actionSet (s : Snapshot β)
  | arpRequest (s : Snapshot β)

/-- The context before a step. -/
def Step.snapshot {β : Type} : Step β → Snapshot β
  | .action _ s | .controller s | .actionSet s | .arpRequest s => s

/-- `struct xlate_ctx`, with what it points to. -/
structure Ctx (β ω α : Type) where
  bridge : β
  flow : Flow
  baseFlow : Flow
  wc : Wildcards
  odpActions : List α
  packetIns : List (PacketIn β α)
  mirrors : BitVec 32
  stack : List (BitVec 128)
  actionSet : List Ofpact
  actionSetHasGroup : Bool
  inActionSet : Bool
  inGroup : Bool
  wasMpls : Bool
  tableId : ℕ
  rule : Option Rule
  ruleCookie : BitVec 64
  recurse : ℕ
  resubmits : ℕ
  exit : Bool
  useRecirc : Bool
  world : ω
  sent : List (β × ℕ)
  tried : List (β × ℕ)
  aborted : Bool
  inSetCall : Bool
  setDone : Bool
  trace : List (Step β)

/-! ## Actions without recursion -/

section Local

variable {β ω α : Type} (env : Env β ω α)

def ofppUnset : BitVec 16 := 0xfff7

/-- The OpenFlow port in `in_port`. -/
def Ctx.inPort (ctx : Ctx β ω α) : BitVec 16 := (ctx.flow .inPort).setWidth 16

def Ctx.snapshot (ctx : Ctx β ω α) : Snapshot β :=
  { bridge := ctx.bridge
    flow := ctx.flow
    actionSet := ctx.actionSet
    actionSetHasGroup := ctx.actionSetHasGroup
    inGroup := ctx.inGroup
    inSetCall := ctx.inSetCall
    setDone := ctx.setDone }

/-- Records a step. -/
def Ctx.push (ctx : Ctx β ω α) (e : Snapshot β → Step β) : Ctx β ω α :=
  { ctx with trace := ctx.trace ++ [e ctx.snapshot] }

/-- A call of `commit_odp_actions()`. -/
def Ctx.commit (ctx : Ctx β ω α) : Ctx β ω α :=
  let r := env.commit ctx.bridge ctx.flow ctx.baseFlow ctx.wc
  { ctx with odpActions := ctx.odpActions ++ r.actions, baseFlow := r.baseFlow, wc := r.wc }

def flowGetMetadata (f : Flow) : Flow
  | .dpHash => f .dpHash
  | .recircId => f .recircId
  | .tunId => f .tunId
  | .tunIpSrc => f .tunIpSrc
  | .tunIpDst => f .tunIpDst
  | .tunGbpId => f .tunGbpId
  | .tunGbpFlags => f .tunGbpFlags
  | .metadata => f .metadata
  | .regs i => f (.regs i)
  | .pktMark => f .pktMark
  | .inPort => f .inPort
  | x => 0#x.bits

/-- How `execute_controller_action()` says if the packet is a table miss. -/
def missType (rule : Option Rule) : MissType :=
  match rule with
  | none => .noMiss
  | some rule =>
    if rule.isTableMiss then .missFlow
    else if rule.isInternal then .missWithoutFlow
    else .noMiss

def executeControllerAction (len : BitVec 16) (reason : PacketInReason) (controllerId : BitVec 16)
    (ctx : Ctx β ω α) : Ctx β ω α :=
  if env.hasPacket then
    let ctx := ctx.commit env
    { ctx with
      packetIns := ctx.packetIns ++
        [{ bridge := ctx.bridge
           actions := ctx.odpActions
           reason := reason
           tableId := ctx.tableId
           cookie := ctx.ruleCookie
           metadata := flowGetMetadata ctx.flow
           controllerId := controllerId
           sendLen := len
           missType := missType ctx.rule }] }
  else ctx

/-- `compose_recirculate_action()`, with the actions that are left. -/
def composeRecirculateAction (ofpacts : List Ofpact) (ctx : Ctx β ω α) : Ctx β ω α :=
  let r := env.recirculate ctx.world ctx.bridge ctx.rule ofpacts
  let ctx := { ctx with exit := true, world := r.2 }
  match r.1 with
  | none => ctx
  | some id =>
    let ctx := ctx.commit env
    { ctx with odpActions := ctx.odpActions ++ [env.recirc id] }

def composeMplsPushAction (ethertype : BitVec 16) (ctx : Ctx β ω α) : Ctx β ω α :=
  let n := flowCountMplsLabels ctx.flow ctx.wc
  let ctx := { ctx with wc := n.2 }
  if flowMaxMplsLabels ≤ n.1 then { ctx with exit := true }
  else
    let ctx := if n.1 = 0 then ctx.commit env else ctx
    let r := flowPushMpls ctx.flow n.1 ethertype ctx.wc
    { ctx with flow := r.1, wc := r.2 }

/-- `compose_mpls_pop_action()`.  A packet with too many labels is dropped, with all its actions. -/
def composeMplsPopAction (ethertype : BitVec 16) (ctx : Ctx β ω α) : Ctx β ω α :=
  let n := flowCountMplsLabels ctx.flow ctx.wc
  let r := flowPopMpls ctx.flow n.1 ethertype n.2
  let ctx := { ctx with wc := r.2 }
  match r.1 with
  | some flow => { ctx with flow := flow, wasMpls := ctx.wasMpls || env.enableRecirc ctx.bridge }
  | none =>
    if flowMaxMplsLabels ≤ n.1 then { ctx with exit := true, odpActions := [], sent := [] } else ctx

/-- `compose_dec_mpls_ttl_action()`, with its result. -/
def composeDecMplsTtlAction (ctx : Ctx β ω α) : Bool × Ctx β ω α :=
  if ethTypeMpls (ctx.flow .dlType) then
    let lse := ctx.flow (.mplsLse 0)
    let ctx := { ctx with wc := orBits ctx.wc (.mplsLse 0) mplsTtlMask }
    if 1 < (lse &&& mplsTtlMask).toNat then
      (false, { ctx with flow := update ctx.flow (.mplsLse 0) (lse - 1) })
    else (true, executeControllerAction env 0xffff .invalidTtl 0 ctx)
  else (true, ctx)

/-- `compose_dec_ttl()`, with its result. -/
def composeDecTtl (controllers : List (BitVec 16)) (ctx : Ctx β ω α) : Bool × Ctx β ω α :=
  if !isIpAny ctx.flow then (false, ctx)
  else if 1 < (ctx.flow .nwTtl).toNat then
    (false, { ctx with flow := update ctx.flow .nwTtl (ctx.flow .nwTtl - 1) })
  else
    (true, controllers.foldl (fun ctx id => executeControllerAction env 0xffff .invalidTtl id ctx)
      ctx)

/-- How `xlate_write_actions()` maintains `actset_output` and `action_set_has_group`. -/
def actsetOutput (s : BitVec 16 × Bool) : Ofpact → BitVec 16 × Bool
  | .output port _ => (port, s.2)
  | .group _ => (ofppUnset, true)
  | _ => s

def xlateWriteActions (ofpacts : List Ofpact) (ctx : Ctx β ω α) : Ctx β ω α :=
  let ctx := { ctx with actionSet := ctx.actionSet ++ ofpacts }
  if ctx.actionSetHasGroup then ctx
  else
    let s := ofpacts.foldl actsetOutput (ctx.flow .actsetOutput, false)
    { ctx with flow := update ctx.flow .actsetOutput s.1, actionSetHasGroup := s.2 }

/-- The actions that are done without translating other ones, and if no more actions of the table
are to be done. -/
def xlateLocalAction (a : Ofpact) (ctx : Ctx β ω α) : Bool × Ctx β ω α :=
  match a with
  | .controller maxLen controllerId reason =>
    (false, executeControllerAction env maxLen reason controllerId ctx)
  | .set _ _ f =>
    let r := f.run ctx.flow ctx.wc
    (false, { ctx with flow := r.1, wc := r.2 })
  | .setQueue queue =>
    let ctx := { ctx with wc := exact ctx.wc .skbPriority }
    match env.queueToPriority ctx.bridge queue with
    | some priority => (false, { ctx with flow := update ctx.flow .skbPriority priority })
    | none => (false, ctx)
  | .popQueue =>
    (false, { ctx with
      wc := exact ctx.wc .skbPriority
      flow := update ctx.flow .skbPriority env.origSkbPriority })
  | .stackPush src mask =>
    (false, { ctx with stack := src ctx.flow :: ctx.stack, wc := mask ctx.wc })
  | .stackPop dst =>
    match ctx.stack with
    | [] => (false, ctx)
    | v :: stack =>
      let r := (dst v).run ctx.flow ctx.wc
      (false, { ctx with stack := stack, flow := r.1, wc := r.2 })
  | .pushMpls ethertype => (false, composeMplsPushAction env ethertype ctx)
  | .popMpls ethertype => (false, composeMplsPopAction env ethertype ctx)
  | .decMplsTtl => composeDecMplsTtlAction env ctx
  | .decTtl controllers =>
    composeDecTtl env controllers { ctx with wc := exact ctx.wc .nwTtl }
  | .learn spec =>
    let r := env.learn ctx.world ctx.bridge spec ctx.flow ctx.wc
    (false, { ctx with world := r.1, wc := r.2 })
  | .sample spec =>
    match env.sample ctx.bridge spec ctx.flow with
    | none => (false, ctx)
    | some actions =>
      let ctx := ctx.commit env
      (false, { ctx with odpActions := ctx.odpActions ++ actions })
  | .finTimeout => (false, { ctx with wc := exact ctx.wc .nwProto })
  | .exit => (false, { ctx with exit := true })
  | .clearActions =>
    (false, { ctx with
      actionSet := []
      flow := update ctx.flow .actsetOutput ofppUnset
      actionSetHasGroup := false })
  | .writeActions ofpacts => (false, xlateWriteActions ofpacts ctx)
  | _ => (false, ctx)

/-- `ofpact_needs_recirculation_after_mpls()`. -/
def needsRecirculationAfterMpls (a : Ofpact) (ctx : Ctx β ω α) : Bool :=
  ctx.wasMpls &&
  match a with
  | .output .. | .group .. | .controller .. | .enqueue .. | .setQueue .. | .popQueue | .note
  | .outputReg .. | .exit | .writeActions .. | .clearActions | .sample .. => false
  | .popMpls .. | .decMplsTtl | .resubmit .. | .stackPush .. | .stackPop .. | .decTtl ..
  | .bundle .. | .learn .. | .finTimeout | .gotoTable .. => true
  | .set _ l3 _ => l3
  | .pushMpls .. =>
    (flowCountMplsLabels ctx.flow ctx.wc).1 = 0 ∧ ctx.flow .nwTtl = 0 ∧ isIpAny ctx.flow

end Local

end Xlate

end OVS
