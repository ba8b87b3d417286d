import Mathlib.Data.List.FinRange
import Mathlib.Logic.Function.Basic

/-!
# The spanning tree protocol

`lib/stp.c`: the state of a bridge, and the functions that compute from what its ports have heard
which port leads to the root, for which LANs the bridge is the designated one, and which ports must
be blocked.

Path costs and their sums are numbers.  Notifications and the sending of topology change messages
are left out, and so are the members of the structures that these functions do not use.
-/

namespace OVS

/-- The numbers of ports: `STP_MAX_PORTS` is 255. -/
abbrev StpPortNo := Fin 255

structure StpTimer where
  active : Bool
  value : ℕ
deriving DecidableEq

namespace StpTimer

/-- `stp_start_timer()`. -/
def start (_ : StpTimer) (value : ℕ) : StpTimer := ⟨true, value⟩

/-- `stp_stop_timer()`. -/
def stop (t : StpTimer) : StpTimer := { t with active := false }

end StpTimer

inductive StpState where
  | disabled
  | listening
  | learning
  | forwarding
  | blocking
deriving DecidableEq

/-- `struct stp_port`.  `priority` is the high byte of `port_id`. -/
@[ext]
structure StpPort where
  priority : BitVec 8
  state : StpState
  pathCost : ℕ
  designatedRoot : ℕ
  designatedCost : ℕ
  designatedBridge : ℕ
  designatedPort : ℕ
  topologyChangeAck : Bool
  configPending : Bool
  changeDetectionEnabled : Bool
  messageAgeTimer : StpTimer
  forwardDelayTimer : StpTimer
  stateChanged : Bool
deriving DecidableEq

structure Stp where
  bridgeId : ℕ
  designatedRoot : ℕ
  rootPathCost : ℕ
  rootPort : Option StpPortNo
  topologyChangeDetected : Bool
  topologyChange : Bool
  tcnTimer : StpTimer
  topologyChangeTimer : StpTimer
  ports : StpPortNo → StpPort
  fdbNeedsFlush : Bool
  /-- `first_changed_port`, as a number. -/
  firstChangedPort : ℕ

/-- The member `port_id`: the low byte says which port it is. -/
def StpPort.portId (p : StpPort) (i : StpPortNo) : ℕ := p.priority.toNat <<< 8 ||| (i + 1)

namespace Stp

/-- Writes to a port. -/
def setPort (s : Stp) (i : StpPortNo) (p : StpPort) : Stp :=
  { s with ports := Function.update s.ports i p }

def isRootBridge (s : Stp) : Bool := s.bridgeId = s.designatedRoot

/-- Whether `FOR_EACH_ENABLED_PORT` comes to a port. -/
def enabled (s : Stp) (i : StpPortNo) : Bool := (s.ports i).state ≠ .disabled

def isDesignatedPort (s : Stp) (i : StpPortNo) : Bool :=
  (s.ports i).designatedBridge = s.bridgeId && (s.ports i).designatedPort = (s.ports i).portId i

/-! ## Configuration -/

def supersedesRoot (s : Stp) (root i : StpPortNo) : Bool :=
  let r := s.ports root
  let p := s.ports i
  let pCost := p.designatedCost + p.pathCost
  let rootCost := r.designatedCost + r.pathCost
  if p.designatedRoot ≠ r.designatedRoot then p.designatedRoot < r.designatedRoot
  else if pCost ≠ rootCost then pCost < rootCost
  else if p.designatedBridge ≠ r.designatedBridge then p.designatedBridge < r.designatedBridge
  else if p.designatedPort ≠ r.designatedPort then p.designatedPort < r.designatedPort
  else p.portId i < r.portId root

/-- The body of the loop of `stp_root_selection()`. -/
def considerRoot (s : Stp) (root : Option StpPortNo) (i : StpPortNo) : Option StpPortNo :=
  if !s.enabled i then root
  else if s.isDesignatedPort i || s.bridgeId ≤ (s.ports i).designatedRoot then root
  else if root.any fun r => !s.supersedesRoot r i then root
  else some i

def rootSelection (s : Stp) : Stp :=
  match (List.finRange 255).foldl s.considerRoot none with
  | none => { s with rootPort := none, designatedRoot := s.bridgeId, rootPathCost := 0 }
  | some root => { s with
      rootPort := some root
      designatedRoot := (s.ports root).designatedRoot
      rootPathCost := (s.ports root).designatedCost + (s.ports root).pathCost }

def becomeDesignatedPort (s : Stp) (i : StpPortNo) : StpPort :=
  { s.ports i with
    designatedRoot := s.designatedRoot
    designatedCost := s.rootPathCost
    designatedBridge := s.bridgeId
    designatedPort := (s.ports i).portId i }

/-- The condition in the loop of `stp_designated_port_selection()`. -/
def shouldBeDesignated (s : Stp) (i : StpPortNo) : Bool :=
  let p := s.ports i
  s.isDesignatedPort i || p.designatedRoot ≠ s.designatedRoot ||
    s.rootPathCost < p.designatedCost ||
    (s.rootPathCost = p.designatedCost && (s.bridgeId < p.designatedBridge ||
      (s.bridgeId = p.designatedBridge && p.portId i ≤ p.designatedPort)))

/-- `stp_designated_port_selection()`.  The ports do not depend on each other. -/
def designatedPortSelection (s : Stp) : Stp :=
  { s with
    ports := fun i =>
      if s.enabled i && s.shouldBeDesignated i then s.becomeDesignatedPort i else s.ports i }

def configurationUpdate (s : Stp) : Stp := s.rootSelection.designatedPortSelection

/-! ## States of ports -/

def setPortState (s : Stp) (i : StpPortNo) (state : StpState) : Stp :=
  let p := s.ports i
  if state ≠ p.state && !p.stateChanged then
    { s.setPort i { p with state, stateChanged := true } with
      firstChangedPort := min s.firstChangedPort i }
  else s.setPort i { p with state }

def topologyChangeDetection (s : Stp) : Stp :=
  let s :=
    if s.isRootBridge then
      { s with topologyChange := true, topologyChangeTimer := s.topologyChangeTimer.start 0 }
    else if !s.topologyChangeDetected then { s with tcnTimer := s.tcnTimer.start 0 }
    else s
  { s with fdbNeedsFlush := true, topologyChangeDetected := true }

def makeForwarding (s : Stp) (i : StpPortNo) : Stp :=
  if (s.ports i).state = .blocking then
    let s := s.setPortState i .listening
    s.setPort i { s.ports i with forwardDelayTimer := (s.ports i).forwardDelayTimer.start 0 }
  else s

def makeBlocking (s : Stp) (i : StpPortNo) : Stp :=
  let p := s.ports i
  if p.state ≠ .disabled && p.state ≠ .blocking then
    let s :=
      if (p.state = .forwarding || p.state = .learning) && p.changeDetectionEnabled then
        s.topologyChangeDetection
      else s
    let s := s.setPortState i .blocking
    s.setPort i { s.ports i with forwardDelayTimer := (s.ports i).forwardDelayTimer.stop }
  else s

/-- Nothing is to be sent from a port. -/
def clearPending (s : Stp) (i : StpPortNo) : Stp :=
  s.setPort i { s.ports i with configPending := false, topologyChangeAck := false }

/-- The body of the loop of `stp_port_state_selection()`. -/
def selectPortState (s : Stp) (i : StpPortNo) : Stp :=
  if !s.enabled i then s
  else if s.rootPort = some i then (s.clearPending i).makeForwarding i
  else if s.isDesignatedPort i then
    (s.setPort i { s.ports i with
      messageAgeTimer := (s.ports i).messageAgeTimer.stop }).makeForwarding i
  else (s.clearPending i).makeBlocking i

def portStateSelection (s : Stp) : Stp := (List.finRange 255).foldl selectPortState s

end Stp

/-- What a configuration message says about the way to the root. -/
structure StpConfig where
  rootId : ℕ
  rootPathCost : ℕ
  bridgeId : ℕ
  portId : ℕ
deriving DecidableEq

/-- What a port has heard, as `stp_record_config_information()` stores it. -/
def StpPort.config (p : StpPort) : StpConfig :=
  ⟨p.designatedRoot, p.designatedCost, p.designatedBridge, p.designatedPort⟩

/-- What `stp_transmit_config()` sends from a port, if timers do not prevent it. -/
def Stp.transmitConfig (s : Stp) (i : StpPortNo) : Option StpConfig :=
  if !s.isRootBridge && s.rootPort.isNone then none
  else some ⟨s.designatedRoot, s.rootPathCost, s.bridgeId, (s.ports i).portId i⟩

end OVS
