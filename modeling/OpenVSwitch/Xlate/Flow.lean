import OpenVSwitch.Lib.Masked

/-!
# Flows by their members

The translation of flows to datapath actions reads and writes the members of a `struct flow`, so
here a flow has a value for each of them.  Members in network byte order and Ethernet addresses are
numbers whose most significant byte is the first one in memory.

A `struct flow_wildcards` is a flow, too, with ones in the bits that matter.  Names are those of
the source, in camel case.
-/

namespace OVS

namespace Xlate

/-- The members of `struct flow`, with those of `struct flow_tnl`. -/
inductive FlowField where
  | tunId
  | tunIpSrc
  | tunIpDst
  | tunFlags
  | tunIpTos
  | tunIpTtl
  | tunTpSrc
  | tunTpDst
  | tunGbpId
  | tunGbpFlags
  | metadata
  | regs (i : Fin 8)
  | skbPriority
  | pktMark
  | dpHash
  | inPort
  | recircId
  | conjId
  | actsetOutput
  | dlDst
  | dlSrc
  | dlType
  | vlanTci
  | mplsLse (i : Fin 4)
  | nwSrc
  | nwDst
  | ipv6Src
  | ipv6Dst
  | ipv6Label
  | nwFrag
  | nwTos
  | nwTtl
  | nwProto
  | ndTarget
  | arpSha
  | arpTha
  | tcpFlags
  | tpSrc
  | tpDst
  | igmpGroupIp4
deriving DecidableEq

/-- The number of bits of a member. -/
@[reducible] def FlowField.bits : FlowField → ℕ
  | .tunId | .metadata => 64
  | .tunIpSrc | .tunIpDst => 32
  | .tunFlags | .tunTpSrc | .tunTpDst | .tunGbpId => 16
  | .tunIpTos | .tunIpTtl | .tunGbpFlags => 8
  | .regs _ | .skbPriority | .pktMark | .dpHash | .inPort | .recircId | .conjId => 32
  | .actsetOutput => 16
  | .dlDst | .dlSrc | .arpSha | .arpTha => 48
  | .dlType | .vlanTci => 16
  | .mplsLse _ | .nwSrc | .nwDst | .ipv6Label | .igmpGroupIp4 => 32
  | .ipv6Src | .ipv6Dst | .ndTarget => 128
  | .nwFrag | .nwTos | .nwTtl | .nwProto => 8
  | .tcpFlags | .tpSrc | .tpDst => 16

abbrev Flow := Masked.Record FlowField.bits

/-- `struct flow_wildcards`. -/
abbrev Wildcards := Masked.Record FlowField.bits

/-- The flow, or the wildcards, with zeros only. -/
def Flow.zero : Flow := fun x => 0#x.bits

/-! ## Constants and tests -/

def ethTypeIp : BitVec 16 := 0x0800

def ethTypeIpv6 : BitVec 16 := 0x86dd

def ipprotoIcmp : BitVec 8 := 1

def ipprotoTcp : BitVec 8 := 6

def ipprotoSctp : BitVec 8 := 132

def vlanVidMask : BitVec 16 := 0x0fff

def vlanCfi : BitVec 16 := 0x1000

def vlanPcpMask : BitVec 16 := 0xe000

def flowNwFragMask : BitVec 8 := 3

def isIpAny (f : Flow) : Bool := f .dlType = ethTypeIp ∨ f .dlType = ethTypeIpv6

/-- The wildcards at the start of `xlate_actions()`, with recirculation. -/
def initialWildcards (f : Flow) : Wildcards :=
  let wc := Masked.exactAll Flow.zero [.inPort, .dlType]
  let wc := if isIpAny f then Masked.orBits wc .nwFrag flowNwFragMask else wc
  Masked.exact wc .recircId

lemma initialWildcards_dlType (f : Flow) : initialWildcards f .dlType = BitVec.allOnes 16 := by
  unfold initialWildcards
  split <;> rfl

lemma initialWildcards_inPort (f : Flow) : initialWildcards f .inPort = BitVec.allOnes 32 := by
  unfold initialWildcards
  split <;> rfl

end Xlate

end OVS
