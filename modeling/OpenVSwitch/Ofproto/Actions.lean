import Mathlib.Data.BitVec
import Mathlib.Data.List.Basic

/-!
# OpenFlow actions

The actions of a flow or a bucket (`lib/ofp-actions.c`), as far as the switch looks into them when
it manages flows, meters and groups.  Every other action is an opaque `Action.other`.

Actions are a list.  A `write_actions` instruction contains a list of its own, and the scans of
this module do not look inside: they see the top level only.
-/

namespace OVS

namespace Ofproto

/-- A `struct ofpact` without others inside. -/
inductive Action where
  | output (port : ℕ)
  | enqueue (port : ℕ)
  | controller
  | group (groupId : ℕ)
  | meter (meterId : ℕ)
  /-- `OFPACT_LEARN`: the cookie and the table of the flows that it adds, and whether
      `NX_LEARN_F_DELETE_LEARNED` is set. -/
  | learn (cookie : BitVec 64) (tableId : ℕ) (deleteLearned : Bool)
  | other (tag : ℕ)
deriving DecidableEq

inductive Ofpact where
  | action (a : Action)
  /-- `OFPACT_WRITE_ACTIONS`. -/
  | writeActions (actions : List Action)
deriving DecidableEq

def ofppAny : ℕ := 0xffff

def ofppController : ℕ := 0xfffd

def ofpgMax : ℕ := 0xffffff00

def ofpgAll : ℕ := 0xfffffffc

def ofpgAny : ℕ := 0xffffffff

namespace Ofpact

def outputsToPort (port : ℕ) : Ofpact → Bool
  | action (.output p) => p = port
  | action (.enqueue p) => p = port
  | action .controller => port = ofppController
  | _ => false

/-- An `OFPACT_GROUP` for the group. -/
def isGroup (groupId : ℕ) : Ofpact → Bool
  | action (.group g) => g = groupId
  | _ => false

/-- The group is named, at the top level or inside a `write_actions` instruction. -/
def names (groupId : ℕ) : Ofpact → Bool
  | action a => a = .group groupId
  | writeActions actions => Action.group groupId ∈ actions

/-- An `OFPACT_LEARN` with `NX_LEARN_F_DELETE_LEARNED`: cookie and table. -/
def learnWithDelete : Ofpact → Option (BitVec 64 × ℕ)
  | action (.learn cookie tableId true) => some (cookie, tableId)
  | _ => none

end Ofpact

def ofpactsOutputToPort (ofpacts : List Ofpact) (port : ℕ) : Bool :=
  ofpacts.any (Ofpact.outputsToPort port)

def ofpactsOutputToGroup (ofpacts : List Ofpact) (groupId : ℕ) : Bool :=
  ofpacts.any (Ofpact.isGroup groupId)

/-- `ofpacts_get_meter()`.  A meter instruction can only come first. -/
def ofpactsGetMeter : List Ofpact → ℕ
  | .action (.meter m) :: _ => m
  | _ => 0

/-- The iteration with `next_learn_with_delete()`. -/
def learnsWithDelete (ofpacts : List Ofpact) : List (BitVec 64 × ℕ) :=
  ofpacts.filterMap Ofpact.learnWithDelete

end Ofproto

end OVS
