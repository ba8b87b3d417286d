import OpenVSwitch.Lib.Match
import OpenVSwitch.Ofproto.Group

/-!
# Flow mods

The flow tables of a switch and everything that changes them (`ofproto/ofproto.c`): flow mods, the
deletion of meters and groups, and timeouts.

**Rules.**  A rule in a table has an identity, which stands for its address: the cookie index, the
list of the rules that can expire and the lists of the meters all hold identities.  A classifier
is the list of the rules of its table; that it finds rules as it should is another matter.

**Learned flows.**  A learn action may ask for the flows with its cookie to be deleted together
with the last rule that has such an action.  Deleting rules can therefore delete more rules, and
so on: `deleteFlowsFuel` recurses, at most once for each rule (`deleteFlowsFuel_eq`).

**The rest of the switch.**  `Config` has what flow mods read but do not change.  The eviction
groups of a table are an arbitrary order in which its rules are evicted, and hash functions are
arbitrary functions.
-/

namespace OVS

namespace Ofproto

/-! ## Rules -/

structure ClsRule (w : ℕ) where
  minimatch : Match w
  priority : ℤ
deriving DecidableEq

/-- The part of `struct rule` that flow mods set. -/
structure FlowEntry where
  flowCookie : BitVec 64
  idleTimeout : ℕ
  hardTimeout : ℕ
  importance : ℕ
  flags : BitVec 8
  ofpacts : List Ofpact
deriving DecidableEq

structure Rule (w : ℕ) extends FlowEntry where
  id : ℕ
  tableId : ℕ
  cr : ClsRule w

def Rule.isHidden {w : ℕ} (rule : Rule w) : Bool := rule.cr.priority > 0xffff

/-- `OFPUTIL_FF_STATE`. -/
def ffState : BitVec 8 := 0x07

/-- `OFPUTIL_FF_CHECK_OVERLAP`. -/
def ffCheckOverlap : BitVec 8 := 0x08

/-- `OFPUTIL_FF_HIDDEN_FIELDS`. -/
def ffHiddenFields : BitVec 8 := 0x40

/-- `OFPUTIL_FF_NO_READONLY`. -/
def ffNoReadonly : BitVec 8 := 0x80

/-- `OVS_BE64_MAX`. -/
def be64Max : BitVec 64 := BitVec.allOnes 64

/-- `enum ofp_flow_mod_command`. -/
inductive FlowCommand where
  | add
  | modify
  | modifyStrict
  | delete
  | deleteStrict
deriving DecidableEq

/-- The errors of sending a buffered packet. -/
inductive BufferError where
  | empty
  | unknown
deriving DecidableEq

/-- The errors of flow mods. -/
inductive FlowError where
  | badTableId
  | eperm
  | overlap
  | tableFull
  | invalidMeter
  | badOutGroup
  | buffer (e : BufferError)
deriving DecidableEq

/-- `struct ofputil_flow_mod`. -/
structure FlowMod (w : ℕ) where
  minimatch : Match w
  priority : ℤ
  cookie : BitVec 64
  cookieMask : BitVec 64
  newCookie : BitVec 64
  modifyCookie : Bool
  tableId : ℕ
  command : FlowCommand
  idleTimeout : ℕ
  hardTimeout : ℕ
  importance : ℕ
  outPort : ℕ
  outGroup : ℕ
  flags : BitVec 8
  ofpacts : List Ofpact
  /-- What `send_buffered_packet()` returns for the buffer of the flow mod. -/
  buffered : Option BufferError

namespace FlowMod

variable {w : ℕ}

/-- A flag is set. -/
def has (fm : FlowMod w) (flag : BitVec 8) : Bool := fm.flags &&& flag ≠ 0

/-- `cls_rule_init()` for the flow mod. -/
def cr (fm : FlowMod w) : ClsRule w := ⟨fm.minimatch, fm.priority⟩

/-- The table to which a flow is added: `rule_choose_table()` is not implemented. -/
def target (fm : FlowMod w) : ℕ := if fm.tableId = 0xff then 0 else fm.tableId

/-- The flow that is added. -/
def entry (fm : FlowMod w) : FlowEntry :=
  ⟨fm.newCookie, fm.idleTimeout, fm.hardTimeout, fm.importance, fm.flags &&& ffState, fm.ofpacts⟩

/-- The rule that is added. -/
def rule (fm : FlowMod w) (id : ℕ) : Rule w :=
  { fm.entry with id := id, tableId := fm.target, cr := fm.cr }

end FlowMod

/-! ## The switch -/

/-- `struct ofproto`. -/
structure Switch (w : ℕ) where
  rules : List (Rule w)
  /-- The identity of the next rule. -/
  next : ℕ
  /-- The cookie index: the hash of the cookie under which a rule has been inserted. -/
  cookies : List (BitVec 32 × ℕ)
  expirable : List ℕ
  /-- The meters that exist, with the rules on their lists. -/
  meters : ℕ → Option (List ℕ)
  /-- How many rules have a learn action for a cookie and a table; 0 if there is no
      `struct learned_cookie`. -/
  learnedCookies : BitVec 64 × ℕ → ℕ
  groups : GroupTable

/-- What flow mods read but do not change. -/
structure Config (w : ℕ) where
  nTables : ℕ
  nTables_pos : 0 < nTables
  nTables_le : nTables ≤ 255
  readonly : ℕ → Bool
  hidden : ℕ → Bool
  maxFlows : ℕ → ℕ
  /-- `match_has_default_hidden_fields()`. -/
  defaultHiddenFields : Match w → Bool
  hashCookie : BitVec 64 → BitVec 32
  /-- The order in which the rules of a table would be evicted. -/
  evictionOrder : Switch w → ℕ → List ℕ
  maxMeters : ℕ
  maxBands : ℕ
  maxGroups : GroupType → ℕ

namespace Switch

variable {w : ℕ}

/-- The switch without rules, meters and groups. -/
def empty : Switch w := ⟨[], 0, [], [], fun _ => none, fun _ => 0, GroupTable.empty⟩

/-- The rule with an identity. -/
def rule (s : Switch w) (id : ℕ) : Option (Rule w) := s.rules.find? fun r => r.id = id

/-- A rule is changed in place. -/
def set (s : Switch w) (rule : Rule w) : Switch w :=
  { s with rules := s.rules.map fun r => if r.id = rule.id then rule else r }

def cookiesInsert (hash : BitVec 32) (id : ℕ) (s : Switch w) : Switch w :=
  { s with cookies := (hash, id) :: s.cookies }

def cookiesRemove (id : ℕ) (s : Switch w) : Switch w :=
  { s with cookies := s.cookies.filter fun p => p.2 ≠ id }

/-- `classifier_remove()` and `ofproto_rule_remove__()`. -/
def remove (s : Switch w) (id : ℕ) : Switch w :=
  { s with
    rules := s.rules.filter fun r => r.id ≠ id
    cookies := s.cookies.filter fun p => p.2 ≠ id
    expirable := s.expirable.filter fun i => i ≠ id
    meters := fun m => (s.meters m).map fun l => l.filter fun i => i ≠ id }

/-- The count of a learned cookie changes. -/
def setLearned (s : Switch w) (c : BitVec 64 × ℕ) (n : ℕ) : Switch w :=
  { s with learnedCookies := Function.update s.learnedCookies c n }

def learnedCookiesInc (s : Switch w) (ofpacts : List Ofpact) : Switch w :=
  (learnsWithDelete ofpacts).foldl (fun s c => s.setLearned c (s.learnedCookies c + 1)) s

/-- `learned_cookies_dec()`, with the dead cookies. -/
def learnedCookiesDec (ofpacts : List Ofpact) (p : Switch w × List (BitVec 64 × ℕ)) :
    Switch w × List (BitVec 64 × ℕ) :=
  (learnsWithDelete ofpacts).foldl
    (fun p c =>
      (p.1.setLearned c (p.1.learnedCookies c - 1),
        if p.1.learnedCookies c = 1 then p.2 ++ [c] else p.2)) p

end Switch

/-! ## Collecting rules -/

structure RuleCriteria (w : ℕ) where
  tableId : ℕ
  cr : ClsRule w
  cookie : BitVec 64
  cookieMask : BitVec 64
  outPort : ℕ
  outGroup : ℕ
  includeHidden : Bool
  includeReadonly : Bool

/-- `rule_criteria_init()`, followed by `rule_criteria_require_rw()`. -/
def ruleCriteriaInit {w : ℕ} (tableId : ℕ) (minimatch : Match w) (priority : ℤ)
    (cookie cookieMask : BitVec 64) (outPort outGroup : ℕ) (canWriteReadonly : Bool) :
    RuleCriteria w where
  tableId := tableId
  cr := ⟨minimatch, priority⟩
  cookie := cookie
  cookieMask := cookieMask
  outPort := outPort
  outGroup := outGroup
  includeHidden := priority > 0xffff
  includeReadonly := canWriteReadonly

/-- `ofproto_rule_has_out_port()`. -/
def FlowEntry.hasOutPort (e : FlowEntry) (port : ℕ) : Bool :=
  port = ofppAny || ofpactsOutputToPort e.ofpacts port

/-- `ofproto_rule_has_out_group()`. -/
def FlowEntry.hasOutGroup (e : FlowEntry) (groupId : ℕ) : Bool :=
  groupId = ofpgAny || ofpactsOutputToGroup e.ofpacts groupId

section

variable {w : ℕ} (C : Config w)

def checkTableId (tableId : ℕ) : Bool := tableId = 0xff ∨ tableId < C.nTables

/-- The tables of `FOR_EACH_MATCHING_TABLE`. -/
def matchingTables (tableId : ℕ) : List ℕ :=
  if tableId = 0xff then (List.range C.nTables).filter fun t => !C.hidden t
  else if tableId < C.nTables then [tableId]
  else []

/-- The rules with the hash of a cookie in the cookie index. -/
def withCookie (s : Switch w) (cookie : BitVec 64) : List (Rule w) :=
  (s.cookies.filter fun p => p.1 = C.hashCookie cookie).filterMap fun p => s.rule p.2

/-- The condition of `collect_rule()`, apart from read-only tables. -/
def RuleCriteria.accepts (c : RuleCriteria w) (rule : Rule w) : Bool :=
  (c.tableId = rule.tableId || c.tableId = 0xff)
    && rule.hasOutPort c.outPort
    && rule.hasOutGroup c.outGroup
    && (rule.flowCookie ^^^ c.cookie) &&& c.cookieMask = 0
    && (!rule.isHidden || c.includeHidden)

/-- `collect_rule()` on each of the candidates, and the check for read-only tables. -/
def collect (c : RuleCriteria w) (candidates : List (Rule w)) : Except FlowError (List ℕ) :=
  let accepted := candidates.filter c.accepts
  let rules := accepted.filter fun r => !C.readonly r.tableId || c.includeReadonly
  if rules = [] ∧ accepted ≠ [] then .error .eperm else .ok (rules.map Rule.id)

def collectRulesLoose (s : Switch w) (c : RuleCriteria w) : Except FlowError (List ℕ) :=
  if checkTableId C c.tableId = false then .error .badTableId
  else if c.cookieMask = be64Max then
    collect C c ((withCookie C s c.cookie).filter fun r => r.cr.minimatch.Loose c.cr.minimatch)
  else
    collect C c ((matchingTables C c.tableId).flatMap fun t =>
      s.rules.filter fun r => r.tableId = t ∧ r.cr.minimatch.Loose c.cr.minimatch)

/-- `classifier_find_rule_exactly()` in a table. -/
def findRuleExactly (s : Switch w) (tableId : ℕ) (cr : ClsRule w) : Option (Rule w) :=
  s.rules.find? fun r => r.tableId = tableId ∧ r.cr = cr

def collectRulesStrict (s : Switch w) (c : RuleCriteria w) : Except FlowError (List ℕ) :=
  if checkTableId C c.tableId = false then .error .badTableId
  else if c.cookieMask = be64Max then
    collect C c ((withCookie C s c.cookie).filter fun r => r.cr = c.cr)
  else collect C c ((matchingTables C c.tableId).filterMap fun t => findRuleExactly s t c.cr)

/-! ## Deleting rules -/

/-- One iteration of `delete_flows__()`. -/
def deleteFlow (p : Switch w × List (BitVec 64 × ℕ)) (id : ℕ) :
    Switch w × List (BitVec 64 × ℕ) :=
  match p.1.rule id with
  | none => p
  | some rule => Switch.learnedCookiesDec rule.ofpacts (p.1.remove id, p.2)

/-- The rules that one iteration of `learned_cookies_flush()` deletes. -/
def learnedRules (s : Switch w) (c : BitVec 64 × ℕ) : List ℕ :=
  match collectRulesLoose C s
      (ruleCriteriaInit c.2 Match.catchall 0 c.1 be64Max ofppAny ofpgAny false) with
  | .error _ => []
  | .ok ids => ids

/-- `delete_flows__()`, with `learned_cookies_flush()`. -/
def deleteFlowsFuel : ℕ → Switch w → List ℕ → Switch w
  | 0, s, _ => s
  | fuel + 1, s, ids =>
    let p := ids.foldl deleteFlow (s, [])
    p.2.foldl (fun s c => deleteFlowsFuel fuel s (learnedRules C s c)) p.1

def deleteFlows (s : Switch w) (ids : List ℕ) : Switch w :=
  deleteFlowsFuel C (s.rules.length + 1) s ids

def learnedCookiesFlush (p : Switch w × List (BitVec 64 × ℕ)) : Switch w :=
  p.2.foldl (fun s c => deleteFlows C s (learnedRules C s c)) p.1

/-! ## Modifying rules -/

/-- `change_cookie` in `modify_flows__()`. -/
def changeCookie (fm : FlowMod w) (rule : Rule w) : Bool :=
  fm.modifyCookie && fm.newCookie ≠ be64Max && fm.newCookie ≠ rule.flowCookie

/-- What `modify_flows__()` makes of a rule. -/
def modified (fm : FlowMod w) (rule : Rule w) : Rule w :=
  { rule with
    flowCookie := if changeCookie fm rule then fm.newCookie else rule.flowCookie
    idleTimeout := if fm.command = .add then fm.idleTimeout else rule.idleTimeout
    hardTimeout := if fm.command = .add then fm.hardTimeout else rule.hardTimeout
    importance := if fm.command = .add then fm.importance else rule.importance
    flags := if fm.command = .add then fm.flags &&& ffState else rule.flags
    ofpacts := fm.ofpacts }

/-- The rule is changed, and moved in the cookie index.  Nothing else is: it stays on the lists it
is on. -/
def modifyRule (fm : FlowMod w) (s : Switch w) (rule : Rule w) : Switch w :=
  if changeCookie fm rule then
    ((s.set (modified fm rule)).cookiesRemove rule.id).cookiesInsert
      (C.hashCookie fm.newCookie) rule.id
  else s.set (modified fm rule)

/-- One iteration of `modify_flows__()`. -/
def modifyFlow (fm : FlowMod w) (p : Switch w × List (BitVec 64 × ℕ)) (id : ℕ) :
    Switch w × List (BitVec 64 × ℕ) :=
  match p.1.rule id with
  | none => p
  | some rule =>
    let s := modifyRule C fm p.1 rule
    if fm.ofpacts ≠ rule.ofpacts then
      Switch.learnedCookiesDec rule.ofpacts (s.learnedCookiesInc fm.ofpacts, p.2)
    else (s, p.2)

def modifyFlows (s : Switch w) (fm : FlowMod w) (ids : List ℕ) : Switch w × Option FlowError :=
  (learnedCookiesFlush C (ids.foldl (modifyFlow C fm) (s, [])), fm.buffered.map .buffer)

/-! ## Adding rules -/

/-- `classifier_rule_overlaps()` in a table. -/
def ruleOverlaps (s : Switch w) (tableId : ℕ) (cr : ClsRule w) : Bool :=
  s.rules.any fun r => r.tableId = tableId && r.cr.priority = cr.priority &&
    r.cr.minimatch.Overlaps cr.minimatch

/-- `evict_rules_from_table()`.  The number of flows is an `unsigned int`. -/
def evictRulesFromTable (s : Switch w) (tableId extraSpace : ℕ) : Switch w × Option FlowError :=
  let count := ((s.rules.countP fun r => r.tableId = tableId) + extraSpace) % 2 ^ 32
  let excess := count - C.maxFlows tableId
  let evictable := ((C.evictionOrder s tableId).filter fun id =>
    s.rules.any fun r => r.id = id && r.tableId = tableId).dedup
  (deleteFlows C s (evictable.take excess),
    if evictable.length < excess then some .tableFull else none)

/-- `meter_insert_rule()`.  The meter exists (`ofproto_check_ofpacts()`). -/
def meterInsertRule (s : Switch w) (id meterId : ℕ) : Switch w :=
  { s with meters :=
      Function.update s.meters meterId ((s.meters meterId).map fun l => id :: l) }

/-- The end of `add_flow()`: a new rule, in the cookie index and on the list of the rules that can
expire. -/
def linkRule (s : Switch w) (fm : FlowMod w) : Switch w :=
  { s with
    rules := fm.rule s.next :: s.rules
    next := s.next + 1
    cookies := (C.hashCookie fm.newCookie, s.next) :: s.cookies
    expirable := if fm.hardTimeout ≠ 0 ∨ fm.idleTimeout ≠ 0 then s.next :: s.expirable
      else s.expirable }

/-- The end of `add_flow()`, with the list of the meter that the rule uses. -/
def insertRule (s : Switch w) (fm : FlowMod w) : Switch w :=
  if ofpactsGetMeter fm.ofpacts ≠ 0 then
    meterInsertRule (linkRule C s fm) s.next (ofpactsGetMeter fm.ofpacts)
  else linkRule C s fm

/-- The second half of `add_flow()`: there is no identical flow. -/
def addNewFlow (s : Switch w) (fm : FlowMod w) : Switch w × Option FlowError :=
  if fm.has ffCheckOverlap ∧ ruleOverlaps s fm.target fm.cr then (s, some .overlap)
  else
    match evictRulesFromTable C s fm.target 1 with
    | (s, some e) => (s, some e)
    | (s, none) => ((insertRule C s fm).learnedCookiesInc fm.ofpacts, fm.buffered.map .buffer)

def addFlow (s : Switch w) (fm : FlowMod w) : Switch w × Option FlowError :=
  if checkTableId C fm.tableId = false then (s, some .badTableId)
  else if C.readonly fm.target ∧ fm.has ffNoReadonly = false then (s, some .eperm)
  else if fm.has ffHiddenFields = false ∧ C.defaultHiddenFields fm.minimatch = false then
    (s, some .eperm)
  else
    match findRuleExactly s fm.target fm.cr with
    | some rule => modifyFlows C s { fm with modifyCookie := true } [rule.id]
    | none => addNewFlow C s fm

/-! ## Flow mods -/

def modifyFlowsAdd (s : Switch w) (fm : FlowMod w) : Switch w × Option FlowError :=
  if fm.cookieMask ≠ 0 ∨ fm.newCookie = be64Max then (s, none) else addFlow C s fm

def modifyFlowsLoose (s : Switch w) (fm : FlowMod w) : Switch w × Option FlowError :=
  match collectRulesLoose C s (ruleCriteriaInit fm.tableId fm.minimatch 0 fm.cookie fm.cookieMask
      ofppAny ofpgAny (fm.has ffNoReadonly)) with
  | .error e => (s, some e)
  | .ok [] => modifyFlowsAdd C s fm
  | .ok ids => modifyFlows C s fm ids

def modifyFlowStrict (s : Switch w) (fm : FlowMod w) : Switch w × Option FlowError :=
  match collectRulesStrict C s (ruleCriteriaInit fm.tableId fm.minimatch fm.priority fm.cookie
      fm.cookieMask ofppAny ofpgAny (fm.has ffNoReadonly)) with
  | .error e => (s, some e)
  | .ok [] => modifyFlowsAdd C s fm
  | .ok [id] => modifyFlows C s fm [id]
  | .ok _ => (s, none)

def deleteFlowsLoose (s : Switch w) (fm : FlowMod w) : Switch w × Option FlowError :=
  match collectRulesLoose C s (ruleCriteriaInit fm.tableId fm.minimatch 0 fm.cookie fm.cookieMask
      fm.outPort fm.outGroup (fm.has ffNoReadonly)) with
  | .error e => (s, some e)
  | .ok ids => (deleteFlows C s ids, none)

def deleteFlowStrict (s : Switch w) (fm : FlowMod w) : Switch w × Option FlowError :=
  match collectRulesStrict C s (ruleCriteriaInit fm.tableId fm.minimatch fm.priority fm.cookie
      fm.cookieMask fm.outPort fm.outGroup (fm.has ffNoReadonly)) with
  | .error e => (s, some e)
  | .ok ids => (deleteFlows C s ids, none)

def handleFlowMod (s : Switch w) (fm : FlowMod w) : Switch w × Option FlowError :=
  match fm.command with
  | .add => addFlow C s fm
  | .modify => modifyFlowsLoose C s fm
  | .modifyStrict => modifyFlowStrict C s fm
  | .delete => deleteFlowsLoose C s fm
  | .deleteStrict => deleteFlowStrict C s fm

/-- The meter can be used by flows, `get_provider_meter_id()`. -/
def meterExists (s : Switch w) (meterId : ℕ) : Bool :=
  meterId ≠ 0 && meterId ≤ C.maxMeters && (s.meters meterId).isSome

/-- The group of an `OFPACT_GROUP` at the top level, if it does not exist. -/
def groupMissing (s : Switch w) : Ofpact → Bool
  | .action (.group g) => (s.groups.lookup g).isNone
  | _ => false

def ofprotoCheckOfpacts (s : Switch w) (ofpacts : List Ofpact) : Option FlowError :=
  if ofpactsGetMeter ofpacts ≠ 0 ∧ meterExists C s (ofpactsGetMeter ofpacts) = false then
    some .invalidMeter
  else if ofpacts.any (groupMissing s) then some .badOutGroup
  else none

/-! ## Meters -/

/-- The commands of a meter mod. -/
inductive MeterCommand where
  | add
  | modify
  | delete
deriving DecidableEq

/-- `struct ofputil_meter_mod`. -/
structure MeterMod where
  command : MeterCommand
  meterId : ℕ
  nBands : ℕ
  /-- Whether the provider's `meter_set()` succeeds. -/
  accepted : Bool

/-- The errors of meter mods. -/
inductive MeterError where
  | invalidMeter
  | outOfMeters
  | outOfBands
  | meterExists
  | unknownMeter
  | provider
deriving DecidableEq

/-- `OFPM13_MAX`. -/
def ofpmMax : ℕ := 0xffff0000

/-- `OFPM13_ALL`. -/
def ofpmAll : ℕ := 0xffffffff

def handleAddMeter (s : Switch w) (mm : MeterMod) : Switch w × Option MeterError :=
  match s.meters mm.meterId with
  | some _ => (s, some .meterExists)
  | none =>
    if mm.accepted then
      ({ s with meters := Function.update s.meters mm.meterId (some []) }, none)
    else (s, some .provider)

/-- `handle_modify_meter()`: only the bands of the meter change. -/
def handleModifyMeter (s : Switch w) (mm : MeterMod) : Switch w × Option MeterError :=
  match s.meters mm.meterId with
  | none => (s, some .unknownMeter)
  | some _ => if mm.accepted then (s, none) else (s, some .provider)

def meterDelete (s : Switch w) (first last : ℕ) : Switch w :=
  { s with meters := fun m => if first ≤ m ∧ m ≤ last then none else s.meters m }

/-- The rules on the lists of some meters. -/
def meterRules (s : Switch w) (first last : ℕ) : List ℕ :=
  (List.range' first (last + 1 - first)).flatMap fun m => (s.meters m).getD []

/-- The second half of `handle_delete_meter()`: first the rules go, then the meters. -/
def deleteMeters (s : Switch w) (first last : ℕ) : Switch w :=
  meterDelete (deleteFlows C s (meterRules s first last)) first last

def handleDeleteMeter (s : Switch w) (meterId : ℕ) : Switch w :=
  if meterId = ofpmAll then deleteMeters C s 1 C.maxMeters
  else if meterId = 0 ∨ meterId > C.maxMeters then s
  else deleteMeters C s meterId meterId

/-- `handle_meter_mod()` of a message that has been decoded. -/
def handleMeterMod (s : Switch w) (mm : MeterMod) : Switch w × Option MeterError :=
  if mm.command = .delete then (handleDeleteMeter C s mm.meterId, none)
  else if mm.meterId = 0 ∨ mm.meterId > ofpmMax then (s, some .invalidMeter)
  else if mm.meterId > C.maxMeters then (s, some .outOfMeters)
  else if mm.nBands > C.maxBands then (s, some .outOfBands)
  else if mm.command = .add then handleAddMeter s mm
  else handleModifyMeter s mm

/-! ## Groups -/

/-- The flow mod that `delete_group__()` builds with `flow_mod_init()`. -/
def groupFlowMod (groupId : ℕ) : FlowMod w where
  minimatch := Match.catchall
  priority := 0
  cookie := 0
  cookieMask := 0
  newCookie := 0
  modifyCookie := false
  tableId := 0
  command := .delete
  idleTimeout := 0
  hardTimeout := 0
  importance := 0
  outPort := ofppAny
  outGroup := groupId
  flags := 0
  ofpacts := []
  buffered := none

/-- `delete_group__()`. -/
def Switch.deleteOneGroup (s : Switch w) (group : Group) : Switch w :=
  let s := (handleFlowMod C s (groupFlowMod group.groupId)).1
  { s with groups := s.groups.delete group }

def Switch.deleteGroup (s : Switch w) (groupId : ℕ) : Switch w :=
  if groupId = ofpgAll then s.groups.groups.foldl (Switch.deleteOneGroup C) s
  else
    match s.groups.lookup groupId with
    | none => s
    | some group => s.deleteOneGroup C group

/-- `handle_group_mod()`, for the whole switch.  `none` is undefined behaviour. -/
def Switch.handleGroupMod (s : Switch w) (gm : GroupMod) :
    Option (Except GroupError (Switch w)) :=
  match gm.command with
  | .delete => some (.ok (s.deleteGroup C gm.groupId))
  | _ => (Ofproto.handleGroupMod C.maxGroups s.groups gm).map fun r =>
    r.map fun t => { s with groups := t }

/-! ## Timeouts -/

def reduceTimeout (max timeout : ℕ) : ℕ :=
  if max ≠ 0 ∧ (timeout = 0 ∨ timeout > max) then max else timeout

/-- The rule with its timeouts reduced. -/
def Rule.reduced (rule : Rule w) (idleTimeout hardTimeout : ℕ) : Rule w :=
  { rule with
    idleTimeout := reduceTimeout idleTimeout rule.idleTimeout
    hardTimeout := reduceTimeout hardTimeout rule.hardTimeout }

def ruleReduceTimeouts (s : Switch w) (rule : Rule w) (idleTimeout hardTimeout : ℕ) : Switch w :=
  if idleTimeout = 0 ∧ hardTimeout = 0 then s
  else
    { s.set (rule.reduced idleTimeout hardTimeout) with
      expirable := if rule.id ∈ s.expirable then s.expirable else rule.id :: s.expirable }

/-- `ofproto_rule_expire()`, which is called for rules on the list only. -/
def ruleExpire (s : Switch w) (rule : Rule w) : Switch w := deleteFlows C s [rule.id]

end

/-- Two tables without limits, and two meters. -/
def plainConfig : Config 8 where
  nTables := 2
  nTables_pos := by decide
  nTables_le := by decide
  readonly _ := false
  hidden _ := false
  maxFlows _ := 2 ^ 32 - 1
  defaultHiddenFields _ := true
  hashCookie cookie := cookie.setWidth 32
  evictionOrder _ _ := []
  maxMeters := 2
  maxBands := 1
  maxGroups _ := ofpgMax

/-- A flow mod about the flows of a table whose packets begin with a byte. -/
def plainFlowMod (command : FlowCommand) (tableId : ℕ) (flow : BitVec 8) (newCookie : BitVec 64)
    (ofpacts : List Ofpact) : FlowMod 8 where
  minimatch := Match.ofMasked flow (BitVec.allOnes 8)
  priority := 1
  cookie := 0
  cookieMask := 0
  newCookie := newCookie
  modifyCookie := false
  tableId := tableId
  command := command
  idleTimeout := 0
  hardTimeout := 0
  importance := 0
  outPort := ofppAny
  outGroup := ofpgAny
  flags := 0
  ofpacts := ofpacts
  buffered := none

end Ofproto

end OVS
