import OpenVSwitch.Xlate.Translate

/-!
# What a translation preserves

A property of translations is a relation between the context before and after.  To prove it for
`doXlateActions` one would have to go through all of its functions, so this is done only once, and
here it is said what it needs.

* `Core` — the part of the context that such properties are about: what has to be put back when a
  nested translation is over, the counters, the action set, what the mirrors depend on, and the
  steps that have been made.
* `Preserves` — what has to be shown of a relation: one condition for the actions that do not
  translate others, one for outputs, and one for each of the ways to get from one translation to
  another.
* `Kept` — what is true of all translations: the bridge, the table, the rule and other things are
  put back, the counters stay within their limits, and steps are only added.

Properties that only hold for some translations say so in terms of the steps that have been made, so
that no condition on the flow tables is needed.
-/

namespace OVS

namespace Xlate

variable {β ω α : Type}

/-- The part of a context that the properties are about. -/
structure Core (β : Type) where
  bridge : β
  tableId : ℕ
  rule : Option Rule
  ruleCookie : BitVec 64
  recurse : ℕ
  resubmits : ℕ
  inGroup : Bool
  inActionSet : Bool
  actionSetHasGroup : Bool
  wasMpls : Bool
  actionSet : List Ofpact
  actsetOutput : BitVec 16
  mirrors : BitVec 32
  sent : List (β × ℕ)
  tried : List (β × ℕ)
  inSetCall : Bool
  setDone : Bool
  trace : List (Step β)

/-- The core of a context. -/
def Ctx.core (c : Ctx β ω α) : Core β :=
  { bridge := c.bridge
    tableId := c.tableId
    rule := c.rule
    ruleCookie := c.ruleCookie
    recurse := c.recurse
    resubmits := c.resubmits
    inGroup := c.inGroup
    inActionSet := c.inActionSet
    actionSetHasGroup := c.actionSetHasGroup
    wasMpls := c.wasMpls
    actionSet := c.actionSet
    actsetOutput := c.flow .actsetOutput
    mirrors := c.mirrors
    sent := c.sent
    tried := c.tried
    inSetCall := c.inSetCall
    setDone := c.setDone
    trace := c.trace }

/-! ## What local actions do -/

/-- What an action that does not translate others can do to the core. -/
inductive LocalCase (env : Env β ω α) (c : Ctx β ω α) : Ofpact → Ctx β ω α → Prop where
  | plain {a : Ofpact} {c' : Ctx β ω α} (hcore : c'.core = c.core) : LocalCase env c a c'
  | popped {ethertype : BitVec 16} {c' : Ctx β ω α}
      (hcore : c'.core = { c.core with wasMpls := c.wasMpls || env.enableRecirc c.bridge }) :
      LocalCase env c (.popMpls ethertype) c'
  | dropped {ethertype : BitVec 16} {c' : Ctx β ω α}
      (hcore : c'.core = { c.core with sent := [] }) :
      LocalCase env c (.popMpls ethertype) c'
  | cleared {c' : Ctx β ω α}
      (hcore : c'.core =
        { c.core with actionSet := [], actionSetHasGroup := false, actsetOutput := ofppUnset }) :
      LocalCase env c .clearActions c'
  | written {ofpacts : List Ofpact} {c' : Ctx β ω α}
      (hcore : c'.core =
        { c.core with
          actionSet := c.actionSet ++ ofpacts
          actionSetHasGroup := c.actionSetHasGroup || ofpacts.any Ofpact.isGroup
          actsetOutput :=
            if c.actionSetHasGroup then c.flow .actsetOutput
            else (ofpacts.foldl actsetOutput (c.flow .actsetOutput, false)).1 }) :
      LocalCase env c (.writeActions ofpacts) c'

variable {env : Env β ω α} {c c' : Ctx β ω α} {Q : Core β → Core β → Prop} {a : Ofpact}

section

variable (env : Env β ω α)

lemma executeControllerAction_core (len : BitVec 16) (reason : PacketInReason)
    (controllerId : BitVec 16) (c : Ctx β ω α) :
    (executeControllerAction env len reason controllerId c).core = c.core := by
  unfold executeControllerAction
  split <;> rfl

lemma foldl_executeControllerAction (controllers : List (BitVec 16)) (c : Ctx β ω α) :
    (controllers.foldl (fun ctx id => executeControllerAction env 0xffff .invalidTtl id ctx)
      c).core = c.core := by
  induction controllers generalizing c with
  | nil => rfl
  | cons id controllers ih =>
    exact (ih _).trans (executeControllerAction_core env 0xffff .invalidTtl id c)

lemma foldl_actsetOutput (ofpacts : List Ofpact) (s : BitVec 16 × Bool) :
    (ofpacts.foldl actsetOutput s).2 = (s.2 || ofpacts.any Ofpact.isGroup) := by
  induction ofpacts generalizing s with
  | nil => simp
  | cons a ofpacts ih =>
    rw [List.foldl_cons, ih]
    cases a <;> simp [actsetOutput, Ofpact.isGroup]

/-- What local actions do.  None but `write_actions` and `clear_actions` writes `actset_output`. -/
lemma xlateLocalAction_cases (a : Ofpact) (c : Ctx β ω α) :
    LocalCase env c a (xlateLocalAction env a c).2 := by
  cases a with
  | controller maxLen controllerId reason =>
    exact .plain (executeControllerAction_core env maxLen reason controllerId c)
  | set kind l3 f =>
    refine .plain ?_
    simp [xlateLocalAction, Ctx.core, f.readOnly]
  | pushMpls ethertype =>
    refine .plain ?_
    simp only [xlateLocalAction, composeMplsPushAction]
    split_ifs
    · rfl
    all_goals
      unfold flowPushMpls
      split <;> rfl
  | popMpls ethertype =>
    simp only [xlateLocalAction, composeMplsPopAction]
    split
    · rename_i flow hflow
      have hsame : flow .actsetOutput = c.flow .actsetOutput := by
        unfold flowPopMpls at hflow
        dsimp only at hflow
        split at hflow
        · cases hflow
        · cases hflow
          rfl
      exact .popped (by simp [Ctx.core, hsame])
    split
    · exact .dropped rfl
    · exact .plain rfl
  | decMplsTtl =>
    refine .plain ?_
    simp only [xlateLocalAction, composeDecMplsTtlAction]
    split_ifs
    · rfl
    · exact executeControllerAction_core env _ _ _ _
    · rfl
  | decTtl controllers =>
    refine .plain ?_
    simp only [xlateLocalAction, composeDecTtl]
    split_ifs
    · rfl
    · rfl
    · exact foldl_executeControllerAction env controllers _
  | clearActions => exact .cleared (by simp [Ctx.core, xlateLocalAction])
  | writeActions ofpacts =>
    refine .written ?_
    simp only [xlateLocalAction, xlateWriteActions]
    split
    case isTrue hg => simp [Ctx.core, hg]
    case isFalse hg => simp [Ctx.core, hg, foldl_actsetOutput]
  | stackPop dst =>
    refine .plain ?_
    unfold xlateLocalAction
    dsimp only
    split
    · rfl
    · simp [Ctx.core, (dst _).readOnly]
  | setQueue _ | sample _ =>
    unfold xlateLocalAction
    dsimp only
    split <;> exact .plain rfl
  | _ => exact .plain rfl

end

/-! ## Relations -/

/-- An action after which no flag has changed. -/
def Ofpact.Neutral : Ofpact → Prop
  | .popMpls _ | .clearActions | .writeActions _ => False
  | _ => True

/-- A step that is only recorded. -/
def Step.Neutral : Step β → Prop
  | .action a _ => a.Neutral
  | .actionSet _ => False
  | _ => True

/-- What has to be shown for a relation between cores. -/
structure Preserves (env : Env β ω α) (Q : Core β → Core β → Prop) : Prop where
  refl : ∀ k, Q k k
  trans : ∀ {k k' k''}, Q k k' → Q k' k'' → Q k k''
  push : ∀ (c : Ctx β ω α) (e : Snapshot β → Step β), (e c.snapshot).Neutral →
    (e c.snapshot).snapshot = c.snapshot → Q c.core (c.push e).core
  localAction : ∀ (a : Ofpact) (c : Ctx β ω α),
    Q c.core (xlateLocalAction env a (c.push (.action a))).2.core
  egress : ∀ {c : Ctx β ω α} {port xport}, (env.xbridge c.bridge).xports port = some xport →
    Q c.core ((c.addMirrors env xport).egress env port xport).core
  patch : ∀ {c : Ctx β ω α} {port xport}, (env.xbridge c.bridge).xports port = some xport →
    Q c.core ((c.addMirrors env xport).record xport).core
  peer : ∀ {k k' : Core β} {port bridge peerPort},
    (env.portConfig k.bridge port).peer = some (bridge, peerPort) →
    Q { k with bridge := bridge, actionSet := [], actsetOutput := ofppUnset, setDone := false } k' →
    Q k { k' with
      bridge := k.bridge, actionSet := k.actionSet, actsetOutput := k.actsetOutput,
      setDone := k.setDone }
  learnOnly : ∀ {k k'}, Q k k' →
    Q k { k' with mirrors := k.mirrors, sent := k.sent, tried := k.tried }
  drop : ∀ k, Q k { k with sent := [], setDone := true }
  rule : ∀ {k k'} (rule : Rule) (tableId : ℕ),
    k.recurse < maxResubmitRecursion + maxInternalResubmits →
    k.resubmits < maxResubmits + maxInternalResubmits →
    Q { k with
        resubmits := k.resubmits + 1, recurse := k.recurse + 1, rule := some rule,
        ruleCookie := rule.cookie, tableId := tableId, inSetCall := false } k' →
    Q k { k' with
      ruleCookie := k.ruleCookie, rule := k.rule, recurse := k'.recurse - 1, tableId := k.tableId,
      inSetCall := k.inSetCall }
  bucket : ∀ {k k'}, Q { k with recurse := k.recurse + 1, inSetCall := false } k' →
    Q k { k' with recurse := k'.recurse - 1, inSetCall := k.inSetCall }
  -- After each bucket of a group of type *all* the flow is what it was before.
  restoreFlow : ∀ {k k'}, k.inGroup = true → Q k k' →
    Q k { k' with actsetOutput := k.actsetOutput }
  group : ∀ {k k'}, k.inGroup = false → Q { k with inGroup := true } k' →
    Q k { k' with inGroup := false }
  actionSet : ∀ {c : Ctx β ω α} {k'}, Q c.enterActionSet.core k' →
    Q c.core { k' with inActionSet := false, inSetCall := c.inSetCall }

lemma Preserves.and {Q' : Core β → Core β → Prop} (h : Preserves env Q)
    (h' : Preserves env Q') : Preserves env fun k k' => Q k k' ∧ Q' k k' where
  refl k := ⟨h.refl k, h'.refl k⟩
  trans hk hk' := ⟨h.trans hk.1 hk'.1, h'.trans hk.2 hk'.2⟩
  push c e he hs := ⟨h.push c e he hs, h'.push c e he hs⟩
  localAction a c := ⟨h.localAction a c, h'.localAction a c⟩
  egress hxport := ⟨h.egress hxport, h'.egress hxport⟩
  patch hxport := ⟨h.patch hxport, h'.patch hxport⟩
  peer hpeer hk := ⟨h.peer hpeer hk.1, h'.peer hpeer hk.2⟩
  learnOnly hk := ⟨h.learnOnly hk.1, h'.learnOnly hk.2⟩
  drop k := ⟨h.drop k, h'.drop k⟩
  rule rule tableId hrecurse hresubmits hk :=
    ⟨h.rule rule tableId hrecurse hresubmits hk.1, h'.rule rule tableId hrecurse hresubmits hk.2⟩
  bucket hk := ⟨h.bucket hk.1, h'.bucket hk.2⟩
  restoreFlow hin hk := ⟨h.restoreFlow hin hk.1, h'.restoreFlow hin hk.2⟩
  group hin hk := ⟨h.group hin hk.1, h'.group hin hk.2⟩
  actionSet hk := ⟨h.actionSet hk.1, h'.actionSet hk.2⟩

/-! ## Outputs -/

section

variable (env : Env β ω α)

variable (c : Ctx β ω α)

/-- Before an output only what the mirrors depend on changes. -/
lemma addMirrors_eq (xport : XPort) : c.addMirrors env xport =
      { c with
        mirrors := (c.addMirrors env xport).mirrors
        tried := c.tried ++ (xport.xbundle.map (c.bridge, ·)).toList } := by
  unfold Ctx.addMirrors
  cases xport.xbundle <;> simp

/-- The context before a patch port is crossed. -/
lemma patch_eq (xport : XPort) : (c.addMirrors env xport).record xport =
      { c with
        mirrors := (c.addMirrors env xport).mirrors
        tried := c.tried ++ (xport.xbundle.map (c.bridge, ·)).toList
        sent := c.sent ++ (xport.xbundle.map (c.bridge, ·)).toList } := by
  rw [addMirrors_eq, Ctx.record]

/-- If an output to a port that is not a patch port has an ARP request flooded. -/
def Ctx.asksArp (port : BitVec 16) : Bool :=
  (env.egress c.world c.bridge port c.useRecirc c.flow c.baseFlow c.wc).arpRequest

/-- An output to a port that is not a patch port. -/
lemma egress_core (port : BitVec 16) (xport : XPort) :
    ∃ sent, (sent = c.sent ∨ sent = c.sent ++ (xport.xbundle.map (c.bridge, ·)).toList) ∧
      ((c.addMirrors env xport).egress env port xport).core =
        { c.core with
          mirrors := (c.addMirrors env xport).mirrors
          tried := c.tried ++ (xport.xbundle.map (c.bridge, ·)).toList
          sent := sent
          trace := c.trace ++ if c.asksArp env port then
            [.arpRequest (c.addMirrors env xport).snapshot] else [] } := by
  rw [addMirrors_eq env c xport]
  have hflow := env.egress_actsetOutput c.world c.bridge port c.useRecirc c.flow c.baseFlow c.wc
  unfold Ctx.egress Ctx.asksArp
  dsimp only
  split_ifs
  all_goals
    split
    · exact ⟨_, .inl rfl, by simp [Ctx.core, Ctx.push, hflow]⟩
    · exact ⟨_, .inr rfl, by simp [Ctx.core, Ctx.push, Ctx.record, hflow]⟩

end

/-! ## What is put back -/

/-- The counters only grow, within their limit, steps are only added, and everything else that a
translation puts back is as it was.  `in_action_set` may have been set back too early. -/
structure Kept (k k' : Core β) : Prop where
  bridge : k'.bridge = k.bridge
  tableId : k'.tableId = k.tableId
  rule : k'.rule = k.rule
  ruleCookie : k'.ruleCookie = k.ruleCookie
  recurse : k'.recurse = k.recurse
  inGroup : k'.inGroup = k.inGroup
  inSetCall : k'.inSetCall = k.inSetCall
  inActionSet : k'.inActionSet = true → k.inActionSet = true
  setDone : k.setDone = true → k'.setDone = true
  resubmits_le : k.resubmits ≤ k'.resubmits
  resubmits_limit : k.resubmits ≤ maxResubmits + maxInternalResubmits →
    k'.resubmits ≤ maxResubmits + maxInternalResubmits
  trace : k.trace <+: k'.trace

lemma Kept.refl (k : Core β) : Kept k k :=
  ⟨rfl, rfl, rfl, rfl, rfl, rfl, rfl, id, id, le_rfl, id, List.prefix_rfl⟩

lemma Kept.trans {k k' k'' : Core β} (h : Kept k k') (h' : Kept k' k'') : Kept k k'' :=
  ⟨h'.bridge.trans h.bridge, h'.tableId.trans h.tableId, h'.rule.trans h.rule,
    h'.ruleCookie.trans h.ruleCookie, h'.recurse.trans h.recurse, h'.inGroup.trans h.inGroup,
    h'.inSetCall.trans h.inSetCall, h.inActionSet ∘ h'.inActionSet, h'.setDone ∘ h.setDone,
    h.resubmits_le.trans h'.resubmits_le, h'.resubmits_limit ∘ h.resubmits_limit,
    h.trace.trans h'.trace⟩

lemma LocalCase.kept (h : LocalCase env c a c') : Kept c.core c'.core := by
  cases h with
  | plain hcore => exact hcore ▸ .refl _
  | popped hcore | dropped hcore | cleared hcore | written hcore =>
    exact hcore ▸ { Kept.refl c.core with }

lemma push_kept (c : Ctx β ω α) (e : Snapshot β → Step β) : Kept c.core (c.push e).core :=
  { Kept.refl c.core with trace := List.prefix_append _ _ }

lemma kept_preserves (env : Env β ω α) : Preserves env Kept where
  refl := Kept.refl
  trans := Kept.trans
  push c e _ _ := push_kept c e
  localAction a c := (push_kept c _).trans (xlateLocalAction_cases env a _).kept
  egress {c port xport} _ := by
    obtain ⟨sent, -, hcore⟩ := egress_core env c port xport
    rw [hcore]
    exact { Kept.refl c.core with trace := List.prefix_append _ _ }
  patch {c port xport} _ := by
    rw [patch_eq]
    exact { Kept.refl c.core with }
  peer _ h := { h with bridge := rfl, setDone := id }
  learnOnly h := { h with }
  drop k := { Kept.refl k with setDone := fun _ => rfl }
  rule rule tableId _ hresubmits h :=
    { h with
      tableId := rfl
      rule := rfl
      ruleCookie := rfl
      recurse := by simp [h.recurse]
      inSetCall := rfl
      resubmits_le := (Nat.le_succ _).trans h.resubmits_le
      resubmits_limit := fun _ => h.resubmits_limit hresubmits }
  bucket h := { h with recurse := by simp [h.recurse], inSetCall := rfl }
  restoreFlow _ h := { h with }
  group hin h := { h with inGroup := hin.symm }
  actionSet {c k'} h :=
    { h with
      inSetCall := rfl
      inActionSet := nofun
      setDone := fun _ => h.setDone rfl
      trace := (List.prefix_append _ _).trans h.trace }

/-! ## The start of a translation -/

section

variable (env : Env β ω α)

lemma start_ctx (x : XlateIn β ω) :
    (x.start env : List Ofpact × Ctx β ω α).2.flow = x.flow ∧
    { (x.start env : List Ofpact × Ctx β ω α).2.core with
      tableId := 0, rule := x.rule, ruleCookie := BitVec.allOnes 64 } =
        (x.ctx : Ctx β ω α).core := by
  unfold XlateIn.start
  dsimp only
  split
  · exact ⟨rfl, rfl⟩
  · exact ⟨rfl, rfl⟩
  · split <;> exact ⟨rfl, rfl⟩

/-- The core at the start of a translation. -/
lemma begin_core (x : Request β ω α) :
    { (x.begin env).core with
      tableId := 0, rule := x.rule, ruleCookie := BitVec.allOnes 64 } =
        (x.ctx : Ctx β ω α).core :=
  (start_ctx env x.toXlateIn).2

lemma begin_bridge (x : Request β ω α) : (x.begin env).bridge = x.bridge :=
  congrArg Core.bridge (begin_core env x)

/-- Before the copies are sent, only the flow and the mirrors change. -/
lemma restore_kept (c : Ctx β ω α) (f : Flow) (visited : List (Mirror × Bool)) :
    Kept c.core (c.restore f visited).core := by
  unfold Ctx.restore
  split <;> exact { Kept.refl c.core with }

end

end Xlate

end OVS
