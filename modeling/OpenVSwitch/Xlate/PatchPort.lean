import OpenVSwitch.Xlate.Bounds

/-!
# Crossing a patch port

A packet that is output to a patch port is translated in another bridge, in the same context.  The
function that does it, `compose_output_action__()`, saves some members of the context and puts them
back in the end, and leaves others to the functions that it calls.

* `patchPort_isolated` — the bridge, flow, stack, action set, table and rule are always put back,
  and so is `in_group`.  The flags `in_action_set`, `action_set_has_group` and `was_mpls` are what
  they were exactly if the steps behind the patch port leave them so, and the first two make no
  difference to what happens there if no step looks at a flag that is not its own bridge's.
* `patchPort_leaks` — but there are steps that change them and steps that look at them.

**Which steps.**  The trace of the context after the output has the steps that were made behind the
patch port, and what they do to the flags is read off from it (`FlagsAfter`).

**Two runs.**  That two contexts which are the same up to the flags lead to the same actions is a
statement about two translations, with the leeway `Leeway.behind`.
-/

namespace OVS

namespace Xlate

open List

variable {β ω α : Type} {env : Env β ω α}

/-! ## What steps do to flags -/

/-- `action_set_has_group` after a step. -/
def Step.hasGroup (g : Bool) : Step β → Bool
  | .action .clearActions _ => false
  | .action (.writeActions ofpacts) _ => g || ofpacts.any Ofpact.isGroup
  | _ => g

/-- If `flow_pop_mpls()` can take a label off. -/
def popsLabel (f : Flow) : Bool :=
  (flowPopMpls f (flowCountMplsLabels f f).1 0 f).1.isSome

/-- The step sets `was_mpls`. -/
def Step.popsMpls (env : Env β ω α) : Step β → Bool
  | .action (.popMpls _) s => popsLabel s.flow && env.enableRecirc s.bridge
  | _ => false

/-- The flags are what the new steps have made of them. -/
def FlagsAfter (env : Env β ω α) (k k' : Core β) : Prop :=
  ∃ new, k'.trace = k.trace ++ new ∧
    k'.actionSetHasGroup = new.foldl Step.hasGroup k.actionSetHasGroup ∧
    k'.wasMpls = (k.wasMpls || new.any (Step.popsMpls env)) ∧
    k'.inActionSet = (k.inActionSet && !new.any Step.isActionSet)

section Steps

variable {k k' k'' : Core β} {c : Ctx β ω α}

lemma FlagsAfter.refl (env : Env β ω α) (k : Core β) : FlagsAfter env k k :=
  ⟨[], by simp, rfl, by simp, by simp⟩

lemma FlagsAfter.trans (h : FlagsAfter env k k') (h' : FlagsAfter env k' k'') :
    FlagsAfter env k k'' := by
  obtain ⟨new, htrace, hg, hm, hs⟩ := h
  obtain ⟨new', htrace', hg', hm', hs'⟩ := h'
  refine ⟨new ++ new', ?_, ?_, ?_, ?_⟩
  · rw [htrace', htrace, append_assoc]
  · rw [hg', hg, foldl_append]
  · rw [hm', hm, any_append, Bool.or_assoc]
  · rw [hs', hs, any_append, Bool.not_or, Bool.and_assoc]

/-- A step that is only recorded. -/
lemma flagsAfter_push (e : Snapshot β → Step β) (he : (e c.snapshot).Neutral) :
    FlagsAfter env c.core (c.push e).core := by
  refine ⟨[e c.snapshot], rfl, ?_⟩
  cases hstep : e c.snapshot with
  | action a s =>
    rw [hstep] at he
    cases a with
    | popMpls | clearActions | writeActions => exact he.elim
    | _ => exact ⟨rfl, by simp [Ctx.core, Ctx.push, Step.popsMpls],
        by simp [Ctx.core, Ctx.push, Step.isActionSet]⟩
  | actionSet s =>
    rw [hstep] at he
    exact he.elim
  | controller s | arpRequest s =>
    exact ⟨rfl, by simp [Ctx.core, Ctx.push, Step.popsMpls],
      by simp [Ctx.core, Ctx.push, Step.isActionSet]⟩

/-- The number of labels of a flow has nothing to do with the wildcards. -/
lemma flowCountMplsLabelsFrom_fst (f : Flow) (is : List (Fin 4)) (cnt : ℕ) (wc wc' : Wildcards) :
    (flowCountMplsLabelsFrom f is cnt wc).1 = (flowCountMplsLabelsFrom f is cnt wc').1 := by
  induction is generalizing cnt wc wc' with
  | nil => rfl
  | cons i is ih =>
    rw [flowCountMplsLabelsFrom, flowCountMplsLabelsFrom]
    split
    · rfl
    · exact ih _ _ _

/-- If there is a label to pop does not depend on the wildcards. -/
lemma isSome_flowPopMpls (f : Flow) (ethertype : BitVec 16) (wc : Wildcards) :
    (flowPopMpls f (flowCountMplsLabels f wc).1 ethertype (flowCountMplsLabels f wc).2).1.isSome =
      popsLabel f := by
  have hcount : (flowCountMplsLabels f wc).1 = (flowCountMplsLabels f f).1 := by
    unfold flowCountMplsLabels
    split
    · exact flowCountMplsLabelsFrom_fst f _ _ _ _
    · rfl
  rw [popsLabel, hcount]
  unfold flowPopMpls
  dsimp only
  split <;> rfl

/-- Of the flags a pop changes `was_mpls` alone, and only where recirculation is available. -/
lemma composeMplsPopAction_flags (env : Env β ω α) (ethertype : BitVec 16) (c : Ctx β ω α) :
    (composeMplsPopAction env ethertype c).trace = c.trace ∧
    (composeMplsPopAction env ethertype c).actionSetHasGroup = c.actionSetHasGroup ∧
    (composeMplsPopAction env ethertype c).wasMpls =
      (c.wasMpls || (popsLabel c.flow && env.enableRecirc c.bridge)) ∧
    (composeMplsPopAction env ethertype c).inActionSet = c.inActionSet := by
  have hpops := isSome_flowPopMpls c.flow ethertype c.wc
  simp only [composeMplsPopAction]
  split
  · rename_i flow hflow
    rw [hflow, Option.isSome_some] at hpops
    exact ⟨rfl, rfl, by rw [← hpops, Bool.true_and], rfl⟩
  · rename_i hflow
    rw [hflow, Option.isSome_none] at hpops
    split <;> exact ⟨rfl, rfl, by rw [← hpops, Bool.false_and, Bool.or_false], rfl⟩

/-- A local action sets the flags as its step in the trace says. -/
lemma flagsAfter_localAction (a : Ofpact) (c : Ctx β ω α) :
    FlagsAfter env c.core (xlateLocalAction env a (c.push (.action a))).2.core := by
  cases a with
  | popMpls ethertype =>
    obtain ⟨htrace, hg, hm, hs⟩ :=
      composeMplsPopAction_flags env ethertype (c.push (.action (.popMpls ethertype)))
    refine ⟨[.action (.popMpls ethertype) c.snapshot], htrace, hg, hm.trans ?_, hs.trans ?_⟩
    · simp only [any_cons, any_nil, Bool.or_false]
      rfl
    · simp [Ctx.core, Ctx.push, Step.isActionSet]
  | clearActions =>
    exact ⟨[.action .clearActions c.snapshot], rfl, rfl,
      by simp [Ctx.core, Ctx.push, xlateLocalAction, Step.popsMpls],
      by simp [Ctx.core, Ctx.push, xlateLocalAction, Step.isActionSet]⟩
  | writeActions ofpacts =>
    refine ⟨[.action (.writeActions ofpacts) c.snapshot], ?_⟩
    simp only [xlateLocalAction, xlateWriteActions]
    split
    case isTrue hg =>
      have hg : c.actionSetHasGroup = true := hg
      exact ⟨rfl, by simp [Ctx.core, Ctx.push, Step.hasGroup, hg],
        by simp [Ctx.core, Ctx.push, Step.popsMpls],
        by simp [Ctx.core, Ctx.push, Step.isActionSet]⟩
    case isFalse hg =>
      have hg : c.actionSetHasGroup = false := Bool.eq_false_iff.mpr hg
      exact ⟨rfl, by simp [Ctx.core, Ctx.push, Step.hasGroup, hg, foldl_actsetOutput],
        by simp [Ctx.core, Ctx.push, Step.popsMpls],
        by simp [Ctx.core, Ctx.push, Step.isActionSet]⟩
  | _ =>
    cases xlateLocalAction_cases env _ (c.push (.action _)) with
    | plain hcore =>
      rw [hcore]
      exact flagsAfter_push _ trivial

/-- So does everything the translation does, whatever it runs in between. -/
lemma flagsAfter_preserves (env : Env β ω α) : Preserves env (FlagsAfter env) where
  refl := FlagsAfter.refl env
  trans := FlagsAfter.trans
  push _ _ he _ := flagsAfter_push _ he
  localAction := flagsAfter_localAction
  egress {c port xport} _ := by
    obtain ⟨sent, -, hcore⟩ := egress_core env c port xport
    rw [hcore]
    refine ⟨_, rfl, ?_⟩
    split
    · exact ⟨rfl, by simp [Step.popsMpls], by simp [Step.isActionSet]⟩
    · exact ⟨rfl, by simp, by simp⟩
  patch {c port xport} _ := by
    rw [patch_eq]
    exact FlagsAfter.refl env _
  peer _ h := h
  learnOnly h := h
  drop k := FlagsAfter.refl env k
  rule _ _ _ _ h := h
  bucket h := h
  restoreFlow _ h := h
  group _ h := h
  -- After an action set the flag is always clear.
  actionSet {c k'} h := by
    obtain ⟨new, htrace, hg, hm, -⟩ := h
    exact ⟨.actionSet c.snapshot :: new, htrace.trans (append_assoc _ _ _), hg, hm, by
      simp [Step.isActionSet]⟩

end Steps

/-! ## What steps look at -/

/-- The step looks at no flag that is not the bridge's own: at `action_set_has_group` only if `x`
says that it is, and at `in_action_set` only if `y` says so. -/
def Step.Ignores (x y : Prop) : Step β → Prop
  | .action (.writeActions ofpacts) _ => x ∨ ∀ a ∈ ofpacts, a.isGroup = false ∧ a.isOutput = false
  | .controller s => s.inGroup = true ∨ y
  | _ => True

/-- No step does.  A flag is the bridge's own once it has been set. -/
def IgnoresFlags (x y : Prop) : List (Step β) → Prop
  | [] => True
  | e :: steps => e.Ignores x y ∧ IgnoresFlags (x ∨ e.isClear) (y ∨ e.isActionSet) steps

/-- The second part of a trace ignores a flag also if the first part has overwritten it. -/
lemma ignoresFlags_append {x y : Prop} {t t' : List (Step β)} :
    IgnoresFlags x y (t ++ t') ↔ IgnoresFlags x y t ∧
      IgnoresFlags (x ∨ t.any Step.isClear) (y ∨ t.any Step.isActionSet) t' := by
  induction t generalizing x y with
  | nil => simp [IgnoresFlags]
  | cons e t ih => simp [IgnoresFlags, ih, and_assoc, or_assoc]

/-- Two contexts behind a patch port.  `before` are the steps in front of it, and `x` and `y` say
which flags are the same at first. -/
def Leeway.behind (before : List (Step β)) (x y : Prop) : Leeway β where
  same := False
  hasGroup t := ∀ t', t = before ++ t' → x ∨ t'.any Step.isClear
  inActionSet t := ∀ t', t = before ++ t' → y ∨ t'.any Step.isActionSet
  good t := ∀ t', t = before ++ t' → IgnoresFlags x y t'
  good_of_append {t t'} h u hu :=
    (ignoresFlags_append.mp (h (u ++ t') (by rw [hu, append_assoc]))).1
  hasGroup_push {t e} h := by
    by_cases he : e.isClear = true
    · exact .inr he
    · refine .inl fun t' ht' => ?_
      simpa [he] using h (t' ++ [e]) (by rw [ht', append_assoc])
  inActionSet_push {t e} h := by
    by_cases he : e.isActionSet = true
    · exact .inr he
    · refine .inl fun t' ht' => ?_
      simpa [he] using h (t' ++ [e]) (by rw [ht', append_assoc])
  written {t ofpacts s} h := by
    by_cases hnone : ∀ a ∈ ofpacts, a.isGroup = false ∧ a.isOutput = false
    · exact .inr hnone
    · refine .inl fun t' ht' => ?_
      have hlast := (ignoresFlags_append.mp (h (t' ++ [_]) (by rw [ht', append_assoc]))).2.1
      exact hlast.resolve_right hnone
  told {t s} h := by
    by_cases hin : s.inGroup = true
    · exact .inl hin
    · refine .inr fun t' ht' => ?_
      have hlast := (ignoresFlags_append.mp (h (t' ++ [_]) (by rw [ht', append_assoc]))).2.1
      exact hlast.resolve_left hin
  of_same := False.elim

/-! ## The crossing -/

section Crossing

variable {rec : List Ofpact → Ctx β ω α → Option (Ctx β ω α)} {c c' : Ctx β ω α}

/-- What `compose_output_action__()` puts back in any case.  `in_action_set` is not put back if it
was set. -/
structure PutBack (c c' : Ctx β ω α) : Prop where
  bridge : c'.bridge = c.bridge
  flow : c'.flow = c.flow
  stack : c'.stack = c.stack
  actionSet : c'.actionSet = c.actionSet
  inGroup : c'.inGroup = c.inGroup
  tableId : c'.tableId = c.tableId
  rule : c'.rule = c.rule
  ruleCookie : c'.ruleCookie = c.ruleCookie
  inActionSet : c.inActionSet = false → c'.inActionSet = false

variable {port : BitVec 16} {bridge : β} {n : ℕ}

/-- An output to a patch port does nothing, or crosses it. -/
lemma frame_of_peer {peerPort : BitVec 16} {checkStp : Bool}
    (hpeer : (env.portConfig c.bridge port).peer = some (bridge, peerPort))
    (hrun : composeOutputAction env rec checkStp port c = some c') :
    c'.flow = c.flow ∧ c'.stack = c.stack ∧ c'.actionSet = c.actionSet ∧
      c'.setDone = c.setDone := by
  unfold composeOutputAction at hrun
  split at hrun
  · cases hrun
    exact ⟨rfl, rfl, rfl, rfl⟩
  split at hrun
  · cases hrun
    exact ⟨rfl, rfl, rfl, rfl⟩
  rename_i xport _ _
  rw [hpeer, patch_eq] at hrun
  unfold crossPatchPort at hrun
  dsimp only at hrun
  split at hrun
  · cases hrun
    exact ⟨rfl, rfl, rfl, rfl⟩
  split at hrun
  · cases hrun
    exact ⟨rfl, rfl, rfl, rfl⟩
  split at hrun
  all_goals
    obtain ⟨inner, -, rfl⟩ := Option.map_eq_some_iff.mp hrun
    exact ⟨rfl, rfl, rfl, rfl⟩

/-- No output changes the action set of its own bridge. -/
lemma composeOutputAction_actionSet {checkStp : Bool}
    (hrun : composeOutputAction env rec checkStp port c = some c') :
    c'.actionSet = c.actionSet ∧ c'.setDone = c.setDone := by
  cases hpeer : (env.portConfig c.bridge port).peer with
  | some peer => exact (frame_of_peer hpeer hrun).2.2
  | none =>
    unfold composeOutputAction at hrun
    split at hrun
    · cases hrun
      exact ⟨rfl, rfl⟩
    rename_i xport _
    rw [hpeer] at hrun
    split at hrun
    · cases hrun
      exact ⟨rfl, rfl⟩
    · obtain ⟨sent, -, hcore⟩ := egress_core env c port xport
      cases hrun
      exact ⟨congrArg Core.actionSet hcore, congrArg Core.setDone hcore⟩

/-- An output through a patch port puts back the state it had set aside for the peer. -/
lemma putBack_of_peer {peerPort : BitVec 16} {checkStp : Bool}
    (hpeer : (env.portConfig c.bridge port).peer = some (bridge, peerPort))
    (hrun : composeOutputAction env (doXlateActions env n) checkStp port c = some c') :
    PutBack c c' := by
  obtain ⟨hflow, hstack, hset, -⟩ := frame_of_peer hpeer hrun
  have hkept : Kept c.core c'.core :=
    ((respects_kept env).composeOutputAction_runs (w := .equal) (.refl c) port checkStp).holds
      c' hrun
  have hin : c'.inActionSet = true → c.inActionSet = true := hkept.inActionSet
  exact
    { bridge := hkept.bridge
      flow := hflow
      stack := hstack
      actionSet := hset
      inGroup := hkept.inGroup
      tableId := hkept.tableId
      rule := hkept.rule
      ruleCookie := hkept.ruleCookie
      inActionSet := fun h => by simpa [h] using hin }

/-- The steps behind a patch port leave the flags as they were before it. -/
structure FlagsPutBack (env : Env β ω α) (c : Ctx β ω α) (behind : List (Step β)) : Prop where
  hasGroup : behind.foldl Step.hasGroup c.actionSetHasGroup = c.actionSetHasGroup
  wasMpls : c.wasMpls = true ∨ ∀ e ∈ behind, e.popsMpls env = false
  inActionSet : c.inActionSet = false ∨ ∀ e ∈ behind, e.isActionSet = false

/-- **What an output to a patch port leaves behind, and what it depends on.**  Most of the context
is put back.  The flags are what they were if and only if the steps behind the patch port leave them
so, and the datapath actions and packet-ins do not depend on two of them if no step there looks at
them before it is set. -/
theorem patchPort_isolated (env : Env β ω α) {n : ℕ} (hn : nestingLimit ≤ n) {c : Ctx β ω α}
    (hc : c.resubmits ≤ maxResubmits + maxInternalResubmits) {port : BitVec 16} {bridge : β}
    {peerPort : BitVec 16} (hpeer : (env.portConfig c.bridge port).peer = some (bridge, peerPort))
    (checkStp : Bool) :
    ∃ c' behind, composeOutputAction env (doXlateActions env n) checkStp port c = some c' ∧
      c'.trace = c.trace ++ behind ∧ PutBack c c' ∧
      (c'.actionSetHasGroup = c.actionSetHasGroup ∧ c'.wasMpls = c.wasMpls ∧
        c'.inActionSet = c.inActionSet ↔ FlagsPutBack env c behind) ∧
      (∀ g s : Bool, IgnoresFlags (g = c.actionSetHasGroup) (s = c.inActionSet) behind →
        (composeOutputAction env (doXlateActions env n) checkStp port
          { c with actionSetHasGroup := g, inActionSet := s }).map
            (fun d => (d.odpActions, d.packetIns)) = some (c'.odpActions, c'.packetIns)) := by
  have hsome : (composeOutputAction env (doXlateActions env n) checkStp port c).isSome := by
    have henough : Core.Enough (n + 1) c.core := by
      have hin := Bool.toNat_le (!c.inGroup)
      refine ⟨hc, ?_⟩
      simp only [Core.need, Ctx.core, nestingLimit] at hn ⊢
      omega
    exact (Setup.composeOutputAction_runs (enough_ok (doXlateActions_isSome n))
      (enough_setOk (doXlateActions_isSome n)) (.refl henough) port checkStp).isSome trivial
  obtain ⟨c', hc'⟩ := Option.isSome_iff_exists.mp hsome
  obtain ⟨_, behind, htrace, hg, hm, hs⟩ := ((flagsAfter_preserves env).respects
    |>.composeOutputAction_runs (w := .equal) (.refl c) port checkStp).holds c' hc'
  refine ⟨c', behind, hc', htrace, putBack_of_peer hpeer hc', ?_, fun g s hignores => ?_⟩
  · have hg : c'.actionSetHasGroup = behind.foldl Step.hasGroup c.actionSetHasGroup := hg
    have hm : c'.wasMpls = (c.wasMpls || behind.any (Step.popsMpls env)) := hm
    have hs : c'.inActionSet = (c.inActionSet && !behind.any Step.isActionSet) := hs
    have hwas : (c.wasMpls || behind.any (Step.popsMpls env)) = c.wasMpls ↔
        c.wasMpls = true ∨ ∀ e ∈ behind, e.popsMpls env = false := by
      cases c.wasMpls <;> simp
    have hin : (c.inActionSet && !behind.any Step.isActionSet) = c.inActionSet ↔
        c.inActionSet = false ∨ ∀ e ∈ behind, e.isActionSet = false := by
      cases c.inActionSet <;> simp
    rw [hg, hm, hs, hwas, hin]
    constructor
    · rintro ⟨hg, hm, hs⟩
      exact ⟨hg, hm, hs⟩
    · intro h
      exact ⟨h.hasGroup, h.wasMpls, h.inActionSet⟩
  · have hsim : Similar (.behind c.trace (g = c.actionSetHasGroup) (s = c.inActionSet)) c
        (c.withFlags c.trace g s) := by
      refine .mk _ g s ⟨fun h => ?_, fun h => ?_, False.elim⟩
      · simpa using h [] (append_nil _).symm
      · simpa using h [] (append_nil _).symm
    have hgood : (Leeway.behind c.trace (g = c.actionSetHasGroup) (s = c.inActionSet)).good
        c'.trace := by
      intro t ht
      exact append_cancel_left (htrace.symm.trans ht) ▸ hignores
    obtain ⟨d', hd', hsim'⟩ := ((respects_kept env).composeOutputAction_runs hsim port
      checkStp).follow c' hc' hgood
    obtain ⟨t, g', s', -⟩ := hsim'
    exact congrArg (Option.map fun d => (d.odpActions, d.packetIns)) hd'

end Crossing

/-- The second bridge clears its action set, writes a group into it, and outputs to port 3. -/
def isolatingTables (b : Bool) (_ : BitVec 16) : List Ofpact :=
  if b then [.clearActions, .writeActions [.group 1], .output 3 0] else [.output 1 0]

/-- A context of the first bridge with a group in its action set. -/
def withGroup : Ctx Bool Unit (Bool × BitVec 16) :=
  { fromPort3.begin (twoBridges isolatingTables) with actionSetHasGroup := true }

theorem patchPort_isolated_twoBridges :
    ∃ c', composeOutputAction (twoBridges isolatingTables)
        (doXlateActions (twoBridges isolatingTables) nestingLimit) true 1 withGroup = some c' ∧
      c'.actionSetHasGroup = true ∧
      (composeOutputAction (twoBridges isolatingTables)
        (doXlateActions (twoBridges isolatingTables) nestingLimit) true 1
        { withGroup with actionSetHasGroup := false, inActionSet := true }).map
          (fun d => (d.odpActions, d.packetIns)) = some (c'.odpActions, c'.packetIns) := by
  have hpeer : ((twoBridges isolatingTables).portConfig withGroup.bridge 1).peer =
    some (true, 1) := rfl
  obtain ⟨c', behind, hc', htrace, -, hflags, hsame⟩ :=
    patchPort_isolated (twoBridges isolatingTables) le_rfl (by decide) hpeer true
  obtain ⟨s1, s2, s3, s4, s5, hsteps⟩ : ∃ s1 s2 s3 s4 s5, behind =
      [.action .clearActions s1, .action (.writeActions [.group 1]) s2, .action (.output 3 0) s3,
        .actionSet s4, .action (.group 1) s5] := by
    have hrun : composeOutputAction (twoBridges isolatingTables)
      (doXlateActions (twoBridges isolatingTables) nestingLimit) true 1 withGroup = some _ := rfl
    obtain rfl := Option.some.inj (hc'.symm.trans hrun)
    exact ⟨_, _, _, _, _, htrace.symm⟩
  subst hsteps
  refine ⟨c', hc', (hflags.mpr ⟨rfl, ?_, .inl rfl⟩).1, hsame false true ?_⟩
  · simp [Step.popsMpls]
  · simp [IgnoresFlags, Step.Ignores, Step.isClear]

/-- The first bridge outputs to a patch port in its action set.  The second one outputs to the
controller, and has an action set with a group. -/
def leakingTables (b : Bool) (_ : BitVec 16) : List Ofpact :=
  if b then [.output 0xfffd 0, .writeActions [.group 1]] else [.writeActions [.output 1 0]]

/-- The context in which the action set of the first bridge is translated. -/
def inActionSetOfFirst : Option (Ctx Bool Unit (Bool × BitVec 16)) :=
  (doXlateActions (twoBridges leakingTables) 3 (leakingTables false 3)
    (fromPort3.begin (twoBridges leakingTables))).map Ctx.enterActionSet

/-- The output to the patch port in it, with other flags. -/
def outputToPatchPort (c : Ctx Bool Unit (Bool × BitVec 16)) :
    Option (Ctx Bool Unit (Bool × BitVec 16)) :=
  composeOutputAction (twoBridges leakingTables) (doXlateActions (twoBridges leakingTables) 3)
    true 1 c

/-- **The flags leak through patch ports**, in both directions: after the output `in_action_set` is
not set any more and `action_set_has_group` is, and if `in_action_set` was not set before, then the
controller is told of another reason. -/
theorem patchPort_leaks :
    inActionSetOfFirst.map (fun c => (c.inActionSet, c.actionSetHasGroup)) = some (true, false) ∧
    (inActionSetOfFirst.bind outputToPatchPort).map
      (fun c => (c.inActionSet, c.actionSetHasGroup)) = some (false, true) ∧
    (inActionSetOfFirst.bind outputToPatchPort).map (fun c => c.packetIns.map (·.reason)) =
      some [.actionSet] ∧
    (inActionSetOfFirst.bind fun c => outputToPatchPort
      { c with actionSetHasGroup := false, inActionSet := false }).map
      (fun c => c.packetIns.map (·.reason)) = some [.action] := by
  decide +kernel

end Xlate

end OVS
