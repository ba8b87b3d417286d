import OpenVSwitch.Xlate.PatchPort

/-!
# The output port of the action set

Flow tables can match on `actset_output`, which is the port that the action set outputs to.
`xlate_write_actions()` maintains it as actions are written, with a flag for groups.

* `actsetOutput_tracks` — before every step of a translation, as long as the action set of the
  bridge has not been executed, the field is what the action set says, if actions are only written
  where the flag is right, and no output is written after a group in one instruction.
* `actsetOutput_miscounted` — an output after a group in one instruction sets the field although
  there is a group.

**Points of a translation.**  The trace of a translation has all of its steps, with the context
before each of them.  So "at every point" is a statement about the trace, and `Tracks` is what one
step passes on to the next.
-/

namespace OVS

namespace Xlate

open Function List

variable {β ω α : Type} {env : Env β ω α} {n : ℕ} {c c' : Ctx β ω α} {ofpacts : List Ofpact}

/-- The port of an output action. -/
def Ofpact.outputPort : Ofpact → Option (BitVec 16)
  | .output port _ => some port
  | _ => none

/-- What `actset_output` is for: the port of the last output in the action set, if there is one and
no group. -/
def actsetOutputOf (actionSet : List Ofpact) : BitVec 16 :=
  if actionSet.any Ofpact.isGroup then ofppUnset
  else (actionSet.filterMap Ofpact.outputPort).getLast?.getD ofppUnset

/-- The actions of an instruction are written correctly in a context: there are neither groups nor
outputs among them, or the flag is right, and unless it is set, no output comes after a group. -/
def WrittenRight (ofpacts : List Ofpact) (s : Snapshot β) : Prop :=
  (∀ a ∈ ofpacts, a.isGroup = false ∧ a.isOutput = false) ∨
    s.actionSetHasGroup = s.actionSet.any Ofpact.isGroup ∧
      (s.actionSetHasGroup = true ∨ ofpacts.Pairwise fun a b => a.isGroup → b.outputPort = none)

instance (ofpacts : List Ofpact) (s : Snapshot β) : Decidable (WrittenRight ofpacts s) :=
  inferInstanceAs (Decidable (_ ∨ _))

/-- A step writes its actions correctly.  No action set is changed in a group, where the flow is put
back but not the action set. -/
def Step.isRight : Step β → Bool
  | .action (.writeActions ofpacts) s => s.setDone || !s.inGroup && decide (WrittenRight ofpacts s)
  | .action .clearActions s => s.setDone || !s.inGroup
  | _ => true

/-- The field is what the action set says, unless that has been executed. -/
def Snapshot.Tracked (s : Snapshot β) : Prop :=
  s.setDone = true ∨ s.flow .actsetOutput = actsetOutputOf s.actionSet

/-- The same for a core. -/
def Core.Tracked (k : Core β) : Prop :=
  k.setDone = true ∨ k.actsetOutput = actsetOutputOf k.actionSet

/-! ## Writing actions -/

/-- Appending actions that send nothing leaves the port of the action set. -/
lemma actsetOutputOf_append_of_none (set : List Ofpact)
    (h : ∀ a ∈ ofpacts, a.isGroup = false ∧ a.isOutput = false) :
    actsetOutputOf (set ++ ofpacts) = actsetOutputOf set := by
  have hany : ofpacts.any Ofpact.isGroup = false := by
    simpa using fun a ha => (h a ha).1
  have hnil : ofpacts.filterMap Ofpact.outputPort = [] := by
    refine filterMap_eq_nil_iff.mpr fun a ha => ?_
    have hout := (h a ha).2
    cases a with
    | output => simp [Ofpact.isOutput] at hout
    | _ => rfl
  simp [actsetOutputOf, hany, hnil]

/-- Where no output follows a group the loop finds the last output, or none if there is a group.
-/
lemma foldl_actsetOutput_fst (h : ofpacts.Pairwise fun a b => a.isGroup → b.outputPort = none)
    (s : BitVec 16 × Bool) : (ofpacts.foldl actsetOutput s).1 =
      if ofpacts.any Ofpact.isGroup then ofppUnset
      else (ofpacts.filterMap Ofpact.outputPort).getLast?.getD s.1 := by
  induction ofpacts generalizing s with
  | nil => rfl
  | cons a ofpacts ih =>
    obtain ⟨hrest, h⟩ := pairwise_cons.mp h
    rw [foldl_cons, ih h]
    cases a with
    | output port => simp [actsetOutput, Ofpact.isGroup, Ofpact.outputPort, getLast?_cons]
    | group =>
      have hnil : ofpacts.filterMap Ofpact.outputPort = [] :=
        filterMap_eq_nil_iff.mpr fun b hb => hrest b hb rfl
      simp [actsetOutput, Ofpact.isGroup, hnil]
    | _ => simp [actsetOutput, Ofpact.isGroup, Ofpact.outputPort]

/-- The field after `xlate_write_actions()`. -/
lemma actsetOutputOf_append {s : Snapshot β} (h : s.flow .actsetOutput = actsetOutputOf s.actionSet)
    (hright : WrittenRight ofpacts s) :
    (if s.actionSetHasGroup then s.flow .actsetOutput
      else (ofpacts.foldl actsetOutput (s.flow .actsetOutput, false)).1) =
        actsetOutputOf (s.actionSet ++ ofpacts) := by
  rcases hright with hnone | ⟨hflag, horder⟩
  · rw [foldl_actsetOutput_of_none hnone, ite_self, actsetOutputOf_append_of_none _ hnone, h]
  cases hgroup : s.actionSetHasGroup with
  | true =>
    have hany : s.actionSet.any Ofpact.isGroup = true := hflag ▸ hgroup
    simp [h, actsetOutputOf, hany]
  | false =>
    have hany : s.actionSet.any Ofpact.isGroup = false := hflag ▸ hgroup
    have horder := horder.resolve_left (by simp [hgroup])
    simp only [Bool.false_eq_true, if_false, foldl_actsetOutput_fst horder, h, actsetOutputOf, hany,
      any_append, Bool.false_or, filterMap_append, getLast?_append]
    split
    · rfl
    · cases (ofpacts.filterMap Ofpact.outputPort).getLast? <;> rfl

/-! ## Translations -/

/-- What a part of a translation passes on, if all of its steps write correctly: the field is right
at all points and in the end.  In a group the action set does not change. -/
structure Tracks (k k' : Core β) : Prop where
  kept : Kept k k'
  tracked : (∀ e ∈ k'.trace, e.isRight) → (∀ e ∈ k.trace, e.snapshot.Tracked) → k.Tracked →
    (∀ e ∈ k'.trace, e.snapshot.Tracked) ∧ k'.Tracked
  group : (∀ e ∈ k'.trace, e.isRight) → k.inGroup = true →
    k'.setDone = true ∨ k'.actionSet = k.actionSet

section Tracks

variable {k k' k'' : Core β}

lemma Tracks.refl (k : Core β) : Tracks k k :=
  ⟨.refl k, fun _ htrace hk => ⟨htrace, hk⟩, fun _ _ => .inr rfl⟩

lemma Tracks.trans (h : Tracks k k') (h' : Tracks k' k'') : Tracks k k'' := by
  have hright : (∀ e ∈ k''.trace, e.isRight) → ∀ e ∈ k'.trace, e.isRight :=
    fun hr e he => hr e (h'.kept.trace.subset he)
  refine ⟨h.kept.trans h'.kept, fun hr htrace hk => ?_, fun hr hin => ?_⟩
  · obtain ⟨htrace, hk⟩ := h.tracked (hright hr) htrace hk
    exact h'.tracked hr htrace hk
  · rcases h'.group hr (h.kept.inGroup.trans hin) with hdone | heq'
    · exact .inl hdone
    rcases h.group (hright hr) hin with hdone | heq
    · exact .inl (h'.kept.setDone hdone)
    · exact .inr (heq'.trans heq)

/-- A step that is recorded, and leaves the action set and the field alone. -/
lemma Tracks.of_push {e : Step β} (hkept : Kept k k') (htrace : k'.trace = k.trace ++ [e])
    (hflow : e.snapshot.flow .actsetOutput = k.actsetOutput)
    (hset : e.snapshot.actionSet = k.actionSet) (hdone : e.snapshot.setDone = k.setDone)
    (hk' : (∀ e ∈ k'.trace, e.isRight) → k.Tracked → k'.Tracked)
    (hgroup : (∀ e ∈ k'.trace, e.isRight) → k.inGroup = true →
      k'.setDone = true ∨ k'.actionSet = k.actionSet) : Tracks k k' := by
  refine ⟨hkept, fun hr ht hk => ⟨fun e' he' => ?_, hk' hr hk⟩, hgroup⟩
  rw [htrace] at he'
  rcases mem_append.mp he' with he' | he'
  · exact ht e' he'
  · rw [mem_singleton.mp he', Snapshot.Tracked, hflow, hset, hdone]
    exact hk

/-- A local action that writes correctly leaves the field in step with the action set. -/
lemma tracks_localAction (a : Ofpact) (c : Ctx β ω α) :
    Tracks c.core (xlateLocalAction env a (c.push (.action a))).2.core := by
  have hcase := xlateLocalAction_cases env a (c.push (.action a))
  have htrace : (xlateLocalAction env a (c.push (.action a))).2.core.trace =
      c.core.trace ++ [.action a c.snapshot] := by
    cases hcase with
    | plain hcore | popped hcore | dropped hcore | cleared hcore | written hcore =>
      rw [hcore]
      rfl
  have hlast : (∀ e ∈ (xlateLocalAction env a (c.push (.action a))).2.core.trace, e.isRight) →
      (Step.action a c.snapshot).isRight := by
    rw [htrace]
    exact fun hr => hr _ (mem_append_right _ (mem_singleton_self _))
  refine .of_push ((push_kept c _).trans hcase.kept) htrace rfl rfl rfl ?_ ?_
  · intro hr hk
    have hstep := hlast hr
    cases hcase with
    | plain hcore | popped hcore | dropped hcore =>
      rw [hcore]
      exact hk
    | cleared hcore =>
      rw [hcore]
      exact .inr rfl
    | written hcore =>
      rw [hcore]
      rcases hk with hdone | hk
      · exact .inl hdone
      simp only [Step.isRight, Bool.or_eq_true, Bool.and_eq_true, decide_eq_true_eq] at hstep
      rcases hstep with hdone | ⟨_, hwritten⟩
      · exact .inl hdone
      · exact .inr (actsetOutputOf_append (s := c.snapshot) hk hwritten)
  · intro hr hin
    have hstep := hlast hr
    have hin : c.snapshot.inGroup = true := hin
    cases hcase with
    | plain hcore | popped hcore | dropped hcore =>
      rw [hcore]
      exact .inr rfl
    | cleared hcore =>
      have hdone : c.snapshot.setDone = true := by simpa [Step.isRight, hin] using hstep
      rw [hcore]
      exact .inl hdone
    | written hcore =>
      have hdone : c.snapshot.setDone = true := by simpa [Step.isRight, hin] using hstep
      rw [hcore]
      exact .inl hdone

/-- Every step passes it on. -/
lemma tracks_preserves (env : Env β ω α) : Preserves env Tracks where
  refl := Tracks.refl
  trans := Tracks.trans
  push c e _ hs := by
    refine .of_push (push_kept c e) rfl ?_ ?_ ?_ (fun _ hk => hk) fun _ _ => .inr rfl
    all_goals rw [hs]; rfl
  localAction := tracks_localAction
  egress {c port xport} hxport := by
    obtain ⟨sent, -, hcore⟩ := egress_core env c port xport
    have hkept := (kept_preserves env).egress (c := c) hxport
    rw [hcore] at hkept ⊢
    split at hkept
    case isTrue harp =>
      rw [if_pos harp]
      refine .of_push hkept rfl ?_ ?_ ?_ (fun _ hk => hk) fun _ _ => .inr rfl
      all_goals rw [addMirrors_eq]; rfl
    case isFalse harp =>
      rw [if_neg harp, append_nil]
      exact ⟨by simpa using hkept, fun _ ht hk => ⟨ht, hk⟩, fun _ _ => .inr rfl⟩
  patch {c port xport} hxport := by
    have hkept := (kept_preserves env).patch (c := c) hxport
    rw [patch_eq] at hkept ⊢
    exact ⟨hkept, fun _ ht hk => ⟨ht, hk⟩, fun _ _ => .inr rfl⟩
  peer hpeer h :=
    ⟨(kept_preserves env).peer hpeer h.kept,
      fun hr ht hk => ⟨(h.tracked hr ht (.inr rfl)).1, hk⟩, fun _ _ => .inr rfl⟩
  learnOnly h := ⟨(kept_preserves env).learnOnly h.kept, h.tracked, h.group⟩
  drop k :=
    ⟨(kept_preserves env).drop k, fun _ ht _ => ⟨ht, .inl rfl⟩, fun _ _ => .inl rfl⟩
  rule rule tableId hrecurse hresubmits h :=
    ⟨(kept_preserves env).rule rule tableId hrecurse hresubmits h.kept, h.tracked, h.group⟩
  bucket h := ⟨(kept_preserves env).bucket h.kept, h.tracked, h.group⟩
  restoreFlow {k k'} hin h := by
    refine ⟨(kept_preserves env).restoreFlow hin h.kept, fun hr ht hk => ?_, h.group⟩
    refine ⟨(h.tracked hr ht hk).1, ?_⟩
    -- the field goes back to what it was, and the action set has not changed
    rcases hk with hdone | hk
    · exact .inl (h.kept.setDone hdone)
    rcases h.group hr hin with hdone | heq
    · exact .inl hdone
    · exact .inr (hk.trans (congrArg actsetOutputOf heq.symm))
  group {k k'} hin h :=
    ⟨(kept_preserves env).group hin h.kept, h.tracked, fun _ hin' => by simp [hin] at hin'⟩
  actionSet {c k'} h := by
    have hdone : k'.setDone = true := h.kept.setDone rfl
    refine ⟨(kept_preserves env).actionSet h.kept, fun hr ht hk => ⟨?_, .inl hdone⟩,
      fun _ _ => .inl hdone⟩
    refine (h.tracked hr (fun e he => ?_) (.inl rfl)).1
    rcases mem_append.mp he with he | he
    · exact ht e he
    · rw [mem_singleton.mp he]
      exact hk

end Tracks

/-- After the translation of the packet the action set has been executed or dropped, or there is
none. -/
lemma translate_setDone {x : Request β ω α} (hc : x.translate env n = some c) :
    c.setDone = true ∨ c.actionSet = [] := by
  obtain ⟨c1, hc1, hc⟩ := Option.bind_eq_some_iff.mp hc
  have hdone : c1.setDone = true ∨ c1.actionSet = [] := by
    unfold Request.translateActions at hc1
    split at hc1
    · obtain ⟨c0, -, hc1⟩ := Option.bind_eq_some_iff.mp hc1
      split at hc1
      · unfold xlateActionSetIfAny at hc1
        split at hc1
        case isTrue hempty =>
          cases hc1
          exact .inr (isEmpty_iff.mp hempty)
        case isFalse =>
          obtain ⟨c2, hc2, rfl⟩ := Option.map_eq_some_iff.mp hc1
          have hkept : Kept c0.enterActionSet.core c2.core := (respects_kept env).doXlateActions hc2
          exact .inl (hkept.setDone rfl)
      · cases hc1
        exact .inl rfl
    · cases hc1
      exact .inr (congrArg Core.actionSet (begin_core env x))
  split at hc
  · obtain ⟨hset, hdone'⟩ := composeOutputAction_actionSet hc
    rw [hset, hdone']
    exact hdone
  · cases hc
    exact hdone

/-- The translation of a packet passes it on, and so do the copies for mirrors. -/
lemma xlateActions_tracks {x : Request β ω α} (hunset : x.flow .actsetOutput = ofppUnset)
    (hc : xlateActions env n x = some c) (hright : ∀ e ∈ c.trace, e.isRight) :
    (∀ e ∈ c.trace, e.snapshot.Tracked) ∧ c.core.Tracked := by
  have htracks : Respects env Tracks := ⟨tracks_preserves env, Tracks.kept⟩
  have hbegin : (x.begin env).trace = [] ∧ (x.begin env).core.Tracked := by
    refine ⟨congrArg Core.trace (begin_core env x), .inr ?_⟩
    have hset : (x.begin env).core.actionSet = [] := congrArg Core.actionSet (begin_core env x)
    have hfield : (x.begin env).core.actsetOutput = x.flow .actsetOutput :=
      congrArg Core.actsetOutput (begin_core env x)
    rw [hset, hfield, hunset]
    rfl
  unfold xlateActions at hc
  split at hc
  · cases hc
    exact ⟨fun e he => absurd (hbegin.1 ▸ he : e ∈ []) not_mem_nil, hbegin.2⟩
  obtain ⟨c1, hc1, hc⟩ := Option.bind_eq_some_iff.mp hc
  have hfirst : Tracks (x.begin env).core c1.core := htracks.translate hc1
  have hfrom : (∀ e ∈ c1.trace, e.isRight) →
      (∀ e ∈ c1.trace, e.snapshot.Tracked) ∧ c1.core.Tracked := fun hr =>
    hfirst.tracked hr (fun e he => by simp [Ctx.core, hbegin.1] at he) hbegin.2
  split at hc
  · unfold addMirrorActions at hc
    split at hc
    · split at hc <;> cases hc <;> exact hfrom hright
    split at hc
    · cases hc
      exact hfrom hright
    rename_i visited _
    have hcopies : Tracks (c1.restore x.flow visited).core c.core := htracks.outputCopies hc
    have hr : ∀ e ∈ c1.trace, e.isRight := fun e he =>
      hright e (((restore_kept c1 x.flow visited).trans hcopies.kept).trace.subset he)
    refine hcopies.tracked hright ?_ ?_
    · unfold Ctx.restore
      split <;> exact (hfrom hr).1
    · unfold Ctx.restore
      split
      · exact (hfrom hr).2
      · refine (translate_setDone hc1).imp_right fun hset => ?_
        change x.flow .actsetOutput = actsetOutputOf c1.actionSet
        rw [hset, hunset]
        rfl
  · cases hc
    exact hfrom hright

/-- **`actset_output` follows the action set**, at every point of every translation and in the end,
until the action set is executed, if all actions are written correctly. -/
theorem actsetOutput_tracks {x : Request β ω α} (hunset : x.flow .actsetOutput = ofppUnset)
    (hc : xlateActions env n x = some c) (hright : ∀ e ∈ c.trace, e.isRight) :
    (∀ e ∈ c.trace, e.snapshot.setDone = false →
      e.snapshot.flow .actsetOutput = actsetOutputOf e.snapshot.actionSet) ∧
    (c.setDone = false → c.flow .actsetOutput = actsetOutputOf c.actionSet) := by
  obtain ⟨hpoints, hend⟩ := xlateActions_tracks hunset hc hright
  refine ⟨fun e he hdone => (hpoints e he).resolve_left (by simp [hdone]), fun hdone => ?_⟩
  exact hend.resolve_left (by simp [Ctx.core, hdone])

/-- The first bridge writes an output, floods, clears the action set, and writes another output.
The second one writes an output and a group. -/
def floodingTables (b : Bool) (_ : BitVec 16) : List Ofpact :=
  if b then [.clearActions, .writeActions [.output 3 0, .group 1], .note]
  else [.writeActions [.output 3 0], .output 0xfffb 0, .clearActions, .writeActions [.output 2 0],
    .note]

/-- A packet on port 3 of the first bridge, with the field as `xlate_in_init()` sets it. -/
def unsetFromPort3 : Request Bool Unit (Bool × BitVec 16) :=
  { fromPort3 with flow := update fromPort3.flow .actsetOutput ofppUnset }

theorem actsetOutput_tracks_twoBridges :
    ∃ c, xlateActions (twoBridges floodingTables) nestingLimit unsetFromPort3 = some c ∧
      c.trace.countP (fun e => e.snapshot.bridge && e.snapshot.actionSet.any Ofpact.isGroup) = 6 ∧
      ∀ e ∈ c.trace, e.snapshot.setDone = false →
        e.snapshot.flow .actsetOutput = actsetOutputOf e.snapshot.actionSet := by
  obtain ⟨c, hc⟩ : ∃ c, xlateActions (twoBridges floodingTables) nestingLimit unsetFromPort3 =
      some c := Option.isSome_iff_exists.mp (xlateActions_isSome_of_le le_rfl unsetFromPort3)
  have hsteps : (xlateActions (twoBridges floodingTables) nestingLimit unsetFromPort3).map
      (fun c => (c.trace.all Step.isRight, c.trace.countP fun e =>
        e.snapshot.bridge && e.snapshot.actionSet.any Ofpact.isGroup)) = some (true, 6) := by
    decide +kernel
  rw [hc, Option.map_some, Option.some.injEq, Prod.mk.injEq] at hsteps
  exact ⟨c, hc, hsteps.2, (actsetOutput_tracks rfl hc (all_eq_true.mp hsteps.1)).1⟩

theorem actsetOutput_miscounted :
    (doXlateActions (twoBridges throughPatchPort) 3 [.writeActions [.group 1, .output 3 0]]
      (unsetFromPort3.begin (twoBridges throughPatchPort))).map
      (fun c => (c.flow .actsetOutput, actsetOutputOf c.actionSet)) = some (3, ofppUnset) := by
  decide +kernel

end Xlate

end OVS
