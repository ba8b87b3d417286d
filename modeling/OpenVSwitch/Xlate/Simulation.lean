import OpenVSwitch.Xlate.Invariant

/-!
# Two translations side by side

Everything that is shown about translations needs a walk through all of their functions.  This is
the only one.  It follows two translations, which may have different limits, and whose contexts are
the same but for two flags (`Similar`), and it says three things at once:

* a relation that every step preserves (`Preserves`) holds between the contexts before and after;
* the second translation follows the first one if all steps of the first one are good, and their
  contexts are still the same but for the flags;
* the first translation returns, provided that the calls it makes do.

Which steps are good, and when the flags have to be the same, is said by a `Leeway`.  What else the
walk depends on is put together in a `Setup`.  If nothing is said about returning, then there is no
more to it: `doXlateActions_follows`.
-/

namespace OVS

namespace Xlate

open Bounded List Ctx

variable {β ω α : Type} {c d : Ctx β ω α} {a : Ofpact}

/-! ## Contexts that differ in flags -/

/-- The step has cleared the action set. -/
def Step.isClear : Step β → Bool
  | .action .clearActions _ => true
  | _ => false

/-- The step has executed an action set. -/
def Step.isActionSet : Step β → Bool
  | .actionSet _ => true
  | _ => false

/-- How far the contexts of two translations may differ.  After which steps `action_set_has_group`
and `in_action_set` are the same, and if everything is.  Steps are good if none of them looks at a
flag that may be different. -/
structure Leeway (β : Type) where
  same : Prop
  hasGroup : List (Step β) → Prop
  inActionSet : List (Step β) → Prop
  good : List (Step β) → Prop
  good_of_append : ∀ {t t'}, good (t ++ t') → good t
  hasGroup_push : ∀ {t e}, hasGroup (t ++ [e]) → hasGroup t ∨ e.isClear
  inActionSet_push : ∀ {t e}, inActionSet (t ++ [e]) → inActionSet t ∨ e.isActionSet
  written : ∀ {t ofpacts s}, good (t ++ [.action (.writeActions ofpacts) s]) →
    hasGroup t ∨ ∀ a ∈ ofpacts, a.isGroup = false ∧ a.isOutput = false
  told : ∀ {t s}, good (t ++ [.controller s]) → s.inGroup = true ∨ inActionSet t
  of_same : same → ∀ t, hasGroup t ∧ inActionSet t

/-- The contexts are the same, and steps are good if `good` says so. -/
def Leeway.none (good : List (Step β) → Prop) (h : ∀ {t t'}, good (t ++ t') → good t) :
    Leeway β where
  same := True
  hasGroup _ := True
  inActionSet _ := True
  good := good
  good_of_append := h
  hasGroup_push _ := .inl trivial
  inActionSet_push _ := .inl trivial
  written _ := .inl trivial
  told _ := .inr trivial
  of_same _ _ := ⟨trivial, trivial⟩

/-- The contexts are the same, whatever the steps are. -/
def Leeway.equal : Leeway β := .none (fun _ => True) fun _ => trivial

/-- What two flags and the steps may be in place of `g`, `s` and `t`. -/
structure Leeway.Allows (w : Leeway β) (t : List (Step β)) (g s : Bool) (t' : List (Step β))
    (g' s' : Bool) : Prop where
  hasGroup : w.hasGroup t → g' = g
  inActionSet : w.inActionSet t → s' = s
  trace : w.same → t' = t

/-- The context with other flags and steps. -/
@[simps -fullyApplied]
def Ctx.withFlags (c : Ctx β ω α) (t : List (Step β)) (g s : Bool) : Ctx β ω α :=
  { c with actionSetHasGroup := g, inActionSet := s, trace := t }

/-- Two contexts are the same up to `action_set_has_group`, `in_action_set` and the steps. -/
inductive Similar (w : Leeway β) (c : Ctx β ω α) : Ctx β ω α → Prop where
  | mk (t : List (Step β)) (g s : Bool)
      (h : w.Allows c.trace c.actionSetHasGroup c.inActionSet t g s) :
      Similar w c (c.withFlags t g s)

variable {w : Leeway β}

lemma Similar.refl (c : Ctx β ω α) : Similar w c c :=
  .mk _ _ _ ⟨fun _ => rfl, fun _ => rfl, fun _ => rfl⟩

/-- Two contexts that may differ in nothing the leeway names are one and the same context. -/
lemma Similar.eq (hsame : w.same) (h : Similar w c d) : d = c := by
  obtain ⟨t, g, s, hw⟩ := h
  obtain ⟨hg, hs⟩ := w.of_same hsame c.trace
  rw [hw.hasGroup hg, hw.inActionSet hs, hw.trace hsame]
  rfl

/-- The same step is recorded in both contexts.  If it changes a flag, then this is not the end of
it. -/
lemma Leeway.Allows.push {t t' : List (Step β)} {g s g' s' : Bool} {e e' : Step β}
    (h : w.Allows t g s t' g' s') (hclear : e.isClear = false) (hset : e.isActionSet = false)
    (he : w.same → e' = e) : w.Allows (t ++ [e]) g s (t' ++ [e']) g' s' where
  hasGroup hg := h.hasGroup ((w.hasGroup_push hg).resolve_right (by simp [hclear]))
  inActionSet hs := h.inActionSet ((w.inActionSet_push hs).resolve_right (by simp [hset]))
  trace hsame := by rw [h.trace hsame, he hsame]

/-- The part of two similar contexts that is recorded with a step is the same if everything is. -/
lemma Leeway.Allows.snapshot {t : List (Step β)} {g s : Bool}
    (h : w.Allows c.trace c.actionSetHasGroup c.inActionSet t g s) (hsame : w.same) :
    (c.withFlags t g s).snapshot = c.snapshot :=
  congrArg Ctx.snapshot ((Similar.mk t g s h).eq hsame)

/-! ## Steps that make no calls -/

section Steps

variable (env : Env β ω α)

section

variable (hc : Similar w c d)
include hc

/-- Logging a step that neither clears nor writes the action set keeps two contexts similar. -/
lemma push_similar {e : Snapshot β → Step β} (hclear : ∀ s, (e s).isClear = false)
    (hset : ∀ s, (e s).isActionSet = false) : Similar w (c.push e) (d.push e) := by
  obtain ⟨t, g, b, hw⟩ := hc
  exact .mk _ g b (hw.push (hclear _) (hset _) fun hsame => by rw [hw.snapshot hsame])

/-- Collecting the mirrors of a port reads only what two similar contexts share. -/
lemma addMirrors_similar (xport : XPort) :
    Similar w (c.addMirrors env xport) (d.addMirrors env xport) := by
  have hsim := hc
  obtain ⟨t, g, b, hw⟩ := hc
  unfold addMirrors
  split
  · exact .mk t g b hw
  · exact hsim

lemma record_similar (xport : XPort) : Similar w (c.record xport) (d.record xport) := by
  obtain ⟨t, g, b, hw⟩ := hc
  exact .mk t g b hw

/-- Leaving by a port, with its mirrors collected and its name recorded, keeps contexts similar.
-/
lemma egress_similar (port : BitVec 16) (xport : XPort) :
    Similar w (c.egress env port xport) (d.egress env port xport) := by
  obtain ⟨t, g, b, hw⟩ := hc
  have hpush : w.Allows (c.push .arpRequest).trace c.actionSetHasGroup c.inActionSet
      ((c.withFlags t g b).push .arpRequest).trace g b :=
    hw.push rfl rfl fun hsame => by rw [hw.snapshot hsame]
  unfold egress
  dsimp only [withFlags]
  generalize env.egress c.world c.bridge port c.useRecirc c.flow c.baseFlow c.wc = r
  cases r.arpRequest with
  | true => cases r.actions with
    | none | some => exact .mk _ g b hpush
  | false => cases r.actions with
    | none | some => exact .mk t g b hw

/-- A packet-in commits the flow and sends a copy, and neither looks at where contexts may differ.
-/
lemma executeControllerAction_similar (len : BitVec 16) (reason : PacketInReason)
    (controllerId : BitVec 16) : Similar w (executeControllerAction env len reason controllerId c)
      (executeControllerAction env len reason controllerId d) := by
  obtain ⟨t, g, b, hw⟩ := hc
  unfold executeControllerAction
  split <;> exact .mk t g b hw

lemma composeMplsPushAction_similar (ethertype : BitVec 16) :
    Similar w (composeMplsPushAction env ethertype c) (composeMplsPushAction env ethertype d) := by
  obtain ⟨t, g, b, hw⟩ := hc
  unfold composeMplsPushAction
  dsimp only [withFlags]
  split_ifs <;> exact .mk t g b hw

lemma composeMplsPopAction_similar (ethertype : BitVec 16) :
    Similar w (composeMplsPopAction env ethertype c) (composeMplsPopAction env ethertype d) := by
  obtain ⟨t, g, b, hw⟩ := hc
  unfold composeMplsPopAction
  dsimp only [withFlags]
  split
  · exact .mk t g b hw
  split <;> exact .mk t g b hw

end

variable {ofpacts : List Ofpact}

/-- A list with neither a group nor an output leaves what was found for `actset_output` alone. -/
lemma foldl_actsetOutput_of_none (h : ∀ a ∈ ofpacts, a.isGroup = false ∧ a.isOutput = false)
    (s : BitVec 16 × Bool) : ofpacts.foldl actsetOutput s = s := by
  induction ofpacts generalizing s with
  | nil => rfl
  | cons a ofpacts ih =>
    have hstep : actsetOutput s a = s := by
      cases a <;> simp_all [actsetOutput, Ofpact.isGroup, Ofpact.isOutput]
    rw [foldl_cons, hstep]
    exact ih (fun a' ha' => h a' (mem_cons_of_mem a ha')) s

/-- If there are no groups and outputs among them, then writing actions does not change more than
the action set. -/
lemma xlateWriteActions_of_none (h : ∀ a ∈ ofpacts, a.isGroup = false ∧ a.isOutput = false) :
    xlateWriteActions ofpacts c = { c with actionSet := c.actionSet ++ ofpacts } := by
  unfold xlateWriteActions
  dsimp only
  split
  · rfl
  · rename_i hgroup
    rw [foldl_actsetOutput_of_none h]
    simp [hgroup]

/-- The local actions other than the two that change the action set treat similar contexts alike.
-/
lemma xlateLocalAction_similar_of_ne (hc : Similar w c d) (hclear : a ≠ .clearActions)
    (hwrite : ∀ ofpacts, a ≠ .writeActions ofpacts) :
    (xlateLocalAction env a c).1 = (xlateLocalAction env a d).1 ∧
    Similar w (xlateLocalAction env a c).2 (xlateLocalAction env a d).2 := by
  cases a with
  | controller maxLen controllerId reason =>
    exact ⟨rfl, executeControllerAction_similar env hc _ _ _⟩
  | pushMpls ethertype => exact ⟨rfl, composeMplsPushAction_similar env hc _⟩
  | popMpls ethertype => exact ⟨rfl, composeMplsPopAction_similar env hc _⟩
  | decMplsTtl =>
    have hsim := hc
    obtain ⟨t, g, b, hw⟩ := hc
    simp only [xlateLocalAction, composeDecMplsTtlAction, withFlags_flow]
    split_ifs
    · exact ⟨rfl, .mk t g b hw⟩
    · refine ⟨rfl, executeControllerAction_similar env ?_ _ _ _⟩
      exact .mk t g b hw
    · exact ⟨rfl, hsim⟩
  | decTtl controllers =>
    obtain ⟨t, g, b, hw⟩ := hc
    simp only [xlateLocalAction, composeDecTtl, withFlags_flow]
    split_ifs
    · exact ⟨rfl, .mk t g b hw⟩
    · exact ⟨rfl, .mk t g b hw⟩
    · exact ⟨rfl, foldl_rel (.mk t g b hw) fun id _ _ _ hc =>
        executeControllerAction_similar env hc 0xffff .invalidTtl id⟩
  | clearActions => exact absurd rfl hclear
  | writeActions ofpacts => exact absurd rfl (hwrite ofpacts)
  | setQueue queue =>
    obtain ⟨t, g, b, hw⟩ := hc
    simp only [xlateLocalAction, withFlags_bridge]
    split <;> exact ⟨rfl, .mk t g b hw⟩
  | stackPop dst =>
    obtain ⟨t, g, b, hw⟩ := hc
    simp only [xlateLocalAction, withFlags_stack]
    split <;> exact ⟨rfl, .mk t g b hw⟩
  | sample spec =>
    obtain ⟨t, g, b, hw⟩ := hc
    simp only [xlateLocalAction, withFlags_bridge, withFlags_flow]
    split <;> exact ⟨rfl, .mk t g b hw⟩
  | _ =>
    obtain ⟨t, g, b, hw⟩ := hc
    exact ⟨rfl, .mk t g b hw⟩

/-- Actions are written in the same way if the flag is the same, or if nobody looks at it. -/
lemma xlateWriteActions_similar (hc : Similar w c d)
    (h : d.actionSetHasGroup = c.actionSetHasGroup ∨
      ∀ a ∈ ofpacts, a.isGroup = false ∧ a.isOutput = false) :
    Similar w (xlateWriteActions ofpacts c) (xlateWriteActions ofpacts d) := by
  obtain ⟨t, g, b, hw⟩ := hc
  rcases h with rfl | hnone
  · unfold xlateWriteActions
    dsimp only [withFlags]
    split
    · exact .mk t _ b hw
    · exact .mk t _ b ⟨fun _ => rfl, hw.inActionSet, hw.trace⟩
  · rw [xlateWriteActions_of_none hnone, xlateWriteActions_of_none hnone]
    exact .mk t g b hw

/-- An action that translates no others does the same in both contexts, if it does not look at a
flag that may be different. -/
lemma xlateLocalAction_similar (hc : Similar w c d) (hgood : w.good (c.push (.action a)).trace) :
    (xlateLocalAction env a (c.push (.action a))).1 =
      (xlateLocalAction env a (d.push (.action a))).1 ∧
    Similar w (xlateLocalAction env a (c.push (.action a))).2
      (xlateLocalAction env a (d.push (.action a))).2 := by
  by_cases hclear : a = .clearActions
  · subst hclear
    obtain ⟨t, g, b, hw⟩ := hc
    refine ⟨rfl, .mk _ false b ⟨fun _ => rfl, fun hs => ?_, fun hsame => ?_⟩⟩
    · exact hw.inActionSet ((w.inActionSet_push hs).resolve_right (by simp [Step.isActionSet]))
    · change t ++ [_] = c.trace ++ [_]
      rw [hw.snapshot hsame, hw.trace hsame]
  have hpush : Similar w (c.push (.action a)) (d.push (.action a)) := by
    refine push_similar hc (fun _ => ?_) fun _ => rfl
    cases a with
    | clearActions => exact absurd rfl hclear
    | _ => rfl
  by_cases hwrite : ∃ ofpacts, a = .writeActions ofpacts
  · obtain ⟨ofpacts, rfl⟩ := hwrite
    refine ⟨rfl, xlateWriteActions_similar hpush ((w.written hgood).imp_left fun hsame => ?_)⟩
    obtain ⟨t, g, b, hw⟩ := hc
    exact hw.hasGroup hsame
  · exact xlateLocalAction_similar_of_ne env hpush hclear (not_exists.mp hwrite)

/-- Recirculation saves the remaining actions and the flow, which similar contexts have in common.
-/
lemma composeRecirculateAction_similar (hc : Similar w c d) (ofpacts : List Ofpact) :
    Similar w (composeRecirculateAction env ofpacts c)
      (composeRecirculateAction env ofpacts d) := by
  obtain ⟨t, g, b, hw⟩ := hc
  simp only [composeRecirculateAction, withFlags_world, withFlags_bridge, withFlags_rule]
  split <;> exact .mk t g b hw

end Steps

/-! ## Setups -/

/-- Two translations: the relation between the contexts before and after, how far they may differ,
the procedures that they call, if the first one has to return, and while it may call the procedure
for rules (`J`) and for buckets (`G`). -/
structure Setup (β ω α : Type) where
  env : Env β ω α
  Q : Core β → Core β → Prop
  w : Leeway β
  total : Prop
  J : Core β → Prop
  G : Core β → Prop
  run : List Ofpact → Ctx β ω α → Option (Ctx β ω α)
  run' : List Ofpact → Ctx β ω α → Option (Ctx β ω α)

namespace Setup

variable (S : Setup β ω α)

/-- What the two translations do, of which the first one has started in `c`. -/
abbrev Runs (c : Ctx β ω α) : Option (Ctx β ω α) → Option (Ctx β ω α) → Prop :=
  Sim S.total (fun s => S.Q c.core s.core) (fun s => S.w.good s.trace) (Similar S.w)

/-- The same for functions that also say if the translation goes on. -/
abbrev RunsPair (c : Ctx β ω α) :
    Option (Bool × Ctx β ω α) → Option (Bool × Ctx β ω α) → Prop :=
  Sim S.total (fun r => S.Q c.core r.2.core) (fun r => S.w.good r.2.trace)
    fun r r' => r.1 = r'.1 ∧ Similar S.w r.2 r'.2

/-- Where the two translations start. -/
structure At (J : Core β → Prop) (c d : Ctx β ω α) : Prop where
  similar : Similar S.w c d
  core : J c.core

/-- What the walk depends on. -/
structure Ok : Prop where
  preserves : Preserves S.env S.Q
  kept : ∀ {k k'}, S.Q k k' → Kept k k'
  keptJ : ∀ {k k'}, Kept k k' → S.J k → S.J k'
  keptG : ∀ {k k'}, Kept k k' → S.G k → S.G k'
  enterPeer : ∀ {k b actionSet actsetOutput setDone}, S.J k → S.J { k with
    bridge := b, actionSet := actionSet, actsetOutput := actsetOutput, setDone := setDone }
  enterGroup : ∀ {k}, S.J k → k.recurse < maxResubmitRecursion + maxInternalResubmits →
    k.inGroup = false → S.G { k with inGroup := true }
  rule : ∀ {c d : Ctx β ω α} (rule : Rule) (tableId : ℕ) (wc : Wildcards), S.At S.J c d →
    xlateResubmitResourceCheck S.env c →
      S.Runs ({ c with tableId := tableId, wc := wc }.enterRule rule)
        (S.run rule.ofpacts ({ c with tableId := tableId, wc := wc }.enterRule rule))
        (S.run' rule.ofpacts ({ d with tableId := tableId, wc := wc }.enterRule rule))
  bucket : ∀ {c d : Ctx β ω α} (ofpacts : List Ofpact), S.At S.G c d →
    S.Runs c.enterBucket (S.run ofpacts c.enterBucket) (S.run' ofpacts d.enterBucket)

/-- The call for the action set of a bridge. -/
def SetRuns (c d : Ctx β ω α) : Prop :=
  S.Runs c.enterActionSet
    (S.run (ofpactsExecuteActionSet c.actionSet) c.enterActionSet)
    (S.run' (ofpactsExecuteActionSet c.actionSet) d.enterActionSet)

/-- The action set of a bridge behind a patch port is translated after at least one rule. -/
def SetOk : Prop :=
  ∀ c c' d' : Ctx β ω α, S.J c.core → Kept c.core c'.core → c.resubmits < c'.resubmits →
    Similar S.w c' d' → S.SetRuns c' d'

variable {S} {J : Core β → Prop} {c d c' d' : Ctx β ω α} {o o' : Option (Ctx β ω α)}

lemma At.refl (hJ : J c.core) : S.At J c c := ⟨.refl c, hJ⟩

/-! ## How runs are put together -/

/-- A run that starts after a step that leaves the core alone. -/
lemma start (hr : S.Runs c' o o') (hcore : c'.core = c.core) : S.Runs c o o' :=
  hr.mono fun _ h => hcore ▸ h

section

variable (h : S.Ok)

include h

/-- Steps that have been good in the end have been good before. -/
lemma Ok.good {k k' : Core β} (hk : S.Q k k') (hgood : S.w.good k'.trace) : S.w.good k.trace := by
  obtain ⟨t, ht⟩ := (h.kept hk).trace
  rw [← ht] at hgood
  exact S.w.good_of_append hgood

/-- A step that leaves the core alone. -/
lemma Ok.ret (hsim : Similar S.w c' d') (hcore : c'.core = c.core) :
    S.Runs c (some c') (some d') :=
  .ret (hcore ▸ h.preserves.refl _) fun _ => hsim

lemma Ok.stay (hc : Similar S.w c d) : S.Runs c (some c) (some d) := h.ret hc rfl

/-- A run that starts after a step. -/
lemma Ok.trans (hstep : S.Q c.core c'.core) (hr : S.Runs c' o o') : S.Runs c o o' :=
  hr.mono fun _ => h.preserves.trans hstep

omit h in
/-- A run that ends with a step that leaves the core alone. -/
lemma mapEq (hr : S.Runs c o o') {f f' : Ctx β ω α → Ctx β ω α}
    (hf : ∀ s t, Similar S.w s t → Similar S.w (f s) (f' t))
    (hcore : ∀ s, (f s).core = s.core) : S.Runs c (o.map f) (o'.map f') := by
  refine hr.map (fun s hs => (hcore s).symm ▸ hs) (fun s hgood => ?_) fun s t _ => hf s t
  have htrace : (f s).trace = s.trace := congrArg Core.trace (hcore s)
  exact htrace ▸ hgood

/-- Two runs in sequence simulate when the first pair does and the continuations do from every
pair of contexts it can end in. -/
lemma Ok.bind {V V' : Type} {P' good' : V → Prop} {R' : V → V' → Prop} (hr : S.Runs c o o')
    (hc : S.J c.core) {f : Ctx β ω α → Option V} {f' : Ctx β ω α → Option V'}
    (hf : ∀ s t, S.Q c.core s.core → S.At S.J s t →
      Sim S.total (fun u => P' u ∧ (good' u → S.w.good s.trace)) good' R' (f s) (f' t)) :
    Sim S.total P' good' R' (o.bind f) (o'.bind f') :=
  Sim.bind hr (fun s => ⟨s, .refl s⟩) fun s t hs hst => hf s t hs ⟨hst, h.keptJ (h.kept hs) hc⟩

/-- A run after another one. -/
lemma Ok.next {s : Ctx β ω α} (hs : S.Q c.core s.core) (hr : S.Runs s o o') :
    Sim S.total (fun u => S.Q c.core u.core ∧ (S.w.good u.trace → S.w.good s.trace))
      (fun u => S.w.good u.trace) (Similar S.w) o o' :=
  hr.mono fun _ hu => ⟨h.preserves.trans hs hu, h.good hu⟩

/-- The case of `Ok.bind` in which the continuation again ends in a context. -/
lemma Ok.andThen (hr : S.Runs c o o') (hc : S.J c.core) {f f' : Ctx β ω α → Option (Ctx β ω α)}
    (hf : ∀ s t, S.At S.J s t → S.Runs s (f s) (f' t)) : S.Runs c (o.bind f) (o'.bind f') :=
  h.bind hr hc fun s t hs hst => h.next hs (hf s t hst)

/-- A loop simulates when its body does from every pair of contexts that keeps the invariant. -/
lemma Ok.foldlM {B : Type} {l : List B} {f f' : Ctx β ω α → B → Option (Ctx β ω α)}
    (hc : S.At S.J c d) (hf : ∀ b ∈ l, ∀ s t, S.At S.J s t → S.Runs s (f s b) (f' t b)) :
    S.Runs c (l.foldlM f c) (l.foldlM f' d) := by
  induction l generalizing c d with
  | nil => exact h.stay hc.similar
  | cons b l ih =>
    rw [foldlM_cons, foldlM_cons]
    exact h.andThen (hf b mem_cons_self c d hc) hc.core fun s t hst =>
      ih hst fun b' hb' => hf b' (mem_cons_of_mem b hb')

/-- A table lookup finds the same rule on both sides, and its actions are run one level deeper. -/
lemma xlateTableAction_runs (hc : S.At S.J c d) (inPort : BitVec 16) (tableId : ℕ)
    (mayPacketIn honorTableMiss : Bool) :
    S.Runs c (xlateTableAction S.env S.run inPort tableId mayPacketIn honorTableMiss c)
      (xlateTableAction S.env S.run' inPort tableId mayPacketIn honorTableMiss d) := by
  have hrule := fun rule tableId wc => h.rule rule tableId wc hc
  obtain ⟨⟨t, g, b, hw⟩, hJ⟩ := hc
  unfold xlateTableAction
  change S.Runs c _ (if xlateResubmitResourceCheck S.env c then _ else _)
  split
  case isFalse => exact h.ret (.mk t g b hw) rfl
  case isTrue hcheck =>
    dsimp only [withFlags] at hrule ⊢
    cases (S.env.lookup c.world c.bridge c.flow c.wc tableId inPort mayPacketIn
      honorTableMiss).rule with
    | none => exact h.ret (.mk t g b hw) rfl
    | some rule =>
      simp only [xlateRecursively, Option.map_map]
      refine Sim.map (hrule rule _ _ hcheck) (fun s hs => ?_) (fun _ hgood => hgood) ?_
      · simp only [xlateResubmitResourceCheck, decide_eq_true_eq] at hcheck
        exact h.preserves.rule (k := c.core) rule _ hcheck.1 hcheck.2.1 hs
      · rintro s _ - ⟨t, g, b, hw⟩
        exact .mk t g b hw

/-- Running the action set, when there is one, needs the simulation for that list alone. -/
lemma xlateActionSetIfAny_runs (hc : Similar S.w c d) (hset : c.actionSet ≠ [] → S.SetRuns c d) :
    S.Runs c (xlateActionSetIfAny S.run c) (xlateActionSetIfAny S.run' d) := by
  have hstay := h.stay hc
  obtain ⟨t, g, b, hw⟩ := hc
  unfold xlateActionSetIfAny
  rw [withFlags_actionSet]
  split
  case isTrue => exact hstay
  case isFalse hne =>
    refine Sim.map (hset (mt isEmpty_iff.mpr hne)) (fun s hs => ?_) (fun _ hgood => hgood) ?_
    · exact h.preserves.actionSet hs
    · rintro s _ - ⟨t, g, b, hw⟩
      exact .mk t g false ⟨hw.hasGroup, fun _ => rfl, hw.trace⟩

/-- If a table action has written into the action set, then a rule has been translated. -/
lemma resubmits_lt_of_xlateTableAction (hc : S.At S.J c d) {inPort : BitVec 16} {tableId : ℕ}
    {mayPacketIn honorTableMiss : Bool} (hempty : c.actionSet = [])
    (hrun : xlateTableAction S.env S.run inPort tableId mayPacketIn honorTableMiss c = some c')
    (hne : c'.actionSet ≠ []) : c.resubmits < c'.resubmits := by
  unfold xlateTableAction at hrun
  split at hrun
  case isFalse =>
    obtain rfl := Option.some.inj hrun
    exact absurd hempty hne
  case isTrue hcheck =>
    dsimp only at hrun
    split at hrun
    · obtain rfl := Option.some.inj hrun
      exact absurd hempty hne
    · obtain ⟨c1, hc1, rfl⟩ := Option.map_eq_some_iff.mp hrun
      obtain ⟨c2, hc2, rfl⟩ := Option.map_eq_some_iff.mp hc1
      exact (h.kept ((h.rule _ _ _ hc hcheck).holds c2 hc2)).resubmits_le

/-! ## Outputs -/

/-- A packet that enters the peer bridge goes through its tables and then its own action set. -/
lemma forwardToPeer_runs (hset : S.SetOk) (hc : S.At S.J c d) (hempty : c.actionSet = [])
    (tableId : ℕ) : S.Runs c (forwardToPeer S.env S.run tableId c)
      (forwardToPeer S.env S.run' tableId d) := by
  have hin : d.inPort = c.inPort := by
    obtain ⟨⟨t, g, b, hw⟩, -⟩ := hc
    rfl
  have htable := xlateTableAction_runs h hc c.inPort tableId true true
  unfold forwardToPeer
  rw [hin]
  refine Sim.bind (P := fun s => S.Q c.core s.core ∧ (s.actionSet ≠ [] → c.resubmits < s.resubmits))
    ⟨fun s hs => ⟨htable.holds s hs, resubmits_lt_of_xlateTableAction h hc hempty hs⟩,
      htable.follow, htable.isSome⟩ (fun s => ⟨s, .refl s⟩) fun s t hs hst => h.next hs.1 ?_
  exact xlateActionSetIfAny_runs h hst fun hne =>
    hset c s t hc.core (h.kept hs.1) (hs.2 hne) hst

/-- When the peer does not forward, its tables are still consulted and the output is discarded. -/
lemma learnAtPeer_runs (hc : S.At S.J c d) (tableId : ℕ) :
    S.Runs c (learnAtPeer S.env S.run tableId c) (learnAtPeer S.env S.run' tableId d) := by
  have htable := xlateTableAction_runs h hc c.inPort tableId true true
  obtain ⟨⟨t, g, b, hw⟩, -⟩ := hc
  refine htable.map (fun s hs => h.preserves.learnOnly hs) (fun _ hgood => hgood) ?_
  rintro s _ - ⟨t, g, b, hw⟩
  exact .mk t g b hw

/-- What is true behind a patch port is true in front of it. -/
lemma crossPatchPort_runs (hset : S.SetOk) (hc : S.At S.J c d) {port peerPort : BitVec 16}
    {bridge : β} (hpeer : (S.env.portConfig c.bridge port).peer = some (bridge, peerPort)) :
    S.Runs c (crossPatchPort S.env S.run bridge peerPort c)
      (crossPatchPort S.env S.run' bridge peerPort d) := by
  have hleave : ∀ s, S.Q (c.enterPeer bridge peerPort).core s.core →
      S.Q c.core (c.leavePeer s).core := fun s hs => h.preserves.peer (k := c.core) hpeer hs
  obtain ⟨⟨t, g, b, hw⟩, hJ⟩ := hc
  have hback : ∀ s t', Similar S.w s t' →
      Similar S.w (c.leavePeer s) ((c.withFlags t g b).leavePeer t') := by
    rintro s _ ⟨t, g, b, hw⟩
    exact .mk t g b hw
  unfold crossPatchPort
  dsimp only [withFlags, enterPeer]
  cases (S.env.xbridge bridge).xports peerPort with
  | none =>
    refine .ret ?_ fun _ => hback _ _ ?_
    · exact hleave _ (h.preserves.refl _)
    · exact .mk t g b hw
  | some peer =>
    dsimp only
    split
    · refine .ret ?_ fun _ => hback _ _ ?_
      · exact hleave _ (h.preserves.refl _)
      · exact .mk t g b hw
    split
    · refine Sim.map (forwardToPeer_runs h hset ?_ rfl _) (fun s hs => hleave s hs)
        (fun _ hgood => hgood) fun s t _ => hback s t
      exact ⟨.mk t g b hw, h.enterPeer hJ⟩
    · refine Sim.map (learnAtPeer_runs h ?_ _) (fun s hs => hleave s hs) (fun _ hgood => hgood)
        fun s t _ => hback s t
      exact ⟨.mk t g b hw, h.enterPeer hJ⟩

/-- An output to a port that is not a patch port makes no calls. -/
lemma composeOutputAction_runs (hset : S.SetOk) (hc : S.At S.J c d) (port : BitVec 16)
    (checkStp : Bool) : S.Runs c (composeOutputAction S.env S.run checkStp port c)
      (composeOutputAction S.env S.run' checkStp port d) := by
  have hstay := h.stay hc.similar
  have hmirrors := addMirrors_similar S.env hc.similar
  obtain ⟨⟨t, g, b, hw⟩, hJ⟩ := hc
  simp only [composeOutputAction, withFlags_bridge, withFlags_baseFlow]
  cases hxport : (S.env.xbridge c.bridge).xports port with
  | none => exact hstay
  | some xport =>
    dsimp only
    split
    · exact hstay
    cases hpeer : (S.env.portConfig c.bridge port).peer with
    | none =>
      exact .ret (h.preserves.egress hxport) fun _ =>
        egress_similar S.env (hmirrors xport) port xport
    | some peer =>
      have hpatch := h.preserves.patch hxport
      have hbridge : ((c.addMirrors S.env xport).record xport).bridge = c.bridge := by rw [patch_eq]
      exact h.trans hpatch (crossPatchPort_runs h hset ⟨record_similar (hmirrors xport) xport,
        h.keptJ (h.kept hpatch) hJ⟩ (hbridge ▸ hpeer))

/-! ## Groups -/

/-- The actions of a bucket are an action set of their own, run on a copy of the flow. -/
lemma xlateGroupBucket_runs (hc : S.At S.G c d) (bucket : Bucket (List Ofpact)) :
    S.Runs c (xlateGroupBucket S.run bucket c) (xlateGroupBucket S.run' bucket d) := by
  refine Sim.map (h.bucket _ hc) (fun s hs => h.preserves.bucket (k := c.core) hs)
    (fun _ hgood => hgood) ?_
  rintro s _ - ⟨t, g, b, hw⟩
  obtain ⟨⟨t', g', b', hw'⟩, -⟩ := hc
  exact .mk t g b hw

/-- The buckets of a group of type *all* are translated one after the other, with the same flow. -/
lemma xlateAllGroup_runs (hc : S.At S.G c d) (hin : c.inGroup = true)
    (buckets : List (Bucket (List Ofpact))) :
    S.Runs c (xlateAllGroup S.run buckets c) (xlateAllGroup S.run' buckets d) := by
  have hflow : d.flow = c.flow := by
    obtain ⟨⟨t, g, b, hw⟩, -⟩ := hc
    rfl
  have hloop : ∀ (f : Flow) (c d : Ctx β ω α), S.At S.G c d → c.inGroup = true → c.flow = f →
      S.Runs c
        (buckets.foldlM (fun ctx' bucket =>
          (xlateGroupBucket S.run bucket ctx').map fun c => { c with flow := f }) c)
        (buckets.foldlM (fun ctx' bucket =>
          (xlateGroupBucket S.run' bucket ctx').map fun c => { c with flow := f }) d) := by
    intro f
    induction buckets with
    | nil => exact fun c d hc _ _ => h.stay hc.similar
    | cons bucket buckets ih =>
      intro c d hc hin hf
      rw [foldlM_cons, foldlM_cons]
      have hbucket : Sim S.total (fun s => S.Q c.core s.core ∧ s.flow = f)
          (fun s => S.w.good s.trace) (Similar S.w)
          ((xlateGroupBucket S.run bucket c).map fun c => { c with flow := f })
          ((xlateGroupBucket S.run' bucket d).map fun c => { c with flow := f }) := by
        refine (xlateGroupBucket_runs h hc bucket).map (fun s hs => ⟨?_, rfl⟩)
          (fun _ hgood => hgood) ?_
        · subst hf
          exact h.preserves.restoreFlow hin hs
        · rintro s _ - ⟨t, g, b, hw⟩
          exact .mk t g b hw
      refine Sim.bind hbucket (fun s => ⟨s, .refl s⟩) fun s t hs hst => h.next hs.1 ?_
      have hkept := h.kept hs.1
      exact ih s t ⟨hst, h.keptG hkept hc.core⟩ (hkept.inGroup.trans hin) hs.2
  unfold xlateAllGroup
  rw [hflow]
  exact hloop c.flow c d hc hin rfl

/-- The first live bucket is the same on both sides, since liveness is asked of the environment.
-/
lemma xlateOneBucket_runs (hc : S.At S.G c d) (group : Group) :
    S.Runs c (xlateOneBucket S.env S.run group c) (xlateOneBucket S.env S.run' group d) := by
  obtain ⟨⟨t, g, b, hw⟩, hG⟩ := hc
  have hchoose : chooseBucket S.env group (c.withFlags t g b) = chooseBucket S.env group c := rfl
  unfold xlateOneBucket
  rw [hchoose]
  dsimp only
  cases (chooseBucket S.env group c).1 with
  | none => exact h.ret (.mk t g b hw) rfl
  | some bucket =>
    have hc : S.At S.G { c with wc := (chooseBucket S.env group c).2 }
        { c.withFlags t g b with wc := (chooseBucket S.env group c).2 } :=
      ⟨.mk t g b hw, hG⟩
    exact start (xlateGroupBucket_runs h hc bucket) rfl

/-- Each of the four group types runs buckets, all of them, one selected or the first that is
live. -/
lemma xlateGroup_runs (hc : S.At S.G c d) (hin : c.inGroup = true) (group : Group) :
    S.Runs c (xlateGroup S.env S.run group c) (xlateGroup S.env S.run' group d) := by
  unfold xlateGroup
  split
  · exact xlateAllGroup_runs h hc hin _
  · exact xlateAllGroup_runs h hc hin _
  · exact xlateOneBucket_runs h hc group
  · exact xlateOneBucket_runs h hc group

/-- A group action either finds its group and runs it or ends the list of actions on both sides.
-/
lemma xlateGroupAction_runs (hc : S.At S.J c d) (groupId : BitVec 32) :
    S.RunsPair c (xlateGroupAction S.env S.run groupId c)
      (xlateGroupAction S.env S.run' groupId d) := by
  have hstay : ∀ r : Bool, S.RunsPair c (some (r, c)) (some (r, d)) :=
    fun r => .ret (h.preserves.refl _) fun _ => ⟨rfl, hc.similar⟩
  obtain ⟨⟨t, g, b, hw⟩, hJ⟩ := hc
  unfold xlateGroupAction
  change S.RunsPair c _ (if xlateResubmitResourceCheck S.env c && !c.inGroup then _ else _)
  split
  case isFalse => exact hstay false
  case isTrue hcheck =>
    rw [withFlags_world, withFlags_bridge]
    cases S.env.group c.world c.bridge groupId with
    | none => exact hstay true
    | some group =>
      obtain ⟨hresources, hin⟩ := Bool.and_eq_true_iff.mp hcheck
      have hin : c.inGroup = false := by simpa using hin
      simp only [xlateResubmitResourceCheck, decide_eq_true_eq] at hresources
      have hc : S.At S.G { c with inGroup := true } { c.withFlags t g b with inGroup := true } :=
        ⟨.mk t g b hw, h.enterGroup hJ hresources.1 hin⟩
      refine Sim.map (xlateGroup_runs h hc rfl group)
        (fun s hs => h.preserves.group (k := c.core) hin hs) (fun _ hgood => hgood) ?_
      rintro s _ - ⟨t, g, b, hw⟩
      exact ⟨rfl, .mk t g b hw⟩

/-! ## Output actions -/

section

variable (hset : S.SetOk)

include hset

section

variable (hc : S.At S.J c d)
include hc

omit h hset in
/-- Setting a field other than `actset_output` to one value on both sides keeps the two contexts
related. -/
lemma At.setFlow (field : FlowField) (hfield : field ≠ .actsetOutput) (v : BitVec field.bits) :
    S.At S.J { c with flow := Function.update c.flow field v }
      { d with flow := Function.update d.flow field v } ∧
    ({ c with flow := Function.update c.flow field v } : Ctx β ω α).core = c.core := by
  have hcore : ({ c with flow := Function.update c.flow field v } : Ctx β ω α).core = c.core := by
    simp [Ctx.core, Function.update_of_ne hfield.symm]
  obtain ⟨⟨t, g, b, hw⟩, hJ⟩ := hc
  exact ⟨⟨.mk t g b hw, hcore.symm ▸ hJ⟩, hcore⟩

/-- Flooding is a loop over the ports of the bridge, one output for each port but the input. -/
lemma floodPackets_runs (all : Bool) :
    S.Runs c (floodPackets S.env S.run all c) (floodPackets S.env S.run' all d) := by
  have hbridge : d.bridge = c.bridge := by
    obtain ⟨⟨t, g, b, hw⟩, -⟩ := hc
    rfl
  unfold floodPackets
  rw [hbridge]
  refine h.foldlM hc fun port _ s t hst => ?_
  have hsend := composeOutputAction_runs h hset hst port
  have hstay := h.stay hst.similar
  obtain ⟨⟨t, g, b, hw⟩, -⟩ := hst
  have hport : (s.withFlags t g b).inPort = s.inPort := rfl
  simp only [floodPacket, hport, withFlags_bridge]
  split_ifs
  exacts [hstay, hsend false, hstay, hsend true]

/-- The choice of a slave leaves the core alone. -/
lemma outputNormalAction_runs (vlan : ℕ) (b : XBundle) :
    S.Runs c (outputNormalAction S.env S.run vlan c b)
      (outputNormalAction S.env S.run' vlan d b) := by
  have hchoose : S.At S.J (c.chooseSlave S.env b (outputVlanToVid b vlan)).2
        (d.chooseSlave S.env b (outputVlanToVid b vlan)).2 ∧
      (c.chooseSlave S.env b (outputVlanToVid b vlan)).2.core = c.core ∧
      (d.chooseSlave S.env b (outputVlanToVid b vlan)).1 =
        (c.chooseSlave S.env b (outputVlanToVid b vlan)).1 ∧ d.flow = c.flow := by
    obtain ⟨⟨t, g, b, hw⟩, hJ⟩ := hc
    unfold chooseSlave
    split
    · exact ⟨⟨.mk t g b hw, hJ⟩, rfl, rfl, rfl⟩
    split
    · exact ⟨⟨.mk t g b hw, hJ⟩, rfl, rfl, rfl⟩
    · exact ⟨⟨.mk t g b hw, hJ⟩, rfl, rfl, rfl⟩
  obtain ⟨hc', hcore, hport, hflow⟩ := hchoose
  unfold outputNormalAction
  dsimp only
  rw [hport, hflow]
  generalize c.chooseSlave S.env b (outputVlanToVid b vlan) = r at *
  generalize (d.chooseSlave S.env b (outputVlanToVid b vlan)).2 = r' at *
  cases r.1 with
  | none => exact h.ret hc'.similar hcore
  | some port =>
    obtain ⟨hc'', hcore'⟩ := hc'.setFlow .vlanTci nofun
      (outputTci b vlan (c.flow .vlanTci))
    refine mapEq (start (composeOutputAction_runs h hset hc'' port true) (hcore'.trans hcore))
      ?_ fun s => by simp [core]
    rintro s _ ⟨t, g, b, hw⟩
    exact .mk t g b hw

/-- An output inside a bundle skips the port the packet came from, on both sides alike. -/
lemma outputIfFrom_runs (inPort port : BitVec 16) :
    S.Runs c (outputIfFrom S.env S.run inPort port c)
      (outputIfFrom S.env S.run' inPort port d) := by
  have hsend := composeOutputAction_runs h hset hc port true
  have hstay := h.stay hc.similar
  obtain ⟨⟨t, g, b, hw⟩, -⟩ := hc
  have hport : (c.withFlags t g b).inPort = c.inPort := rfl
  unfold outputIfFrom
  rw [hport]
  split
  exacts [hsend, hstay]

lemma outputAcross_runs : S.Runs c (outputAcross S.env S.run c) (outputAcross S.env S.run' d) :=
  h.andThen (outputIfFrom_runs h hset hc 1 2) hc.core fun _ _ hc =>
    outputIfFrom_runs h hset hc 2 1

/-- A query sent with a source address of its own is an output between two writes of the flow. -/
lemma rewriteAndOutput_runs (inPort port : BitVec 16) (nwSrc : BitVec 32) :
    S.Runs c (rewriteAndOutput S.env S.run inPort port nwSrc c)
      (rewriteAndOutput S.env S.run' inPort port nwSrc d) := by
  have hstay := h.stay hc.similar
  obtain ⟨hc', hcore⟩ := hc.setFlow .nwSrc nofun nwSrc
  have hsend := start (composeOutputAction_runs h hset hc' port true) hcore
  obtain ⟨⟨t, g, b, hw⟩, -⟩ := hc
  have hport : (c.withFlags t g b).inPort = c.inPort := rfl
  simp only [rewriteAndOutput, hport, withFlags_flow]
  split
  exacts [hsend, hstay]

/-- The normal action is a list of outputs computed from the flow, the tables and the environment.
-/
lemma xlateNormalAction_runs :
    S.Runs c (xlateNormalAction S.env S.run c) (xlateNormalAction S.env S.run' d) := by
  obtain ⟨⟨t, g, b, hw⟩, hJ⟩ := hc
  unfold xlateNormalAction
  dsimp only [withFlags]
  refine start (h.foldlM ?_ fun b _ s t hst => outputNormalAction_runs h hset hst _ b) rfl
  exact ⟨.mk t g b hw, hJ⟩

omit hset in
/-- Only an output to the controller depends on `in_action_set`, and not in a group. -/
lemma outputToController_runs (maxLen : BitVec 16) :
    S.Runs c
      (some (executeControllerAction S.env maxLen c.outputReason 0 (c.push .controller)))
      (some (executeControllerAction S.env maxLen d.outputReason 0 (d.push .controller))) := by
  have hcore := executeControllerAction_core S.env maxLen c.outputReason 0 (c.push .controller)
  refine .ret ?_ fun hgood => ?_
  · rw [hcore]
    exact h.preserves.push c .controller trivial rfl
  · have htrace : (executeControllerAction S.env maxLen c.outputReason 0
        (c.push .controller)).trace = c.trace ++ [.controller c.snapshot] :=
      congrArg Core.trace hcore
    have hreason : d.outputReason = c.outputReason := by
      rw [htrace] at hgood
      obtain ⟨⟨t, g, b, hw⟩, -⟩ := hc
      unfold outputReason
      rcases S.w.told hgood with hin | hsame
      · have hin : c.inGroup = true := hin
        simp [hin]
      · rw [withFlags_inActionSet, hw.inActionSet hsame]
        rfl
    rw [hreason]
    exact executeControllerAction_similar S.env
      (push_similar hc.similar (fun _ => rfl) fun _ => rfl) maxLen c.outputReason 0

/-- Every reserved port of an output action is simulated, and so is an output to a port number. -/
lemma xlateOutputAction_runs (port maxLen : BitVec 16) (mayPacketIn : Bool) :
    S.Runs c (xlateOutputAction S.env S.run port maxLen mayPacketIn c)
      (xlateOutputAction S.env S.run' port maxLen mayPacketIn d) := by
  have hsend := fun port => composeOutputAction_runs h hset hc port true
  have hstay := h.stay hc.similar
  have hin : d.inPort = c.inPort := by
    obtain ⟨⟨t, g, b, hw⟩, -⟩ := hc
    rfl
  unfold xlateOutputAction
  rw [hin]
  split
  · exact hsend _
  · exact xlateTableAction_runs h hc _ _ _ _
  · exact xlateNormalAction_runs h hset hc
  · exact floodPackets_runs h hset hc _
  · exact floodPackets_runs h hset hc _
  · exact outputToController_runs h hc maxLen
  · exact outputAcross_runs h hset hc
  · exact h.andThen (rewriteAndOutput_runs h hset hc 1 2 _) hc.core fun _ _ hc =>
      rewriteAndOutput_runs h hset hc 2 1 _
  · obtain ⟨⟨t, g, b, hw⟩, hJ⟩ := hc
    refine start (outputAcross_runs h hset ?_) rfl
    exact ⟨.mk t g b hw, hJ⟩
  · split
    exacts [outputAcross_runs h hset hc, hstay]
  · split
    exacts [hstay, hsend _]

/-- Enqueue sets the priority for one output and restores it afterwards. -/
lemma xlateEnqueueAction_runs (port : BitVec 16) (queue : BitVec 32) :
    S.Runs c (xlateEnqueueAction S.env S.run port queue c)
      (xlateEnqueueAction S.env S.run' port queue d) := by
  have houtput := xlateOutputAction_runs h hset hc port 0 false
  have hstay := h.stay hc.similar
  have hsend : ∀ port priority, S.Runs c _ _ := fun port priority =>
    let hc' := hc.setFlow .skbPriority nofun priority
    start (composeOutputAction_runs h hset hc'.1 port true) hc'.2
  obtain ⟨⟨t, g, b, hw⟩, -⟩ := hc
  have hport : (c.withFlags t g b).inPort = c.inPort := rfl
  simp only [xlateEnqueueAction, hport, withFlags_bridge]
  split
  · exact houtput
  split
  · exact hstay
  · refine mapEq (hsend _ _) ?_ fun s => by simp [core]
    rintro s _ ⟨t, g, b, hw⟩
    exact .mk t g b hw

end

end

/-! ## Lists of actions -/

omit h in
lemma runsPair (hr : S.Runs c o o') : S.RunsPair c (o.map (false, ·)) (o'.map (false, ·)) :=
  hr.map (fun _ hs => hs) (fun _ hgood => hgood) fun _ _ _ hst => ⟨rfl, hst⟩

/-- An action that starts no translation of its own returns, so it only has to keep contexts
similar. -/
lemma xlateLocalAction_runs (hc : S.At S.J c d) (a : Ofpact) :
    S.RunsPair c (some (xlateLocalAction S.env a (c.push (.action a))))
      (some (xlateLocalAction S.env a (d.push (.action a)))) := by
  refine .ret (h.preserves.localAction a c) fun hgood =>
    xlateLocalAction_similar S.env hc.similar ?_
  obtain ⟨t, ht⟩ := (xlateLocalAction_cases S.env a (c.push (.action a))).kept.trace
  rw [show (xlateLocalAction S.env a (c.push (.action a))).2.trace = _ from ht.symm] at hgood
  exact S.w.good_of_append hgood

/-- An action that translates others is first recorded. -/
lemma pushed_runs (hc : S.At S.J c d) (ha : a.Neutral)
    (hf : ∀ s t, S.At S.J s t →
      S.RunsPair s (xlateOfpact S.env S.run a s) (xlateOfpact S.env S.run' a t)) :
    S.RunsPair c (xlateOfpact S.env S.run a (c.push (.action a)))
      (xlateOfpact S.env S.run' a (d.push (.action a))) := by
  have hstep : S.Q c.core (c.push (.action a)).core := h.preserves.push c (.action a) ha rfl
  have hpush : Similar S.w (c.push (.action a)) (d.push (.action a)) := by
    refine push_similar hc.similar (fun _ => ?_) fun _ => rfl
    cases a with
    | clearActions => exact ha.elim
    | _ => rfl
  exact (hf _ _ ⟨hpush, h.keptJ (h.kept hstep) hc.core⟩).mono fun _ => h.preserves.trans hstep

/-- One action of a list, whichever of the cases of `do_xlate_actions` it is. -/
lemma xlateOfpact_runs (hset : S.SetOk) (hc : S.At S.J c d) (a : Ofpact) :
    S.RunsPair c (xlateOfpact S.env S.run a (c.push (.action a)))
      (xlateOfpact S.env S.run' a (d.push (.action a))) := by
  have hlocal := xlateLocalAction_runs h hc a
  cases a with
  | output port maxLen =>
    exact pushed_runs h hc trivial fun s t hst =>
      runsPair (xlateOutputAction_runs h hset hst port maxLen true)
  | group groupId =>
    exact pushed_runs h hc trivial fun s t hst => xlateGroupAction_runs h hst groupId
  | enqueue port queue =>
    refine pushed_runs h hc trivial fun s t hst => runsPair ?_
    obtain ⟨⟨t, g, b, hw⟩, hJ⟩ := hst
    refine start (xlateEnqueueAction_runs h hset ?_ port queue) rfl
    exact ⟨.mk t g b hw, hJ⟩
  | outputReg src mask maxLen =>
    refine pushed_runs h hc trivial fun s t hst => runsPair ?_
    have hstay := h.stay hst.similar
    obtain ⟨⟨t, g, b, hw⟩, hJ⟩ := hst
    simp only [xlateOutputRegAction, withFlags_flow]
    split
    · refine start (xlateOutputAction_runs h hset ?_ _ _ _) rfl
      exact ⟨.mk t g b hw, hJ⟩
    · exact hstay
  | bundle execute dst =>
    refine pushed_runs h hc trivial fun s t hst => runsPair ?_
    obtain ⟨⟨t, g, b, hw⟩, hJ⟩ := hst
    unfold xlateBundleAction
    split
    · rename_i load
      refine h.ret (.mk t g b hw) ?_
      simp [core, (load _).readOnly]
    · refine start (xlateOutputAction_runs h hset ?_ _ _ _) rfl
      exact ⟨.mk t g b hw, hJ⟩
  | resubmit inPort tableId =>
    refine pushed_runs h hc trivial fun s t hst => runsPair ?_
    have htable := xlateTableAction_runs h hst
    obtain ⟨⟨t, g, b, hw⟩, -⟩ := hst
    exact htable _ _ _ _
  | gotoTable tableId =>
    refine pushed_runs h hc trivial fun s t hst => runsPair ?_
    have htable := xlateTableAction_runs h hst
    obtain ⟨⟨t, g, b, hw⟩, -⟩ := hst
    exact htable _ _ _ _
  | _ => exact hlocal

/-- A list of actions is translated if each of them is. -/
lemma xlateOfpacts_runs (hset : S.SetOk) (ofpacts : List Ofpact) (hc : S.At S.J c d) :
    S.Runs c (xlateOfpacts S.env S.run ofpacts c) (xlateOfpacts S.env S.run' ofpacts d) := by
  induction ofpacts generalizing c d with
  | nil => exact h.stay hc.similar
  | cons a ofpacts ih =>
    have hstay := h.stay hc.similar
    have hexit : d.exit = c.exit := by
      obtain ⟨⟨t, g, b, hw⟩, -⟩ := hc
      rfl
    have hneeds : needsRecirculationAfterMpls a d = needsRecirculationAfterMpls a c := by
      obtain ⟨⟨t, g, b, hw⟩, -⟩ := hc
      rfl
    rw [xlateOfpacts, xlateOfpacts, hexit, hneeds]
    split
    · exact hstay
    split
    · refine h.ret (composeRecirculateAction_similar S.env hc.similar (a :: ofpacts)) ?_
      unfold composeRecirculateAction
      dsimp only
      split <;> rfl
    · refine Sim.bind (xlateOfpact_runs h hset hc a) (fun r => ⟨r, rfl, .refl r.2⟩) ?_
      rintro r r' hr ⟨hfst, hsim⟩
      rw [← hfst]
      refine h.next hr ?_
      split
      · exact h.stay hsim
      · exact ih ⟨hsim, h.keptJ (h.kept hr) hc.core⟩

/-- The copies for mirrors. -/
lemma outputCopies_runs (hset : S.SetOk) (hc : S.At S.J c d) (copies : List (XBundle × ℕ)) :
    S.Runs c (outputCopies S.env S.run copies c) (outputCopies S.env S.run' copies d) :=
  h.foldlM hc fun copy _ _ _ hst => outputNormalAction_runs h hset hst copy.2 copy.1

end

end Setup

/-! ## Translations with limits -/

/-- A relation that every step preserves, and that says at least what is put back. -/
structure Respects (env : Env β ω α) (Q : Core β → Core β → Prop) : Prop where
  preserves : Preserves env Q
  kept : ∀ {k k'}, Q k k' → Kept k k'

/-- What every step of the translation keeps is kept by all of it. -/
lemma respects_kept (env : Env β ω α) : Respects env Kept := ⟨kept_preserves env, id⟩

/-- Every relation that is preserved can be had together with what is put back. -/
lemma Preserves.respects {env : Env β ω α} {Q : Core β → Core β → Prop} (h : Preserves env Q) :
    Respects env fun k k' => Kept k k' ∧ Q k k' :=
  ⟨(kept_preserves env).and h, And.left⟩

/-- The calls that a translation with the limit `n` makes return: those for rules while `J` holds of
the core, and those for buckets while `G` holds. -/
structure Returns (env : Env β ω α) (total : Prop) (J G : Core β → Prop) (n : ℕ) : Prop where
  keptJ : ∀ {k k'}, Kept k k' → J k → J k'
  keptG : ∀ {k k'}, Kept k k' → G k → G k'
  enterPeer : ∀ {k b actionSet actsetOutput setDone}, J k → J { k with
    bridge := b, actionSet := actionSet, actsetOutput := actsetOutput, setDone := setDone }
  enterGroup : ∀ {k}, J k → k.recurse < maxResubmitRecursion + maxInternalResubmits →
    k.inGroup = false → G { k with inGroup := true }
  rule : ∀ {c : Ctx β ω α} {rule : Rule} (tableId : ℕ) (wc : Wildcards), total → J c.core →
    xlateResubmitResourceCheck env c →
      (doXlateActions env n rule.ofpacts
        ({ c with tableId := tableId, wc := wc }.enterRule rule)).isSome
  bucket : ∀ {c : Ctx β ω α} {ofpacts : List Ofpact}, total → G c.core →
    (doXlateActions env n ofpacts c.enterBucket).isSome

/-- Two translations with limits `n` and `m`. -/
def Setup.limits (env : Env β ω α) (Q : Core β → Core β → Prop) (w : Leeway β) (total : Prop)
    (J G : Core β → Prop) (n m : ℕ) : Setup β ω α where
  env := env
  Q := Q
  w := w
  total := total
  J := J
  G := G
  run := doXlateActions env n
  run' := doXlateActions env m

/-- Two translations of which nothing is said about returning. -/
abbrev Setup.free (env : Env β ω α) (Q : Core β → Core β → Prop) (w : Leeway β) (n m : ℕ) :
    Setup β ω α :=
  .limits env Q w False (fun _ => True) (fun _ => True) n m

section Limits

variable {env : Env β ω α} {Q : Core β → Core β → Prop} {w : Leeway β} {total : Prop}
  {J G : Core β → Prop} {n m : ℕ}

/-- The calls of `do_xlate_actions()` with one limit follow those with the other one. -/
def Follows (env : Env β ω α) (Q : Core β → Core β → Prop) (w : Leeway β) (n m : ℕ) : Prop :=
  ∀ {ofpacts : List Ofpact} {c d : Ctx β ω α}, Similar w c d → (Setup.free env Q w n m).Runs c
    (doXlateActions env n ofpacts c) (doXlateActions env m ofpacts d)

/-- Without a promise that the translation returns there is nothing to check about its limits. -/
lemma returns_free (env : Env β ω α) (n : ℕ) :
    Returns env False (fun _ => True) (fun _ => True) n :=
  ⟨fun _ _ => trivial, fun _ _ => trivial, fun _ => trivial, fun _ _ _ => trivial,
    fun _ _ => False.elim, False.elim⟩

/-- A run with a limit that returns. -/
lemma Follows.runs (hfollows : Follows env Q w n m) {ofpacts : List Ofpact} (hsim : Similar w c d)
    (hreturns : total → (doXlateActions env n ofpacts c).isSome) :
    (Setup.limits env Q w total J G n m).Runs c (doXlateActions env n ofpacts c)
      (doXlateActions env m ofpacts d) :=
  ⟨(hfollows hsim).holds, (hfollows hsim).follow, hreturns⟩

/-- Limits under which the translation returns, with an invariant of its steps, make a sound
setup. -/
lemma Returns.ok (hreturns : Returns env total J G n) (h : Respects env Q)
    (hfollows : Follows env Q w n m) : (Setup.limits env Q w total J G n m).Ok :=
  { h with
    keptJ := hreturns.keptJ
    keptG := hreturns.keptG
    enterPeer := hreturns.enterPeer
    enterGroup := hreturns.enterGroup
    rule {c d} rule tableId wc hc hcheck := by
      obtain ⟨⟨t, g, b, hw⟩, hJ⟩ := hc
      refine hfollows.runs ?_ fun htotal => hreturns.rule tableId wc htotal hJ hcheck
      exact .mk t g b hw
    bucket {c d} ofpacts hc := by
      obtain ⟨⟨t, g, b, hw⟩, hG⟩ := hc
      refine hfollows.runs ?_ fun htotal => hreturns.bucket htotal hG
      exact .mk t g b hw }

/-- Taking the action set out to run it forgets the only thing in which contexts may differ. -/
lemma enterActionSet_similar (hsim : Similar w c d) :
    Similar w c.enterActionSet d.enterActionSet := by
  obtain ⟨t, g, b, hw⟩ := hsim
  refine .mk _ g true ⟨fun hg => hw.hasGroup ?_, fun _ => rfl, fun hsame => ?_⟩
  · exact (w.hasGroup_push hg).resolve_right (by simp [Step.isClear])
  · change t ++ [_] = c.trace ++ [_]
    rw [hw.snapshot hsame, hw.trace hsame]

/-- The action set is one more list of actions, so the simulation one level down covers it. -/
lemma Follows.setRuns (hfollows : Follows env Q w n m) (hsim : Similar w c d)
    (hreturns : total → (doXlateActions env n (ofpactsExecuteActionSet c.actionSet)
      c.enterActionSet).isSome) : (Setup.limits env Q w total J G n m).SetRuns c d :=
  hfollows.runs (enterActionSet_similar hsim) hreturns

lemma Follows.setOk (hfollows : Follows env Q w n m) : (Setup.free env Q w n m).SetOk :=
  fun _ _ _ _ _ _ hsim => hfollows.setRuns hsim False.elim

/-- **The translation with the larger limit follows the other one.** -/
theorem doXlateActions_follows (h : Respects env Q) (hnm : n ≤ m) : Follows env Q w n m := by
  induction n generalizing m with
  | zero => exact fun _ => ⟨nofun, nofun, False.elim⟩
  | succ n ih =>
    obtain ⟨m, rfl⟩ : ∃ k, m = k + 1 := ⟨m - 1, by omega⟩
    intro ofpacts c d hsim
    have hfollows : Follows env Q w n m := ih (by omega)
    exact Setup.xlateOfpacts_runs ((returns_free env n).ok h hfollows) hfollows.setOk ofpacts
      ⟨hsim, trivial⟩

/-- The relation holds between the contexts before and after a list of actions. -/
lemma Respects.doXlateActions (h : Respects env Q) {ofpacts : List Ofpact} {c' : Ctx β ω α}
    (hrun : doXlateActions env n ofpacts c = some c') : Q c.core c'.core :=
  (doXlateActions_follows (w := .equal) h le_rfl (.refl c)).holds c' hrun

/-- Two outputs, of which the second one follows the first one. -/
lemma Respects.composeOutputAction_runs (h : Respects env Q) (hsim : Similar w c d)
    (port : BitVec 16) (checkStp : Bool) : (Setup.free env Q w n n).Runs c
      (composeOutputAction env (Xlate.doXlateActions env n) checkStp port c)
      (composeOutputAction env (Xlate.doXlateActions env n) checkStp port d) :=
  have hfollows : Follows env Q w n n := doXlateActions_follows h le_rfl
  Setup.composeOutputAction_runs ((returns_free env n).ok h hfollows) hfollows.setOk
    ⟨hsim, trivial⟩ port checkStp

end Limits

/-! ## A packet -/

namespace Setup

section Request

variable {env : Env β ω α} {Q : Core β → Core β → Prop} {w : Leeway β} {total : Prop}
  {J G : Core β → Prop} {n m : ℕ} {r : Request β ω α}

/-- What has to be known of the translations of a packet: that of its actions, and of the action set
at the end. -/
structure Starts (S : Setup β ω α) (r : Request β ω α) : Prop where
  core : S.J (r.begin S.env).core
  first : S.Runs (r.begin S.env) (S.run (r.start S.env).1 (r.begin S.env))
    (S.run' (r.start S.env).1 (r.begin S.env))
  last : ∀ c d, S.Q (r.begin S.env).core c.core → Similar S.w c d → S.SetRuns c d

variable (h : (limits env Q w total J G n m).Ok)

include h

/-- The copies for mirrors are sent in a context that is not quite the last one. -/
lemma addMirrorActions_runs (hset : (limits env Q w total J G n m).SetOk)
    (hc : (limits env Q w total J G n m).At J c d) (f : Flow) :
    Sim total (fun s => Kept c.core s.core) (fun s => w.good s.trace) (Similar w)
      (addMirrorActions env n f c) (addMirrorActions env m f d) := by
  have hrestore : ∀ visited,
      (limits env Q w total J G n m).At J (c.restore f visited) (d.restore f visited) := by
    intro visited
    refine ⟨?_, h.keptJ (restore_kept c f visited) hc.core⟩
    obtain ⟨⟨t, g, b, hw⟩, -⟩ := hc
    unfold restore
    split <;> exact .mk t g b hw
  obtain ⟨⟨t, g, b, hw⟩, hJ⟩ := hc
  unfold addMirrorActions
  rw [withFlags_bridge, withFlags_mirrors]
  split
  · split
    · refine .ret ({ Kept.refl c.core with }) fun _ => ?_
      exact .mk t g b hw
    · refine .ret ({ Kept.refl c.core with }) fun _ => ?_
      exact .mk t g b hw
  split
  · refine .ret ({ Kept.refl c.core with }) fun _ => ?_
    exact .mk t g b hw
  · exact (outputCopies_runs h hset (hrestore _) _).mono fun s hs =>
      (restore_kept _ _ _).trans (h.kept hs)

variable (hr : (limits env Q w total J G n m).Starts r)

include hr

/-- The actions a request starts with are those of its rule, found in the tables or given to it.
-/
lemma translateActions_runs : (limits env Q w total J G n m).Runs (r.begin env)
    (r.translateActions env n) (r.translateActions env m) := by
  unfold Request.translateActions
  split
  · refine h.bind hr.first hr.core fun s t hs hst => h.next hs ?_
    split
    · exact xlateActionSetIfAny_runs h hst.similar fun _ => hr.last s t hs hst.similar
    · obtain ⟨⟨t, g, b, hw⟩, -⟩ := hst
      refine .ret (h.preserves.drop s.core) fun _ => ?_
      exact .mk t g b hw
  · exact h.stay (.refl _)

/-- A whole request is its actions, the action set they leave and the mirrors they collected. -/
lemma translate_runs (hset : (limits env Q w total J G n m).SetOk) :
    (limits env Q w total J G n m).Runs (r.begin env) (r.translate env n)
      (r.translate env m) := by
  refine h.andThen (translateActions_runs h hr) hr.core fun s t hst => ?_
  have hlocal := composeOutputAction_runs h hset hst 0xfffe true
  have hstay := h.stay hst.similar
  obtain ⟨⟨t, g, b, hw⟩, -⟩ := hst
  rw [withFlags_flow, withFlags_odpActions]
  split
  exacts [hlocal, hstay]

/-- The translations of a packet. -/
lemma xlateActions_runs (hset : (limits env Q w total J G n m).SetOk) :
    Sim total (fun s => Kept (r.begin env).core s.core) (fun s => w.good s.trace) (Similar w)
      (xlateActions env n r) (xlateActions env m r) := by
  have hgood : ∀ {k k' : Core β}, Kept k k' → w.good k'.trace → w.good k.trace := by
    intro k k' hk hgood
    obtain ⟨t, ht⟩ := hk.trace
    exact w.good_of_append (ht.symm ▸ hgood)
  unfold xlateActions
  split
  · exact .ret ({ Kept.refl (r.begin env).core with }) fun _ => .refl _
  refine h.bind (translate_runs h hr hset) hr.core fun s t hs hst => ?_
  have hkept := h.kept hs
  split
  · exact (addMirrorActions_runs h hset hst r.flow).mono
      fun _ hu => ⟨hkept.trans hu, hgood hu⟩
  · exact .ret ⟨hkept, id⟩ fun _ => hst.similar

end Request

end Setup

lemma Follows.starts {env : Env β ω α} {Q : Core β → Core β → Prop} {w : Leeway β} {n m : ℕ}
    (hfollows : Follows env Q w n m) (r : Request β ω α) : (Setup.free env Q w n m).Starts r where
  core := trivial
  first := hfollows (.refl _)
  last _ _ _ hst := hfollows.setRuns hst False.elim

section

variable {env : Env β ω α} {Q : Core β → Core β → Prop} {n : ℕ} {c c' : Ctx β ω α}

/-- The relation holds between the contexts before and after the translation of a packet. -/
lemma Respects.translate (h : Respects env Q) {r : Request β ω α}
    (hrun : r.translate env n = some c) : Q (r.begin env).core c.core :=
  have hfollows : Follows env Q .equal n n := doXlateActions_follows h le_rfl
  (Setup.translate_runs ((returns_free env n).ok h hfollows) (hfollows.starts r)
    hfollows.setOk).holds c hrun

/-- The relation holds between the contexts before and after the copies for mirrors. -/
lemma Respects.outputCopies (h : Respects env Q) {copies : List (XBundle × ℕ)}
    (hrun : outputCopies env (Xlate.doXlateActions env n) copies c = some c') :
    Q c.core c'.core :=
  have hfollows : Follows env Q .equal n n := doXlateActions_follows h le_rfl
  (Setup.outputCopies_runs ((returns_free env n).ok h hfollows) hfollows.setOk
    ⟨.refl c, trivial⟩ copies).holds c' hrun

end

end Xlate

end OVS
