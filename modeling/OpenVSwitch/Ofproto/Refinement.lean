import OpenVSwitch.Ofproto.Rules

/-!
# Flow mods on the abstract flow table

What flow mods are for: a map from matches and priorities to flows, for each table (`FlowMap`),
and what each command does to it (`FlowMod.step`).

**Selection.**  `FlowMod.Selected` says which flows a command is about.  A loose command is about
the flows whose packets it matches, all of them, and never about hidden ones.  For all tables, a
strict modification is about one flow or none.

**What is not in the map.**  Two conditions keep a flow mod from doing more, or less, than its
step (`FlowMod.Ordinary`).  A flow that is added must not have the cookie of all ones, which means
"no cookie" to the code that replaces an existing flow, and no action may ask for learned flows to
be deleted.  `flow_mod_cookie_kept` shows what happens otherwise.  Nothing is said about flow mods
for all tables that would find a flow of a hidden table in the cookie index (`FlowMod.Visible`).

* `handleFlowMod_step` — a flow mod that is not refused takes the abstract step; one that is
  refused changes nothing.
* `flow_table_refinement` — the same for runs.
-/

namespace OVS

namespace Ofproto

open List Function Switch

variable {w : ℕ} {C : Config w}

/-! ## The abstract table -/

/-- The flows of all the tables. -/
abbrev FlowMap (w : ℕ) := ℕ → ClsRule w → Option FlowEntry

/-- Loose commands compare matches only. -/
def FlowCommand.isLoose : FlowCommand → Bool
  | .modify | .delete => true
  | _ => false

/-- Commands that delete flows look at their outputs. -/
def FlowCommand.isDelete : FlowCommand → Bool
  | .delete | .deleteStrict => true
  | _ => false

/-- The key, the cookie and the outputs of a flow are those that a flow mod is about. -/
structure FlowMod.Fits (fm : FlowMod w) (cr : ClsRule w) (e : FlowEntry) : Prop where
  key : if fm.command.isLoose then
      cr.priority ≤ 0xffff ∧ ∀ f, cr.minimatch.Matches f → fm.minimatch.Matches f
    else cr = fm.cr
  cookie : e.flowCookie &&& fm.cookieMask = fm.cookie &&& fm.cookieMask
  out : fm.command.isDelete = true →
    e.hasOutPort fm.outPort = true ∧ e.hasOutGroup fm.outGroup = true

/-- The flow `e` of table `t` with key `cr` is one of those that a flow mod is about. -/
structure FlowMod.Selected (C : Config w) (fm : FlowMod w) (t : ℕ) (cr : ClsRule w)
    (e : FlowEntry) : Prop extends fm.Fits cr e where
  table : fm.tableId = t ∨ fm.tableId = 0xff ∧ C.hidden t = false
  writable : C.readonly t = false ∨ fm.has ffNoReadonly = true

namespace FlowMod

/-- A flow that is modified. -/
def replace (fm : FlowMod w) (changeCookie : Bool) (e : FlowEntry) : FlowEntry :=
  { e with
    flowCookie := if changeCookie ∧ fm.newCookie ≠ be64Max then fm.newCookie else e.flowCookie
    ofpacts := fm.ofpacts }

/-- The entry of the flow mod's own key is set. -/
def put (fm : FlowMod w) (T : FlowMap w) (e : FlowEntry) : FlowMap w :=
  update T fm.target (update (T fm.target) fm.cr (some e))

/-- Flows with the key are selected in more than one table. -/
def Ambiguous (C : Config w) (fm : FlowMod w) (T : FlowMap w) : Prop :=
  ∃ t t' e e', t ≠ t' ∧ T t fm.cr = some e ∧ fm.Selected C t fm.cr e ∧
    T t' fm.cr = some e' ∧ fm.Selected C t' fm.cr e'

open Classical in
/-- Modify the selected flows, but not several of them in a strict command.  Without any, add one,
unless the flow mod is about cookies or has none.  A flow that is not selected but has the key, a
hidden one, is modified. -/
noncomputable def modify (C : Config w) (fm : FlowMod w) (T : FlowMap w) : FlowMap w :=
  if ∃ t cr e, T t cr = some e ∧ fm.Selected C t cr e then
    if fm.command = .modifyStrict ∧ fm.Ambiguous C T then T
    else fun t cr => (T t cr).map fun e =>
      if fm.Selected C t cr e then fm.replace fm.modifyCookie e else e
  else if fm.cookieMask = 0 ∧ fm.newCookie ≠ be64Max then
    fm.put T (match T fm.target fm.cr with
      | none => fm.entry
      | some e => fm.replace true e)
  else T

open Classical in
/-- What a flow mod does to the flows. -/
noncomputable def step (C : Config w) (fm : FlowMod w) (T : FlowMap w) : FlowMap w :=
  match fm.command with
  | .add => fm.put T fm.entry
  | .modify | .modifyStrict => fm.modify C T
  | .delete | .deleteStrict => fun t cr => (T t cr).filter fun e => ¬fm.Selected C t cr e

end FlowMod

/-- No flow of a hidden table is one that a flow mod for all tables finds in the cookie index. -/
def FlowMod.Visible (C : Config w) (fm : FlowMod w) (T : FlowMap w) : Prop :=
  fm.command ≠ .add → fm.tableId = 0xff → fm.cookieMask = be64Max →
    ∀ t cr e, T t cr = some e → fm.Fits cr e → C.hidden t = false

/-- The flows of a switch. -/
def Switch.flows (s : Switch w) : FlowMap w := fun t cr =>
  (findRuleExactly s t cr).map Rule.toFlowEntry

variable {s s' : Switch w} {fm : FlowMod w} {r : Rule w} {c : RuleCriteria w} {e : FlowError}
  {T : FlowMap w} {ids : List ℕ} {outPort outGroup : ℕ}

lemma flows_map {f : Rule w → Rule w} (hrules : s'.rules = s.rules.map f)
    (htable : ∀ r, (f r).tableId = r.tableId) (hcr : ∀ r, (f r).cr = r.cr) (t : ℕ) (cr : ClsRule w)
    : s'.flows t cr = (findRuleExactly s t cr).map fun r => (f r).toFlowEntry := by
  unfold flows findRuleExactly
  rw [hrules, find?_map, Option.map_map]
  have hcongr : ((fun r : Rule w => decide (r.tableId = t ∧ r.cr = cr)) ∘ f) =
      fun r => decide (r.tableId = t ∧ r.cr = cr) := by
    funext r
    simp only [comp, htable, hcr]
  rw [hcongr]
  rfl

lemma flows_filter (hs : s.Wf C) {q : Rule w → Bool} (hrules : s'.rules = s.rules.filter q) (t : ℕ)
    (cr : ClsRule w) :
    s'.flows t cr = ((findRuleExactly s t cr).filter q).map Rule.toFlowEntry := by
  unfold flows
  congr 1
  refine Option.ext fun r => ?_
  rw [Option.filter_eq_some_iff, hs.findRuleExactly_eq_some]
  constructor
  · intro h
    have hr := mem_of_find?_eq_some h
    rw [hrules, mem_filter] at hr
    have hkey : r.tableId = t ∧ r.cr = cr := by simpa using find?_some h
    exact ⟨⟨hr.1, hkey⟩, hr.2⟩
  · rintro ⟨⟨hr, rfl, rfl⟩, hq⟩
    have hmem : r ∈ s'.rules := hrules ▸ mem_filter.2 ⟨hr, hq⟩
    refine find_of_unique hmem (by simp) fun r' hr' h => ?_
    have hkey : r'.tableId = r.tableId ∧ r'.cr = r.cr := by simpa using h
    exact hs.eq_of_key (mem_of_mem_filter (hrules ▸ hr')) hr hkey.1 hkey.2

lemma put_apply (f : FlowEntry) (t : ℕ) (cr : ClsRule w) :
    fm.put T f t cr = if t = fm.target ∧ cr = fm.cr then some f else T t cr := by
  unfold FlowMod.put
  by_cases ht : t = fm.target
  · subst ht
    simp [update_apply]
  · simp [ht]

/-! ## Rules without learned flows -/

/-- No action of a rule deletes learned flows. -/
def NoLearn (s : Switch w) : Prop := ∀ r ∈ s.rules, learnsWithDelete r.ofpacts = []

lemma NoLearn.closed : Closed fun s : Switch w => NoLearn s where
  remove _ h := fun r hr => h r (mem_of_mem_filter hr)
  learned _ h := h

lemma learnedCookiesDec_nil {ofpacts : List Ofpact} (h : learnsWithDelete ofpacts = [])
    (p : Switch w × List (BitVec 64 × ℕ)) : learnedCookiesDec ofpacts p = p := by
  unfold learnedCookiesDec
  rw [h, foldl_nil]

/-- Only the rules themselves are deleted. -/
lemma deleteFlows_rules (h : NoLearn s) (ids : List ℕ) :
    (deleteFlows C s ids).rules = s.rules.filter fun r => r.id ∉ ids := by
  have hfold : ∀ (ids : List ℕ) (s : Switch w), NoLearn s →
      ∃ s', ids.foldl deleteFlow (s, []) = (s', []) ∧
        s'.rules = s.rules.filter fun r => r.id ∉ ids := by
    intro ids
    induction ids with
    | nil => exact fun s _ => ⟨s, rfl, by simp⟩
    | cons id ids ih =>
      intro s h
      obtain ⟨s1, heq, h1, hrules⟩ : ∃ s1, deleteFlow (s, []) id = (s1, []) ∧ NoLearn s1 ∧
          s1.rules = s.rules.filter fun r => r.id ≠ id := by
        unfold deleteFlow
        cases hrule : s.rule id with
        | none =>
          refine ⟨s, rfl, h, (filter_eq_self.2 fun r hr => ?_).symm⟩
          simpa using find?_eq_none.1 hrule r hr
        | some r =>
          exact ⟨s.remove id, learnedCookiesDec_nil (h r (mem_of_find?_eq_some hrule)) _,
            NoLearn.closed.remove id h, rfl⟩
      obtain ⟨s2, heq2, hrules2⟩ := ih s1 h1
      refine ⟨s2, by rw [foldl_cons, heq, heq2], ?_⟩
      rw [hrules2, hrules]
      simp [Bool.and_comm]
  obtain ⟨s', heq, hrules⟩ := hfold ids s h
  rw [deleteFlows_eq, heq]
  exact hrules

/-- Only the rules themselves are modified. -/
lemma modifyFlows_rules (hs : s.Wf C) (h : NoLearn s) (hfm : learnsWithDelete fm.ofpacts = [])
    (hnodup : ids.Nodup) : (modifyFlows C s fm ids).1.rules =
      s.rules.map fun r => if r.id ∈ ids then modified fm r else r := by
  have hfold : ∀ (ids : List ℕ) (s : Switch w), ids.Nodup → s.Wf C → NoLearn s →
      ∃ s', ids.foldl (modifyFlow C fm) (s, []) = (s', []) ∧
        s'.rules = s.rules.map fun r => if r.id ∈ ids then modified fm r else r := by
    intro ids
    induction ids with
    | nil => exact fun s _ _ _ => ⟨s, rfl, by simp⟩
    | cons id ids ih =>
      intro s hnodup hs h
      rw [nodup_cons] at hnodup
      obtain ⟨s1, heq, hs1, h1, hrules⟩ : ∃ s1, modifyFlow C fm (s, []) id = (s1, []) ∧
          s1.Wf C ∧ NoLearn s1 ∧
          s1.rules = s.rules.map fun r => if r.id = id then modified fm r else r := by
        cases hrule : s.rule id with
        | none =>
          refine ⟨s, by simp [modifyFlow, hrule], hs, h, ?_⟩
          refine (map_congr_left fun r hr => ?_).trans (map_id _) |>.symm
          have hne : r.id ≠ id := by simpa using find?_eq_none.1 hrule r hr
          simp [hne]
        | some r =>
          obtain ⟨hr, rfl⟩ := mem_of_rule hrule
          have hrules : (modifyRule C fm s r).rules =
              s.rules.map fun x => if x.id = r.id then modified fm x else x := by
            rw [modifyRule_rules]
            refine map_congr_left fun x hx => ?_
            by_cases hid : x.id = r.id
            · rw [hs.eq_of_id hx hr hid]
              rfl
            · simp [modified, hid]
          obtain ⟨learned, hmodify⟩ := modifyFlow_eq fm (s, []) hrule
          refine ⟨{ modifyRule C fm s r with learnedCookies := learned }, ?_, ?_, ?_, hrules⟩
          · refine Prod.ext hmodify ?_
            unfold modifyFlow
            simp only [hrule]
            split
            · rw [learnedCookiesDec_nil (h r hr)]
            · rfl
          · exact Switch.Wf.closed.learned learned (hs.modifyRule fm hr)
          · intro x hx
            rw [hrules] at hx
            obtain ⟨y, hy, rfl⟩ := mem_map.1 hx
            split
            · exact hfm
            · exact h y hy
      obtain ⟨s2, heq2, hrules2⟩ := ih s1 hnodup.2 hs1 h1
      refine ⟨s2, by rw [foldl_cons, heq, heq2], ?_⟩
      rw [hrules2, hrules, map_map]
      refine map_congr_left fun r _ => ?_
      by_cases hid : r.id = id
      · have hnot : (modified fm r).id ∉ ids := by
          show r.id ∉ ids
          rw [hid]
          exact hnodup.1
        simp [hid, hnot]
      · simp [hid]
  obtain ⟨s', heq, hrules⟩ := hfold ids s hnodup hs h
  unfold modifyFlows
  rw [heq]
  exact hrules

/-- The criteria of a flow mod, in terms of flows. -/
lemma selects_iff {priority : ℤ} (ht : r.tableId < C.nTables) :
    (ruleCriteriaInit fm.tableId fm.minimatch priority fm.cookie fm.cookieMask outPort outGroup
      (fm.has ffNoReadonly)).Selects C r ↔
      (fm.tableId = r.tableId ∨
        fm.tableId = 0xff ∧ (fm.cookieMask = be64Max ∨ C.hidden r.tableId = false)) ∧
      (C.readonly r.tableId = false ∨ fm.has ffNoReadonly = true) ∧
      r.flowCookie &&& fm.cookieMask = fm.cookie &&& fm.cookieMask ∧
      (r.cr.priority ≤ 0xffff ∨ priority > 0xffff) ∧
      r.hasOutPort outPort = true ∧ r.hasOutGroup outGroup = true := by
  have hne : r.tableId ≠ 0xff := by
    have := C.nTables_le
    omega
  constructor
  · rintro ⟨ha, htab, hw⟩
    obtain ⟨htable, hport, hgroup, hcookie, hhidden⟩ := RuleCriteria.accepts_iff.1 ha
    exact ⟨htable.imp_right fun hall => ⟨hall, htab hall⟩, hw, hcookie,
      hhidden.imp_right of_decide_eq_true, hport, hgroup⟩
  · rintro ⟨htable, hw, hcookie, hhidden, hport, hgroup⟩
    refine ⟨RuleCriteria.accepts_iff.2 ⟨htable.imp_right And.left, hport, hgroup, hcookie,
      hhidden.imp_right (decide_eq_true ·)⟩, fun hall => ?_, hw⟩
    · rcases htable with heq | ⟨-, htab⟩
      · exact absurd (heq.symm.trans hall) hne
      · exact htab

lemma flows_eq_some (hs : s.Wf C) (hr : r ∈ s.rules) :
    s.flows r.tableId r.cr = some r.toFlowEntry := by
  rw [flows, hs.findRuleExactly_eq_some.2 ⟨hr, rfl, rfl⟩]
  rfl

/-- Where flows of hidden tables are not found, the tables are those of the step. -/
lemma table_iff (hs : s.Wf C) (hvisible : fm.Visible C s.flows) (hne : fm.command ≠ .add)
    (hr : r ∈ s.rules) (hfits : fm.Fits r.cr r.toFlowEntry) :
    (fm.tableId = r.tableId ∨
        fm.tableId = 0xff ∧ (fm.cookieMask = be64Max ∨ C.hidden r.tableId = false)) ↔
      (fm.tableId = r.tableId ∨ fm.tableId = 0xff ∧ C.hidden r.tableId = false) := by
  refine or_congr_right (and_congr_right fun hall => ⟨fun h => ?_, .inr⟩)
  exact h.elim (fun hmask => hvisible hne hall hmask _ _ _ (flows_eq_some hs hr) hfits) id

/-- What a loose command collects is what it is about. -/
lemma selected_loose (hs : s.Wf C) (hvisible : fm.Visible C s.flows) (hne : fm.command ≠ .add)
    (hr : r ∈ s.rules) (hloose : fm.command.isLoose = true)
    (hout : (r.hasOutPort outPort = true ∧ r.hasOutGroup outGroup = true) ↔
      (fm.command.isDelete = true →
        r.hasOutPort fm.outPort = true ∧ r.hasOutGroup fm.outGroup = true)) :
    ((ruleCriteriaInit fm.tableId fm.minimatch 0 fm.cookie fm.cookieMask outPort outGroup
      (fm.has ffNoReadonly)).Selects C r ∧ r.cr.minimatch.Loose fm.minimatch) ↔
      fm.Selected C r.tableId r.cr r.toFlowEntry := by
  rw [selects_iff (hs.tables r hr), Match.loose_iff, hout]
  constructor
  · rintro ⟨⟨htable, hw, hcookie, hprio, ho⟩, hmatch⟩
    have hfits : fm.Fits r.cr r.toFlowEntry :=
      ⟨by rw [if_pos hloose]; exact ⟨hprio.resolve_right (by decide), hmatch⟩, hcookie, ho⟩
    exact ⟨hfits, (table_iff hs hvisible hne hr hfits).1 htable, hw⟩
  · rintro ⟨hfits, htable, hw⟩
    have hkey := hfits.key
    rw [if_pos hloose] at hkey
    exact ⟨⟨(table_iff hs hvisible hne hr hfits).2 htable, hw, hfits.cookie, .inl hkey.1,
      hfits.out⟩, hkey.2⟩

/-- What a strict command collects is what it is about. -/
lemma selected_strict (hs : s.Wf C) (hvisible : fm.Visible C s.flows) (hne : fm.command ≠ .add)
    (hr : r ∈ s.rules) (hloose : fm.command.isLoose = false)
    (hout : (r.hasOutPort outPort = true ∧ r.hasOutGroup outGroup = true) ↔
      (fm.command.isDelete = true →
        r.hasOutPort fm.outPort = true ∧ r.hasOutGroup fm.outGroup = true)) :
    ((ruleCriteriaInit fm.tableId fm.minimatch fm.priority fm.cookie fm.cookieMask outPort outGroup
      (fm.has ffNoReadonly)).Selects C r ∧ r.cr = fm.cr) ↔
      fm.Selected C r.tableId r.cr r.toFlowEntry := by
  rw [selects_iff (hs.tables r hr), hout]
  constructor
  · rintro ⟨⟨htable, hw, hcookie, -, ho⟩, hcr⟩
    have hfits : fm.Fits r.cr r.toFlowEntry := ⟨by rw [hloose]; exact hcr, hcookie, ho⟩
    exact ⟨hfits, (table_iff hs hvisible hne hr hfits).1 htable, hw⟩
  · rintro ⟨hfits, htable, hw⟩
    have hcr : r.cr = fm.cr := by simpa [hloose] using hfits.key
    refine ⟨⟨(table_iff hs hvisible hne hr hfits).2 htable, hw, hfits.cookie, ?_, hfits.out⟩, hcr⟩
    rw [hcr]
    exact le_or_gt _ _

/-- Modifications do not look at outputs. -/
lemma hasOut_any (h : fm.command.isDelete = false) :
    (r.hasOutPort ofppAny = true ∧ r.hasOutGroup ofpgAny = true) ↔
      (fm.command.isDelete = true →
        r.hasOutPort fm.outPort = true ∧ r.hasOutGroup fm.outGroup = true) := by
  simp [h, FlowEntry.hasOutPort, FlowEntry.hasOutGroup]

/-! ## One flow mod -/

/-- The table is left as it is because of the error. -/
def FlowError.isRefusal : FlowError → Bool
  | .buffer _ => false
  | _ => true

lemma collect_error {a b : Prop} [Decidable a] [Decidable b] {l l' : List (Rule w)}
    (h : (if a then .error .badTableId else if b then collect C c l else collect C c l') = .error e)
    : e.isRefusal = true := by
  simp only [collect] at h
  split_ifs at h <;> cases h <;> rfl

/-- A flow mod is refused and changes nothing, or leads to the flows `T`. -/
def Outcome (s : Switch w) (T : FlowMap w) (p : Switch w × Option FlowError) : Prop :=
  (∃ e, p.2 = some e ∧ e.isRefusal = true ∧ p.1 = s) ∨
    (∀ e, p.2 = some e → e.isRefusal = false) ∧ p.1.flows = T

lemma Outcome.refused (h : e.isRefusal = true) : Outcome s T (s, some e) :=
  .inl ⟨e, rfl, h, rfl⟩

lemma Outcome.done (h : s'.flows = T) : Outcome s T (s', none) :=
  .inr ⟨fun _ h => absurd h (by simp), h⟩

lemma Outcome.buffered {b : Option BufferError} (h : s'.flows = T) :
    Outcome s T (s', b.map .buffer) := by
  refine .inr ⟨fun e he => ?_, h⟩
  cases b with
  | none => simp at he
  | some b =>
    obtain rfl : FlowError.buffer b = e := by simpa using he
    rfl

/-- The flow mods that do no more and no less than their step. -/
structure FlowMod.Ordinary (fm : FlowMod w) : Prop where
  cookie : fm.command = .add → fm.newCookie ≠ be64Max
  learn : learnsWithDelete fm.ofpacts = []

/-- What becomes of a flow that is modified. -/
lemma modified_toFlowEntry (r : Rule w) (h : fm.command ≠ .add) :
    (modified fm r).toFlowEntry = fm.replace fm.modifyCookie r.toFlowEntry := by
  unfold modified FlowMod.replace changeCookie
  simp only [h, if_false, Bool.and_eq_true, decide_eq_true_eq, FlowEntry.mk.injEq, and_true]
  split_ifs with h1 h2 h2
  · rfl
  · exact absurd ⟨h1.1.1, h1.1.2⟩ h2
  · -- the cookie is the one that the flow has
    by_contra hne
    exact h1 ⟨⟨h2.1, h2.2⟩, fun heq => hne heq.symm⟩
  · rfl

section

variable {s : Switch w} {fm : FlowMod w} (hs : s.Wf C) (hlearn : NoLearn s)
  (hlimit : ∀ t, C.maxFlows t = 2 ^ 32 - 1)
include hlimit

/-- Without a limit nothing is evicted. -/
lemma evictRulesFromTable_of_limit (t n : ℕ) : evictRulesFromTable C s t n = (s, none) := by
  unfold evictRulesFromTable
  have hzero : ((s.rules.countP fun r => r.tableId = t) + n) % 2 ^ 32 - C.maxFlows t = 0 := by
    rw [hlimit]
    omega
  simp only [hzero]
  rfl

include hs hlearn

omit hlimit in
/-- Modifying the only flow with the key of the flow mod. -/
lemma modifyFlows_flows_key {g : FlowMod w} (hr : r ∈ s.rules) (htable : r.tableId = fm.target)
    (hcr : r.cr = fm.cr) (hfm : learnsWithDelete g.ofpacts = []) :
    (modifyFlows C s g [r.id]).1.flows = fm.put s.flows (modified g r).toFlowEntry := by
  have hrules := modifyFlows_rules hs hlearn hfm (nodup_singleton r.id)
  funext t cr
  rw [flows_map hrules (fun x => by split <;> rfl) (fun x => by split <;> rfl), put_apply, flows]
  split_ifs with hkey
  · rw [hkey.1, hkey.2, hs.findRuleExactly_eq_some.2 ⟨hr, htable, hcr⟩]
    simp
  · cases hx : findRuleExactly s t cr with
    | none => rfl
    | some x =>
      obtain ⟨hmem, rfl, rfl⟩ := hs.findRuleExactly_eq_some.1 hx
      have hne : x.id ≠ r.id := fun hid => hkey (hs.eq_of_id hmem hr hid ▸ ⟨htable, hcr⟩)
      simp [hne]

/-- `add_flow()` puts the flow, or replaces what is there. -/
lemma addFlow_outcome (hfm : fm.Ordinary) :
    Outcome s (fm.put s.flows (if fm.command = .add then fm.entry else
      match s.flows fm.target fm.cr with
      | none => fm.entry
      | some e => fm.replace true e)) (addFlow C s fm) := by
  unfold addFlow
  generalize hT : fm.put s.flows _ = T
  split_ifs
  · exact .refused rfl
  · exact .refused rfl
  · exact .refused rfl
  rw [← hT]
  cases hfind : findRuleExactly s fm.target fm.cr with
  | some r =>
    obtain ⟨hr, htable, hcr⟩ := hs.findRuleExactly_eq_some.1 hfind
    have hflow : s.flows fm.target fm.cr = some r.toFlowEntry := by
      simp [flows, hfind]
    refine .buffered ((modifyFlows_flows_key (g := { fm with modifyCookie := true }) hs hlearn hr
      htable hcr hfm.learn).trans ?_)
    congr 1
    split_ifs with hcommand
    · unfold modified FlowMod.entry changeCookie
      simp only [hcommand, if_true, Bool.true_and, Bool.and_eq_true, decide_eq_true_eq,
        FlowEntry.mk.injEq, and_true]
      split_ifs with h1
      · rfl
      · by_contra hne
        exact h1 ⟨hfm.cookie hcommand, fun heq => hne heq.symm⟩
    · rw [hflow]
      exact modified_toFlowEntry r hcommand
  | none =>
    have hflow : s.flows fm.target fm.cr = none := by simp [flows, hfind]
    simp only [addNewFlow, evictRulesFromTable_of_limit hlimit, hflow, ite_self]
    split_ifs with hoverlap
    · exact .refused rfl
    · obtain ⟨learned, heq⟩ := learnedCookiesInc_eq (insertRule C s fm) fm.ofpacts
      refine .buffered (funext₂ fun t cr => ?_)
      rw [put_apply, heq, flows, findRuleExactly]
      show Option.map _ (find? _ (insertRule C s fm).rules) = _
      rw [insertRule_rules]
      split_ifs with h
      · simp [FlowMod.rule, h]
      · rw [find?_cons_of_neg fun hkey => h ((of_decide_eq_true hkey).imp Eq.symm Eq.symm)]
        rfl

/-- `modify_flows_add()`, where no flow is selected. -/
lemma modifyFlowsAdd_outcome (hfm : fm.Ordinary) (hcommand : fm.command ≠ .add)
    (hnone : ¬∃ t cr e, s.flows t cr = some e ∧ fm.Selected C t cr e) :
    Outcome s (fm.modify C s.flows) (modifyFlowsAdd C s fm) := by
  unfold modifyFlowsAdd FlowMod.modify
  rw [if_neg hnone]
  by_cases hmask : fm.cookieMask ≠ 0 ∨ fm.newCookie = be64Max
  · rw [if_pos hmask, if_neg (by tauto)]
    exact .done rfl
  · rw [if_neg hmask, if_pos (by tauto)]
    have h := addFlow_outcome hs hlearn hlimit hfm
    rwa [if_neg hcommand] at h

omit hlimit in
/-- Modifying the flows that are selected. -/
lemma modifyFlows_outcome (hfm : fm.Ordinary) (hcommand : fm.command ≠ .add) (hnodup : ids.Nodup)
    (hids : ∀ r ∈ s.rules, r.id ∈ ids ↔ fm.Selected C r.tableId r.cr r.toFlowEntry)
    (hr : r ∈ s.rules) (hsel : r.id ∈ ids)
    (hone : ¬ (fm.command = .modifyStrict ∧ fm.Ambiguous C s.flows)) :
    Outcome s (fm.modify C s.flows) (modifyFlows C s fm ids) := by
  have hsome : ∃ t cr e, s.flows t cr = some e ∧ fm.Selected C t cr e :=
    ⟨r.tableId, r.cr, r.toFlowEntry, flows_eq_some hs hr, (hids r hr).1 hsel⟩
  refine .buffered (?_ : (modifyFlows C s fm ids).1.flows = _)
  have hrules := modifyFlows_rules hs hlearn hfm.learn hnodup
  funext t cr
  rw [flows_map hrules (fun x => by split <;> rfl) (fun x => by split <;> rfl), FlowMod.modify,
    if_pos hsome, if_neg hone]
  simp only [flows]
  cases hx : findRuleExactly s t cr with
  | none => rfl
  | some x =>
    obtain ⟨hmem, rfl, rfl⟩ := hs.findRuleExactly_eq_some.1 hx
    by_cases h : fm.Selected C x.tableId x.cr x.toFlowEntry
    · simp [hids x hmem, h, modified_toFlowEntry x hcommand]
    · simp [hids x hmem, h]

omit hlimit in
open Classical in
/-- Deleting the flows that are selected. -/
lemma deleteFlows_flows
    (hids : ∀ r ∈ s.rules, r.id ∈ ids ↔ fm.Selected C r.tableId r.cr r.toFlowEntry) (t : ℕ)
    (cr : ClsRule w) : (deleteFlows C s ids).flows t cr =
      (s.flows t cr).filter fun e => ¬fm.Selected C t cr e := by
  rw [flows_filter hs (deleteFlows_rules hlearn ids)]
  simp only [flows]
  cases hx : findRuleExactly s t cr with
  | none => rfl
  | some x =>
    obtain ⟨hmem, rfl, rfl⟩ := hs.findRuleExactly_eq_some.1 hx
    by_cases h : fm.Selected C x.tableId x.cr x.toFlowEntry
    · simp [Option.filter_some, hids x hmem, h]
    · simp [Option.filter_some, hids x hmem, h]

omit hlimit hlearn in
/-- The rules that are collected are those that are selected. -/
lemma mem_ids_iff {S : Rule w → Prop} (hids : ∀ id, id ∈ ids ↔ ∃ r ∈ s.rules, r.id = id ∧ S r)
    (hS : ∀ r ∈ s.rules, S r ↔ fm.Selected C r.tableId r.cr r.toFlowEntry) (r : Rule w)
    (hr : r ∈ s.rules) : r.id ∈ ids ↔ fm.Selected C r.tableId r.cr r.toFlowEntry := by
  rw [hids, ← hS r hr]
  constructor
  · rintro ⟨r', hr', hid, h⟩
    rwa [hs.eq_of_id hr hr' hid.symm]
  · exact fun h => ⟨r, hr, rfl, h⟩

omit hlimit hlearn in
lemma exists_rule {t : ℕ} {cr : ClsRule w} {e : FlowEntry} (h : s.flows t cr = some e) :
    ∃ r ∈ s.rules, r.tableId = t ∧ r.cr = cr ∧ r.toFlowEntry = e := by
  obtain ⟨r, hr, rfl⟩ := Option.map_eq_some_iff.1 h
  obtain ⟨hmem, rfl, rfl⟩ := hs.findRuleExactly_eq_some.1 hr
  exact ⟨r, hmem, rfl, rfl, rfl⟩

omit hlimit hlearn in
lemma not_exists_selected (h : ∀ r ∈ s.rules, r.id ∈ ([] : List ℕ) ↔
      fm.Selected C r.tableId r.cr r.toFlowEntry) :
    ¬∃ t cr e, s.flows t cr = some e ∧ fm.Selected C t cr e := by
  rintro ⟨t, cr, e, hflow, hsel⟩
  obtain ⟨r, hr, rfl, rfl, rfl⟩ := exists_rule hs hflow
  exact absurd ((h r hr).2 hsel) not_mem_nil

variable (hfm : fm.Ordinary) (hvisible : fm.Visible C s.flows)
include hfm hvisible

lemma modifyFlowsLoose_outcome (hcommand : fm.command = .modify) :
    Outcome s (fm.modify C s.flows) (modifyFlowsLoose C s fm) := by
  have hne : fm.command ≠ .add := by simp [hcommand]
  have hsel {ids : List ℕ} (hids : ids.Nodup ∧ ∀ id, id ∈ ids ↔ _) := mem_ids_iff hs hids.2
    fun r hr => selected_loose hs hvisible hne hr (by rw [hcommand]; rfl)
      (hasOut_any (by rw [hcommand]; rfl))
  unfold modifyFlowsLoose
  split
  · exact .refused (collect_error ‹_›)
  · exact modifyFlowsAdd_outcome hs hlearn hlimit hfm hne
      (not_exists_selected hs (hsel (hs.collectRulesLoose_ok ‹_›)))
  · rename_i ids hnil hcollect
    have hids := hs.collectRulesLoose_ok hcollect
    obtain ⟨id, hid⟩ := exists_mem_of_ne_nil ids hnil
    obtain ⟨r, hr, rfl, -⟩ := (hids.2 id).1 hid
    exact modifyFlows_outcome hs hlearn hfm hne hids.1 (hsel hids) hr hid (by simp [hcommand])

lemma modifyFlowStrict_outcome (hcommand : fm.command = .modifyStrict) :
    Outcome s (fm.modify C s.flows) (modifyFlowStrict C s fm) := by
  have hne : fm.command ≠ .add := by simp [hcommand]
  have hsel {ids : List ℕ} (hids : ids.Nodup ∧ ∀ id, id ∈ ids ↔ _) := mem_ids_iff hs hids.2
    fun r hr => selected_strict hs hvisible hne hr (by rw [hcommand]; rfl)
      (hasOut_any (by rw [hcommand]; rfl))
  unfold modifyFlowStrict
  split
  · exact .refused (collect_error ‹_›)
  · exact modifyFlowsAdd_outcome hs hlearn hlimit hfm hne
      (not_exists_selected hs (hsel (hs.collectRulesStrict_ok ‹_›)))
  · rename_i id hcollect
    have hids := hs.collectRulesStrict_ok hcollect
    obtain ⟨r, hr, rfl, -⟩ := (hids.2 id).1 mem_cons_self
    refine modifyFlows_outcome hs hlearn hfm hne hids.1 (hsel hids) hr mem_cons_self ?_
    rintro ⟨-, t, t', e, e', hne', hflow, hsel1, hflow', hsel2⟩
    obtain ⟨r1, hr1, rfl, heq1, rfl⟩ := exists_rule hs hflow
    obtain ⟨r2, hr2, rfl, heq2, rfl⟩ := exists_rule hs hflow'
    have hid1 := mem_singleton.1 ((hsel hids r1 hr1).2 (heq1 ▸ hsel1))
    have hid2 := mem_singleton.1 ((hsel hids r2 hr2).2 (heq2 ▸ hsel2))
    exact hne' (congrArg Rule.tableId (hs.eq_of_id hr1 hr2 (hid1.trans hid2.symm)))
  · rename_i ids hnil hone hcollect
    have hids := hs.collectRulesStrict_ok hcollect
    obtain _ | ⟨id, _ | ⟨id', ids⟩⟩ := ids
    · exact absurd rfl hnil
    · exact absurd rfl (hone id)
    · -- flows with one key are in different tables
      obtain ⟨r, hr, rfl, -, hcr⟩ := (hids.2 id).1 (by simp)
      obtain ⟨r', hr', rfl, -, hcr'⟩ := (hids.2 id').1 (by simp)
      have hsel1 := (hsel hids r hr).1 (by simp)
      have hsel2 := (hsel hids r' hr').1 (by simp)
      have htables : r.tableId ≠ r'.tableId := fun htable => by
        have hnodup := hids.1
        rw [hs.eq_of_key hr hr' htable (hcr.trans hcr'.symm)] at hnodup
        simp at hnodup
      have hflow := flows_eq_some hs hr
      have hflow' := flows_eq_some hs hr'
      rw [hcr] at hsel1 hflow
      rw [hcr'] at hsel2 hflow'
      refine .done ?_
      rw [FlowMod.modify, if_pos ⟨_, _, _, hflow, hsel1⟩,
        if_pos ⟨hcommand, _, _, _, _, htables, hflow, hsel1, hflow', hsel2⟩]

/-- **A flow mod takes its abstract step, or is refused and changes nothing.** -/
theorem handleFlowMod_step : Outcome s (fm.step C s.flows) (handleFlowMod C s fm) := by
  unfold handleFlowMod FlowMod.step
  cases hcommand : fm.command with
  | add =>
    have h := addFlow_outcome hs hlearn hlimit hfm
    rwa [if_pos hcommand] at h
  | modify => exact modifyFlowsLoose_outcome hs hlearn hlimit hfm hvisible hcommand
  | modifyStrict => exact modifyFlowStrict_outcome hs hlearn hlimit hfm hvisible hcommand
  | delete =>
    simp only [deleteFlowsLoose]
    split
    · exact .refused (collect_error ‹_›)
    · rename_i ids hcollect
      have hsel := mem_ids_iff hs (hs.collectRulesLoose_ok hcollect).2 fun r hr =>
        selected_loose hs hvisible (by simp [hcommand]) hr (by rw [hcommand]; rfl)
          (by simp [hcommand, FlowCommand.isDelete])
      exact .done (funext₂ fun t cr => deleteFlows_flows hs hlearn hsel t cr)
  | deleteStrict =>
    simp only [deleteFlowStrict]
    split
    · exact .refused (collect_error ‹_›)
    · rename_i ids hcollect
      have hsel := mem_ids_iff hs (hs.collectRulesStrict_ok hcollect).2 fun r hr =>
        selected_strict hs hvisible (by simp [hcommand]) hr (by rw [hcommand]; rfl)
          (by simp [hcommand, FlowCommand.isDelete])
      exact .done (funext₂ fun t cr => deleteFlows_flows hs hlearn hsel t cr)

end

/-! ## Runs -/

lemma NoLearn.handleFlowMod (hs : s.Wf C) (h : NoLearn s) (hfm : learnsWithDelete fm.ofpacts = []) :
    NoLearn (handleFlowMod C s fm).1 := by
  refine handleFlowMod_induct NoLearn.closed hs h (fun b s' r _ h' _ hr _ => ?_)
    fun s' _ h' _ _ _ => ?_
  · intro x hx
    rcases (mem_modifyRule hr).1 hx with rfl | ⟨hx, -⟩
    · exact hfm
    · exact h' x hx
  · intro x hx
    rw [insertRule_rules] at hx
    rcases mem_cons.1 hx with rfl | hx
    · exact hfm
    · exact h' x hx

/-- The switches that ordinary flow mods lead to, along with the flows that there should be. -/
inductive FlowRun (C : Config w) : Switch w → FlowMap w → Prop where
  | empty : FlowRun C Switch.empty fun _ _ => none
  | step {s : Switch w} {T : FlowMap w} {fm : FlowMod w} : FlowRun C s T → fm.Ordinary →
      fm.Visible C T → (∀ e, (handleFlowMod C s fm).2 = some e → e.isRefusal = false) →
      FlowRun C (handleFlowMod C s fm).1 (fm.step C T)
  | refused {s : Switch w} {T : FlowMap w} {fm : FlowMod w} {e : FlowError} : FlowRun C s T →
      fm.Ordinary → fm.Visible C T → (handleFlowMod C s fm).2 = some e → e.isRefusal = true →
      FlowRun C (handleFlowMod C s fm).1 T

/-- **The flow tables are the abstract ones after every run of flow mods.** -/
theorem flow_table_refinement (hlimit : ∀ t, C.maxFlows t = 2 ^ 32 - 1) {s : Switch w}
    {T : FlowMap w} (h : FlowRun C s T) : s.flows = T := by
  suffices h : s.Wf C ∧ NoLearn s ∧ s.flows = T from h.2.2
  induction h with
  | empty =>
    refine ⟨⟨nodup_nil, ?_, ?_, ?_, nodup_nil, ?_⟩, ?_, rfl⟩ <;>
      simp [Switch.empty, NoLearn]
  | step _ hfm hvisible hok ih =>
    obtain ⟨hs, hlearn, rfl⟩ := ih
    refine ⟨hs.handleFlowMod _, hlearn.handleFlowMod hs hfm.learn, ?_⟩
    rcases handleFlowMod_step hs hlearn hlimit hfm hvisible with ⟨e, he, href, -⟩ | ⟨-, h⟩
    · rw [hok e he] at href
      cases href
    · exact h
  | refused _ hfm hvisible he href ih =>
    obtain ⟨hs, hlearn, rfl⟩ := ih
    refine ⟨hs.handleFlowMod _, hlearn.handleFlowMod hs hfm.learn, ?_⟩
    rcases handleFlowMod_step hs hlearn hlimit hfm hvisible with ⟨e, -, -, h⟩ | ⟨hok, -⟩
    · rw [h]
    · rw [hok _ he] at href
      cases href

/-- Flows are added to two tables, modified in both, not modified because there are two of them, and
deleted from one table. -/
theorem flow_table_refinement_plainConfig :
    ∃ s T, FlowRun plainConfig s T ∧
      s.rules.map (fun r => (r.tableId, r.flowCookie, r.ofpacts)) =
        [(1, 1, [.action (.output 3)])] ∧
      s.flows = T := by
  have hordinary : ∀ command tableId ofpacts, learnsWithDelete ofpacts = [] →
      (plainFlowMod command tableId 5 1 ofpacts).Ordinary := fun _ _ _ h =>
    ⟨fun _ => show (1 : BitVec 64) ≠ be64Max by decide, h⟩
  have hvisible : ∀ (fm : FlowMod 8) T, fm.Visible plainConfig T := fun _ _ _ _ _ _ _ _ _ _ => rfl
  have hrun : FlowRun plainConfig _ _ :=
    .step (.step (.step (.step (.step .empty
      (hordinary .add 0 [] rfl) (hvisible _ _) (by decide +kernel))
      (hordinary .add 1 [] rfl) (hvisible _ _) (by decide +kernel))
      (hordinary .modify 0xff [.action (.output 3)] rfl) (hvisible _ _) (by decide +kernel))
      (hordinary .modifyStrict 0xff [] rfl) (hvisible _ _) (by decide +kernel))
      (hordinary .deleteStrict 0 [] rfl) (hvisible _ _) (by decide +kernel)
  exact ⟨_, _, hrun, by decide +kernel, flow_table_refinement (fun _ => rfl) hrun⟩

/-- The flow mods, one after the other. -/
def runFlowMods (C : Config w) (fms : List (FlowMod w)) : Switch w :=
  fms.foldl (fun s fm => (handleFlowMod C s fm).1) Switch.empty

/-- **Flow mods that do not do what they say**, although they succeed: a flow that is added over
another one keeps the cookie of that one if its own has all bits set, deleting a flow deletes a flow
in another table that it has learned, and a strict modification for all tables modifies neither of
two flows with its key. -/
theorem flow_mod_cookie_kept :
    (let s := runFlowMods plainConfig [plainFlowMod .add 0 5 1 []]
    let fm := plainFlowMod .add 0 5 be64Max []
    (handleFlowMod plainConfig s fm).2 = none ∧
      (handleFlowMod plainConfig s fm).1.flows ≠ fm.step plainConfig s.flows) ∧
    (let s := runFlowMods plainConfig
      [plainFlowMod .add 0 5 1 [.action (.learn 7 1 true)], plainFlowMod .add 1 6 7 []]
    let fm := plainFlowMod .deleteStrict 0 5 0 []
    (handleFlowMod plainConfig s fm).2 = none ∧
      (handleFlowMod plainConfig s fm).1.flows ≠ fm.step plainConfig s.flows) ∧
    (let s := runFlowMods plainConfig [plainFlowMod .add 0 5 1 [], plainFlowMod .add 1 5 1 []]
    let fm := plainFlowMod .modifyStrict 0xff 5 1 [.action (.output 3)]
    (handleFlowMod plainConfig s fm).2 = none ∧ s.rules.length = 2 ∧
      (∀ r ∈ s.rules, fm.Selected plainConfig r.tableId r.cr r.toFlowEntry) ∧
      ∀ r ∈ (handleFlowMod plainConfig s fm).1.rules, r.ofpacts = []) := by
  refine ⟨⟨by decide +kernel, fun h => ?_⟩, ⟨by decide +kernel, fun h => ?_⟩, by decide +kernel,
    by decide +kernel, fun r hr => ?_, by decide +kernel⟩
  · have hflow := congrFun (congrFun h 0) (plainFlowMod .add 0 5 be64Max []).cr
    revert hflow
    decide +kernel
  · -- the flow that is deleted along with the other one is not selected
    have hflow := congrFun (congrFun h 1) (plainFlowMod .add 1 6 7 []).cr
    have hsel : ∀ e, ¬(plainFlowMod .deleteStrict 0 5 0 []).Selected plainConfig 1
        (plainFlowMod .add 1 6 7 []).cr e := by
      rintro e ⟨-, htable, -⟩
      revert htable
      decide +kernel
    have hstep : ∀ T : FlowMap 8, (plainFlowMod .deleteStrict 0 5 0 []).step plainConfig T 1
        (plainFlowMod .add 1 6 7 []).cr = T 1 (plainFlowMod .add 1 6 7 []).cr := by
      intro T
      show (T 1 (plainFlowMod .add 1 6 7 []).cr).filter _ = _
      cases T 1 (plainFlowMod .add 1 6 7 []).cr with
      | none => rfl
      | some e => simpa using hsel e
    rw [hstep] at hflow
    revert hflow
    decide +kernel
  · have hkey : ∀ r ∈ (runFlowMods plainConfig
        [plainFlowMod .add 0 5 1 [], plainFlowMod .add 1 5 1 []]).rules,
        r.cr = (plainFlowMod .modifyStrict 0xff 5 1 [.action (.output 3)]).cr := by
      decide +kernel
    exact ⟨⟨hkey r hr, by simp [plainFlowMod], nofun⟩, .inr ⟨rfl, rfl⟩, .inl rfl⟩

end Ofproto

end OVS
