import Mathlib.Logic.Relation
import OpenVSwitch.Ofproto.Refinement

/-!
# The cookie index, timeouts, meters and groups

A rule that has a timeout should be on the list of the rules that can expire, and a rule that uses
a meter or a group should go when the meter or the group goes.  The lists are filled when a rule is
inserted.  Whether they are still right later depends on what happens to the rule in place, since
`modifyRule` changes timeouts and actions and touches no list.

* `cookie_index_eq_scan_iff` — the cookie index gives the rules that a scan of the tables gives
  exactly if those in hidden tables do not matter.
* `timeouts_expirable` — rules with timeouts are on the list, as long as no flow is added with a
  timeout over one that is not on it.
* `meters_listed` — the lists of the meters are those of the rules that use them, as long as no
  modification changes the meter of a rule.
* `group_deleted_iff` — groups are deleted with all the flows that name them, if these are in the
  first table and output to one of them where `ofpacts_output_to_group()` looks.

Each comes with an execution that shows why the condition is there.
-/

namespace OVS

namespace Ofproto

open List Function Option GroupTable

variable {w : ℕ} {C : Config w}

/-- What can happen to a switch, with flow mods that satisfy `P`. -/
inductive Step (C : Config w) (P : Switch w → FlowMod w → Prop) : Switch w → Switch w → Prop where
  | flowMod {s : Switch w} (fm : FlowMod w) : P s fm → Step C P s (handleFlowMod C s fm).1
  | meterMod {s : Switch w} (mm : MeterMod) : Step C P s (handleMeterMod C s mm).1
  | groupMod {s s' : Switch w} {gm : GroupMod} : s.handleGroupMod C gm = some (.ok s') →
      Step C P s s'
  | reduceTimeouts {s : Switch w} {r : Rule w} (idleTimeout hardTimeout : ℕ) : r ∈ s.rules →
      Step C P s (ruleReduceTimeouts s r idleTimeout hardTimeout)
  | expire {s : Switch w} {r : Rule w} : r ∈ s.rules → r.id ∈ s.expirable →
      Step C P s (ruleExpire C s r)

/-- The switches that can be reached. -/
def Reachable (C : Config w) (P : Switch w → FlowMod w → Prop) (s : Switch w) : Prop :=
  Relation.ReflTransGen (Step C P) Switch.empty s

variable {P : Switch w → Prop} {s : Switch w} {r : Rule w} {s' : Switch w}

/-- Deleting the flows of a group is a flow modification that only removes rules. -/
lemma Closed.groupFlowMod (hP : Closed P) (h : P s) (g : ℕ) :
    P (handleFlowMod C s (Ofproto.groupFlowMod g)).1 := by
  show P (deleteFlowsLoose C s (Ofproto.groupFlowMod g)).1
  unfold deleteFlowsLoose
  split
  · exact h
  · exact hP.deleteFlows h _

/-- What survives removals and does not depend on groups survives the deletion of groups. -/
lemma Closed.deleteGroup (hP : Closed P)
    (hgroups : ∀ (s : Switch w) (t : GroupTable), P s → P { s with groups := t }) (h : P s)
    (id : ℕ) : P (s.deleteGroup C id) := by
  have hone : ∀ (s : Switch w) (g : Group), P s → P (s.deleteOneGroup C g) := fun s g h =>
    hgroups _ _ (hP.groupFlowMod h g.groupId)
  unfold Switch.deleteGroup
  split
  · exact foldlRecOn _ _ h fun s hs g _ => hone s g hs
  · split
    · exact h
    · exact hone s _ h

/-- A group modification writes the group table and, if it deletes, removes rules. -/
lemma Closed.handleGroupMod (hP : Closed P)
    (hgroups : ∀ (s : Switch w) (t : GroupTable), P s → P { s with groups := t }) {gm : GroupMod}
    (h : P s) (hok : s.handleGroupMod C gm = some (.ok s')) : P s' := by
  unfold Switch.handleGroupMod at hok
  split at hok
  · obtain rfl := Except.ok.inj (some.inj hok)
    exact hP.deleteGroup hgroups h _
  · obtain ⟨r, -, hr⟩ := map_eq_some_iff.1 hok
    cases r with
    | error e => cases hr
    | ok t =>
      obtain rfl := Except.ok.inj hr
      exact hgroups s t h

/-- A meter mod changes nothing that is modelled, adds a meter or deletes meters. -/
lemma handleMeterMod_cases (s : Switch w) (mm : MeterMod) :
    (handleMeterMod C s mm).1 = s ∨
    (∃ m, m ≠ 0 ∧ m ≤ C.maxMeters ∧ s.meters m = none ∧
      (handleMeterMod C s mm).1 = { s with meters := update s.meters m (some []) }) ∨
    (∃ first last, first ≠ 0 ∧ last ≤ C.maxMeters ∧
      (handleMeterMod C s mm).1 = deleteMeters C s first last) := by
  unfold handleMeterMod
  by_cases hdelete : mm.command = .delete
  · rw [if_pos hdelete]
    unfold handleDeleteMeter
    split_ifs with hall hrange
    · exact .inr (.inr ⟨1, C.maxMeters, one_ne_zero, le_rfl, rfl⟩)
    · exact .inl rfl
    · rw [not_or, not_lt] at hrange
      exact .inr (.inr ⟨mm.meterId, mm.meterId, hrange.1, hrange.2, rfl⟩)
  · rw [if_neg hdelete]
    split_ifs with hzero hmax hbands hadd
    · exact .inl rfl
    · exact .inl rfl
    · exact .inl rfl
    · unfold handleAddMeter
      cases hmeter : s.meters mm.meterId with
      | some l => exact .inl rfl
      | none =>
        by_cases hset : mm.accepted = true
        · rw [not_or] at hzero
          exact .inr (.inl ⟨mm.meterId, hzero.1, not_lt.1 hmax, hmeter, by simp [hset]⟩)
        · exact .inl (by simp [hset])
    · unfold handleModifyMeter
      cases s.meters mm.meterId with
      | none => exact .inl rfl
      | some l => exact .inl (by simp only; split <;> rfl)

/-- The rules that go with a range of meters are those listed with one of them. -/
lemma mem_meterRules {first last id : ℕ} :
    id ∈ meterRules s first last ↔ ∃ m l, first ≤ m ∧ m ≤ last ∧ s.meters m = some l ∧ id ∈ l := by
  simp only [meterRules, mem_flatMap, mem_range'_1]
  constructor
  · rintro ⟨m, ⟨hle, hlt⟩, hid⟩
    cases hm : s.meters m with
    | none => simp [hm] at hid
    | some l => exact ⟨m, l, hle, by omega, hm, by simpa [hm] using hid⟩
  · rintro ⟨m, l, hle, hge, hm, hid⟩
    exact ⟨m, ⟨hle, by omega⟩, by simpa [hm] using hid⟩

variable {P : Switch w → FlowMod w → Prop} {fm : FlowMod w} {r : Rule w}

namespace Switch.Wf

variable {s : Switch w} (hs : s.Wf C)
include hs

/-- Only rules, the next identity and the cookie index matter. -/
lemma congr (hrules : s'.rules = s.rules) (hnext : s'.next = s.next)
    (hcookies : s'.cookies = s.cookies) : s'.Wf C where
  ids := hrules ▸ hs.ids
  fresh := by rw [hrules, hnext]; exact hs.fresh
  keys := hrules ▸ hs.keys
  tables := hrules ▸ hs.tables
  index := hcookies ▸ hs.index
  cookies := by rw [hrules, hcookies]; exact hs.cookies

lemma ruleReduceTimeouts (hr : r ∈ s.rules) (idleTimeout hardTimeout : ℕ) :
    (ruleReduceTimeouts s r idleTimeout hardTimeout).Wf C := by
  unfold Ofproto.ruleReduceTimeouts
  split
  · exact hs
  · exact hs.set_of_cookie (q := r.reduced idleTimeout hardTimeout) hr rfl rfl rfl rfl rfl rfl rfl

lemma step (h : Step C P s s') : s'.Wf C := by
  cases h with
  | flowMod fm _ => exact hs.handleFlowMod fm
  | meterMod mm =>
    rcases handleMeterMod_cases s mm with h | ⟨m, -, -, -, h⟩ | ⟨i, j, -, -, h⟩
    · rwa [h]
    · rw [h]
      exact hs.congr rfl rfl rfl
    · rw [h]
      exact (closed.deleteFlows hs (meterRules s i j)).congr rfl rfl rfl
  | groupMod hok => exact closed.handleGroupMod (fun _ _ h => h.congr rfl rfl rfl) hs hok
  | reduceTimeouts i j hr => exact hs.ruleReduceTimeouts hr i j
  | expire hr _ => exact closed.deleteFlows hs _

omit hs in
lemma empty : (Switch.empty : Switch w).Wf C where
  ids := nodup_nil
  fresh _ h := absurd h not_mem_nil
  keys _ h := absurd h not_mem_nil
  tables _ h := absurd h not_mem_nil
  index := nodup_nil
  cookies := by simp [Switch.empty]

end Switch.Wf

/-- What one step keeps, given that the switch is well-formed, holds of everything that can be
reached. -/
lemma Reachable.induct {Q : Switch w → Prop} (hempty : Q Switch.empty)
    (hstep : ∀ {s s' : Switch w}, s.Wf C → Q s → Step C P s s' → Q s') (h : Reachable C P s) :
    s.Wf C ∧ Q s := by
  induction h with
  | refl => exact ⟨Switch.Wf.empty, hempty⟩
  | tail _ hs ih => exact ⟨ih.1.step hs, hstep ih.1 ih.2 hs⟩

/-! ## The cookie index -/

/-- `collect_rules_loose()`, if it did not use the cookie index. -/
def scanRulesLoose (C : Config w) (s : Switch w) (c : RuleCriteria w) : Except FlowError (List ℕ) :=
  if checkTableId C c.tableId = false then .error .badTableId else collect C c (looseScan C s c)

/-- `collect_rules_strict()`, if it did not use the cookie index. -/
def scanRulesStrict (C : Config w) (s : Switch w) (c : RuleCriteria w) :
    Except FlowError (List ℕ) :=
  if checkTableId C c.tableId = false then .error .badTableId else collect C c (strictScan C s c)

/-- **The cookie index makes no difference** if and only if the rules of hidden tables that match
the criteria do not matter. -/
theorem cookie_index_eq_scan_iff {s : Switch w} (h : Reachable C (fun _ _ => True) s)
    (c : RuleCriteria w) (hmask : c.cookieMask = be64Max) :
    (SameRules (collectRulesLoose C s c) (scanRulesLoose C s c) ↔
        c.HiddenHarmless C s fun r => r.cr.minimatch.Loose c.cr.minimatch) ∧
      (SameRules (collectRulesStrict C s c) (scanRulesStrict C s c) ↔
        c.HiddenHarmless C s fun r => r.cr = c.cr) := by
  have hs := (h.induct (Q := fun _ => True) trivial fun _ _ _ => trivial).1
  unfold collectRulesLoose collectRulesStrict scanRulesLoose scanRulesStrict
  simp only [if_pos hmask]
  split
  · next hcheck =>
    have hall : c.tableId ≠ 0xff := fun hall => by simp [checkTableId, hall] at hcheck
    exact ⟨iff_of_true (.error _) fun h => absurd h hall,
      iff_of_true (.error _) fun h => absurd h hall⟩
  · exact ⟨hs.collect_withCookie_iff hs.nodup_looseScan (fun r => hs.mem_looseScan) hmask,
      hs.collect_withCookie_iff hs.nodup_strictScan (fun r => hs.mem_strictScan) hmask⟩

/-- The flows with cookie 0. -/
def zeroCookie (tableId : ℕ) : RuleCriteria 8 :=
  ruleCriteriaInit tableId Match.catchall 0 0 be64Max ofppAny ofpgAny false

/-- The second table is hidden, and there is a flow in each. -/
def hiddenSwitch (cookie : BitVec 64) : Config 8 × Switch 8 :=
  let C := { plainConfig with hidden := fun t => t = 1 }
  (C, (handleFlowMod C (handleFlowMod C .empty (plainFlowMod .add 0 5 0 [])).1
    (plainFlowMod .add 1 5 cookie [])).1)

lemma reachable_hiddenSwitch (cookie : BitVec 64) :
    Reachable (hiddenSwitch cookie).1 (fun _ _ => True) (hiddenSwitch cookie).2 :=
  .tail (.tail .refl (.flowMod _ trivial)) (.flowMod _ trivial)

/-- The flow in the hidden table has another cookie. -/
theorem cookie_index_eq_scan_iff_cookie :
    let C := (hiddenSwitch 3).1
    let s := (hiddenSwitch 3).2
    s.rules.length = 2 ∧ collectRulesLoose C s (zeroCookie 0xff) = .ok [0] ∧
      SameRules (collectRulesLoose C s (zeroCookie 0xff))
        (scanRulesLoose C s (zeroCookie 0xff)) := by
  intro C s
  have hcookie : ∀ r ∈ s.rules, C.hidden r.tableId = true →
      (zeroCookie 0xff).accepts r = false := by decide +kernel
  refine ⟨by decide +kernel, by decide +kernel,
    (cookie_index_eq_scan_iff (reachable_hiddenSwitch 3) _ rfl).1.2 fun _ r hr hhidden hacc => ?_⟩
  cases (hcookie r hr hhidden).symm.trans hacc

/-- **The cookie index finds a flow in a hidden table**, which the scan leaves out. -/
theorem cookie_index_hidden :
    Reachable (hiddenSwitch 0).1 (fun _ _ => True) (hiddenSwitch 0).2 ∧
      collectRulesLoose (hiddenSwitch 0).1 (hiddenSwitch 0).2 (zeroCookie 0xff) = .ok [1, 0] ∧
      scanRulesLoose (hiddenSwitch 0).1 (hiddenSwitch 0).2 (zeroCookie 0xff) = .ok [0] :=
  ⟨reachable_hiddenSwitch 0, by decide +kernel, by decide +kernel⟩

/-! ## Timeouts -/

/-- Every rule with a timeout is on the list of the rules that can expire. -/
def Expiring (s : Switch w) : Prop :=
  ∀ r ∈ s.rules, r.idleTimeout ≠ 0 ∨ r.hardTimeout ≠ 0 → r.id ∈ s.expirable

/-- A flow that is added with a timeout replaces only a flow that is on the list. -/
def ReplacesExpirable (s : Switch w) (fm : FlowMod w) : Prop :=
  fm.command = .add → fm.idleTimeout ≠ 0 ∨ fm.hardTimeout ≠ 0 →
    ∀ r ∈ s.rules, r.tableId = fm.target → r.cr = fm.cr → r.id ∈ s.expirable

lemma closed_expirable (T : Rule w → Prop) :
    Closed fun s : Switch w => ∀ r ∈ s.rules, T r → r.id ∈ s.expirable where
  remove _ h r hr ht :=
    mem_filter.2 ⟨h r (mem_of_mem_filter hr) ht, by simpa using (mem_filter.1 hr).2⟩
  learned _ h := h

lemma Expiring.closed : Closed fun s : Switch w => Expiring s := closed_expirable _

/-- A flow modification keeps the list complete if a rule it gives a timeout to was on the list.
-/
lemma Expiring.handleFlowMod (hs : s.Wf C) (h : Expiring s) (hfm : ReplacesExpirable s fm) :
    Expiring (handleFlowMod C s fm).1 := by
  -- the rules that the flow mod may give a timeout are on the list as well
  refine fun r hr ht => handleFlowMod_induct (closed_expirable fun r =>
    (r.idleTimeout ≠ 0 ∨ r.hardTimeout ≠ 0) ∨ fm.command = .add ∧
      (fm.idleTimeout ≠ 0 ∨ fm.hardTimeout ≠ 0) ∧ r.tableId = fm.target ∧ r.cr = fm.cr)
    hs ?_ (fun b s' r _ h' _ hr htouch x hx ht => ?_) (fun s' _ h' _ _ _ x hx ht => ?_) r hr
    (.inl ht)
  · rintro r hr (ht | ⟨hadd, ht, htable, hcr⟩)
    · exact h r hr ht
    · exact hfm hadd ht r hr htable hcr
  · rw [modifyRule_expirable]
    rcases (Switch.mem_modifyRule hr).1 hx with rfl | ⟨hx, -⟩
    · refine h' r hr ?_
      by_cases hadd : fm.command = .add
      · simp only [modified, hadd] at ht
        simp only [FlowMod.Touches, hadd] at htouch
        exact .inr ⟨hadd, ht.elim id fun ht => ht.2.1, htouch⟩
      · simpa only [modified, hadd, if_false, false_and, or_false] using ht
    · exact h' x hx ht
  · rw [insertRule_rules] at hx
    rw [insertRule_expirable]
    rcases mem_cons.1 hx with rfl | hx
    · have ht : fm.idleTimeout ≠ 0 ∨ fm.hardTimeout ≠ 0 := ht.elim id fun ht => ht.2.1
      rw [if_pos ht.symm]
      exact mem_cons_self
    · have := h' x hx ht
      split
      · exact mem_cons_of_mem _ this
      · exact this

/-- A timeout that is reduced was there before, or the rule is entered in the list. -/
lemma Expiring.ruleReduceTimeouts (h : Expiring s) (hr : r ∈ s.rules)
    (idleTimeout hardTimeout : ℕ) : Expiring (ruleReduceTimeouts s r idleTimeout hardTimeout) := by
  unfold Ofproto.ruleReduceTimeouts
  split
  · exact h
  · intro x hx ht
    have hlisted : x.id ∈ s.expirable ∨ x.id = r.id := by
      rcases (Switch.mem_set (q := r.reduced idleTimeout hardTimeout) hr rfl).1 hx with
        rfl | ⟨hx, -⟩
      · exact .inr rfl
      · exact .inl (h x hx ht)
    split
    · exact hlisted.elim id fun he => he ▸ ‹_›
    · exact hlisted.elim (mem_cons_of_mem _) fun he => he ▸ mem_cons_self

/-- **Every flow with a timeout can expire**, as long as a flow with a timeout never replaces one
that is not on the list. -/
theorem timeouts_expirable {s : Switch w} (h : Reachable C ReplacesExpirable s) :
    ∀ r ∈ s.rules, r.idleTimeout ≠ 0 ∨ r.hardTimeout ≠ 0 → r.id ∈ s.expirable := by
  refine (Reachable.induct (Q := Expiring) (fun _ h => absurd h not_mem_nil) ?_ h).2
  intro s s' hs h hstep
  cases hstep with
  | flowMod _ hfm => exact h.handleFlowMod hs hfm
  | meterMod mm =>
    rcases handleMeterMod_cases s mm with he | ⟨m, -, -, -, he⟩ | ⟨i, j, -, -, he⟩
    · rwa [he]
    · rwa [he]
    · rw [he]
      exact Expiring.closed.deleteFlows h (meterRules s i j)
  | groupMod hok => exact Expiring.closed.handleGroupMod (fun _ _ h => h) h hok
  | reduceTimeouts i j hr => exact h.ruleReduceTimeouts hr i j
  | expire hr _ => exact Expiring.closed.deleteFlows h _

theorem timeouts_expirable_plainConfig :
    ∃ s, Reachable plainConfig ReplacesExpirable s ∧
      s.rules.map (fun r => (r.idleTimeout, r.hardTimeout)) = [(0, 5)] ∧
      ∀ r ∈ s.rules, r.idleTimeout ≠ 0 ∨ r.hardTimeout ≠ 0 → r.id ∈ s.expirable := by
  have hreach : Reachable plainConfig ReplacesExpirable _ :=
    .tail (.tail .refl (.flowMod { plainFlowMod .add 0 5 1 [] with idleTimeout := 10 }
        (by unfold ReplacesExpirable; decide +kernel)))
      (.flowMod { plainFlowMod .add 0 5 1 [] with hardTimeout := 5 }
        (by unfold ReplacesExpirable; decide +kernel))
  exact ⟨_, hreach, by decide +kernel, timeouts_expirable hreach⟩

/-- **A flow with a timeout that never expires**: it has been added over one without. -/
theorem timeout_not_expirable :
    ∃ s, Reachable plainConfig (fun _ _ => True) s ∧
      s.rules.map (fun r => (r.idleTimeout, r.hardTimeout)) = [(10, 0)] ∧ s.expirable = [] := by
  have hreach : Reachable plainConfig (fun _ _ => True) _ :=
    .tail (.tail .refl (.flowMod (plainFlowMod .add 0 5 1 []) trivial))
      (.flowMod { plainFlowMod .add 0 5 1 [] with idleTimeout := 10 } trivial)
  exact ⟨_, hreach, by decide +kernel, by decide +kernel⟩

/-! ## Meters -/

/-- The list of a meter is that of the rules that use it. -/
structure MeterLists (C : Config w) (s : Switch w) : Prop where
  listed : ∀ r ∈ s.rules, ofpactsGetMeter r.ofpacts ≠ 0 →
    ∃ l, s.meters (ofpactsGetMeter r.ofpacts) = some l ∧ r.id ∈ l
  users : ∀ m l, s.meters m = some l → ∀ id ∈ l,
    ∃ r ∈ s.rules, r.id = id ∧ ofpactsGetMeter r.ofpacts = m
  range : ∀ m l, s.meters m = some l → m ≠ 0 ∧ m ≤ C.maxMeters

/-- The actions of a flow mod are checked, and the rules that it modifies keep their meter. -/
def KeepsMeter (C : Config w) (s : Switch w) (fm : FlowMod w) : Prop :=
  ofprotoCheckOfpacts C s fm.ofpacts = none ∧
    ∀ r ∈ s.rules, fm.Touches r → ofpactsGetMeter r.ofpacts = ofpactsGetMeter fm.ofpacts

namespace MeterLists

variable {s : Switch w}

lemma closed : Closed fun s : Switch w => MeterLists C s where
  remove {s} id h := by
    refine ⟨fun r hr hm => ?_, fun m l' hl' i hi => ?_, fun m l' hl' => ?_⟩
    · obtain ⟨hr, hne⟩ := mem_filter.1 hr
      obtain ⟨l, hl, hid⟩ := h.listed r hr hm
      exact ⟨_, congrArg (Option.map _) hl, mem_filter.2 ⟨hid, hne⟩⟩
    · obtain ⟨l, hl, rfl⟩ := map_eq_some_iff.1 hl'
      obtain ⟨hi, hne⟩ := mem_filter.1 hi
      obtain ⟨r, hr, rfl, hm⟩ := h.users m l hl i hi
      exact ⟨r, mem_filter.2 ⟨hr, by simpa using hne⟩, rfl, hm⟩
    · obtain ⟨l, hl, -⟩ := map_eq_some_iff.1 hl'
      exact h.range m l hl
  learned _ h := { h with }

section

variable (h : MeterLists C s)
include h

/-- A rule that keeps its meter may change. -/
lemma set (hs : s.Wf C) {r q : Rule w} (hr : r ∈ s.rules) (hid : q.id = r.id)
    (hmeter : ofpactsGetMeter q.ofpacts = ofpactsGetMeter r.ofpacts)
    (hrules : s'.rules = (s.set q).rules) (hmeters : s'.meters = s.meters) : MeterLists C s' := by
  have hmem : ∀ x, x ∈ s'.rules ↔ x = q ∨ x ∈ s.rules ∧ x.id ≠ q.id := fun x =>
    hrules ▸ Switch.mem_set hr hid
  refine ⟨fun x hx hm => ?_, fun m l hl i hi => ?_, fun m l hl => ?_⟩
  · rw [hmeters]
    rcases (hmem x).1 hx with rfl | ⟨hx, -⟩
    · rw [hmeter] at hm ⊢
      rw [hid]
      exact h.listed r hr hm
    · exact h.listed x hx hm
  · rw [hmeters] at hl
    obtain ⟨x, hx, rfl, hm⟩ := h.users m l hl i hi
    by_cases hsame : x.id = q.id
    · obtain rfl := hs.eq_of_id hx hr (hsame.trans hid)
      exact ⟨q, (hmem q).2 (.inl rfl), hid, hmeter.trans hm⟩
    · exact ⟨x, (hmem x).2 (.inr ⟨hx, hsame⟩), rfl, hm⟩
  · rw [hmeters] at hl
    exact h.range m l hl

lemma insertRule (hmeter : ofpactsGetMeter fm.ofpacts ≠ 0 →
      (s.meters (ofpactsGetMeter fm.ofpacts)).isSome = true) :
    MeterLists C (insertRule C s fm) := by
  refine ⟨fun x hx hm => ?_, fun m l hl id hid => ?_, fun m l hl => ?_⟩
  · rw [insertRule_meters]
    rw [insertRule_rules] at hx
    rcases mem_cons.1 hx with rfl | hx
    · obtain ⟨l, hl⟩ := isSome_iff_exists.1 (hmeter hm)
      rw [if_pos ⟨rfl, hm⟩]
      exact ⟨s.next :: l, congrArg (Option.map _) hl, mem_cons_self⟩
    · obtain ⟨l, hl, hid⟩ := h.listed x hx hm
      split
      · exact ⟨s.next :: l, congrArg (Option.map _) hl, mem_cons_of_mem _ hid⟩
      · exact ⟨l, hl, hid⟩
  · have hold : ∀ l, s.meters m = some l → id ∈ l →
        ∃ r ∈ fm.rule s.next :: s.rules, r.id = id ∧ ofpactsGetMeter r.ofpacts = m := by
      intro l hl hid
      obtain ⟨x, hx, hxm⟩ := h.users m l hl id hid
      exact ⟨x, mem_cons_of_mem _ hx, hxm⟩
    rw [insertRule_meters] at hl
    rw [insertRule_rules]
    split_ifs at hl with hm
    · obtain ⟨l', hl', rfl⟩ := map_eq_some_iff.1 hl
      rcases mem_cons.1 hid with rfl | hid
      · exact ⟨fm.rule s.next, mem_cons_self, rfl, hm.1.symm⟩
      · exact hold l' hl' hid
    · exact hold l hl hid
  · rw [insertRule_meters] at hl
    split_ifs at hl
    · obtain ⟨l, hl, -⟩ := map_eq_some_iff.1 hl
      exact h.range m l hl
    · exact h.range m l hl

/-- A flow modification keeps the lists right if the rules it modifies keep their meters. -/
lemma handleFlowMod (hs : s.Wf C) (hfm : KeepsMeter C s fm) :
    MeterLists C (handleFlowMod C s fm).1 := by
  -- meters neither come nor go
  have hclosed : Closed fun s' : Switch w =>
      MeterLists C s' ∧ ∀ m, (s'.meters m).isSome = (s.meters m).isSome :=
    { remove := fun id h => ⟨closed.remove id h.1, fun m => by
        rw [← h.2 m]
        simp [Switch.remove]⟩
      learned := fun l h => ⟨closed.learned l h.1, h.2⟩ }
  refine (handleFlowMod_induct hclosed hs ⟨h, fun _ => rfl⟩
    (fun b s' r hs' h' hr hr' htouch => ?_) fun s' _ h' _ _ _ => ?_).1
  · refine ⟨h'.1.set hs' (q := modified { fm with modifyCookie := b } r) hr' rfl
      (hfm.2 r hr htouch).symm (modifyRule_rules ..) (modifyRule_meters ..), fun m => ?_⟩
    rw [modifyRule_meters]
    exact h'.2 m
  · refine ⟨h'.1.insertRule fun hm => ?_, fun m => ?_⟩
    · rw [h'.2]
      -- the meter exists, as has been checked
      have hchecked := hfm.1
      unfold ofprotoCheckOfpacts at hchecked
      split_ifs at hchecked with hmissing
      have hexists : meterExists C s (ofpactsGetMeter fm.ofpacts) = true := by
        by_contra hne
        exact hmissing ⟨hm, by simpa using hne⟩
      simp only [meterExists, Bool.and_eq_true] at hexists
      exact hexists.2
    · rw [insertRule_meters, ← h'.2 m]
      split <;> simp

/-- A new meter starts with an empty list, and no rule can name it yet. -/
lemma addMeter {m : ℕ} (hzero : m ≠ 0) (hmax : m ≤ C.maxMeters) (hnone : s.meters m = none) :
    MeterLists C { s with meters := update s.meters m (some []) } := by
  refine ⟨fun r hr hm => ?_, fun m' l hl id hid => ?_, fun m' l hl => ?_⟩
  · obtain ⟨l, hl, hid⟩ := h.listed r hr hm
    have hne : ofpactsGetMeter r.ofpacts ≠ m := fun he => by simp [he, hnone] at hl
    exact ⟨l, (update_of_ne hne _ _).trans hl, hid⟩
  · by_cases hsame : m' = m
    · subst hsame
      obtain rfl : [] = l := by simpa using hl
      exact absurd hid not_mem_nil
    · exact h.users m' l ((update_of_ne hsame _ _).symm.trans hl) id hid
  · by_cases hsame : m' = m
    · exact hsame ▸ ⟨hzero, hmax⟩
    · exact h.range m' l ((update_of_ne hsame _ _).symm.trans hl)

/-- A rule that uses one of the meters is on its list, and goes. -/
lemma not_between {first last : ℕ} (hr : r ∈ (Ofproto.deleteMeters C s first last).rules)
    (hm : ofpactsGetMeter r.ofpacts ≠ 0) :
    ¬(first ≤ ofpactsGetMeter r.ofpacts ∧ ofpactsGetMeter r.ofpacts ≤ last) := by
  rintro ⟨hfirst, hlast⟩
  have hsub : (deleteFlows C s (meterRules s first last)).rules ⊆ s.rules :=
    (closed_subset s.rules).deleteFlows (fun _ hr => hr) _
  obtain ⟨l, hl, hid⟩ := h.listed r (hsub hr) hm
  exact deleteFlows_gone s (mem_meterRules.2 ⟨_, l, hfirst, hlast, hl, hid⟩) r hr rfl

/-- Nothing but rules that use one of the meters goes. -/
lemma mem_deleteMeters (hs : s.Wf C) (hlearn : NoLearn s) {first last : ℕ} (hr : r ∈ s.rules)
    (hm : ¬(first ≤ ofpactsGetMeter r.ofpacts ∧ ofpactsGetMeter r.ofpacts ≤ last)) :
    r ∈ (Ofproto.deleteMeters C s first last).rules := by
  show r ∈ (deleteFlows C s (meterRules s first last)).rules
  rw [deleteFlows_rules hlearn, mem_filter, decide_eq_true_eq]
  refine ⟨hr, fun hid => hm ?_⟩
  obtain ⟨m, l, hfirst, hlast, hl, hid⟩ := mem_meterRules.1 hid
  obtain ⟨x, hx, hxid, rfl⟩ := h.users m l hl r.id hid
  rw [hs.eq_of_id hr hx hxid.symm]
  exact ⟨hfirst, hlast⟩

/-- Meters are deleted with the rules that use them. -/
lemma deleteMeters (first last : ℕ) : MeterLists C (deleteMeters C s first last) := by
  have h' : MeterLists C (deleteFlows C s (meterRules s first last)) := closed.deleteFlows h _
  refine ⟨fun r hr hm => ?_, fun m l hl => ?_, fun m l hl => ?_⟩
  · obtain ⟨l, hl, hid⟩ := h'.listed r hr hm
    exact ⟨l, (if_neg (h.not_between hr hm)).trans hl, hid⟩
  · simp only [Ofproto.deleteMeters, meterDelete] at hl
    split_ifs at hl
    exact h'.users m l hl
  · simp only [Ofproto.deleteMeters, meterDelete] at hl
    split_ifs at hl
    exact h'.range m l hl

lemma step (hs : s.Wf C) (hstep : Step C (KeepsMeter C) s s') : MeterLists C s' := by
  cases hstep with
  | flowMod _ hfm => exact h.handleFlowMod hs hfm
  | meterMod mm =>
    rcases handleMeterMod_cases s mm with he | ⟨m, hz, hmax, hm, he⟩ | ⟨i, j, -, -, he⟩
    · rwa [he]
    · rw [he]
      exact h.addMeter hz hmax hm
    · rw [he]
      exact h.deleteMeters i j
  | groupMod hok =>
    exact closed.handleGroupMod (fun _ _ h => { h with }) h hok
  | reduceTimeouts i j hr =>
    unfold Ofproto.ruleReduceTimeouts
    split
    · exact h
    · exact h.set hs (q := Rule.reduced _ i j) hr rfl rfl rfl rfl
  | expire hr _ => exact closed.deleteFlows h _

end

end MeterLists

/-- The meters that `handle_delete_meter()` is asked to delete. -/
def DeletesMeter (meterId m : ℕ) : Prop := m ≠ 0 ∧ (meterId = ofpmAll ∨ m = meterId)

/-- **Meters go with the flows that use them**, as long as modifications keep the meter of a flow:
every flow that uses a meter is on its list and no other flow is, so that no flow is left that
uses a meter that is deleted, and no other flow is deleted. -/
theorem meters_listed {s : Switch w} (h : Reachable C (KeepsMeter C) s) :
    MeterLists C s ∧ ∀ meterId, (∀ r ∈ (handleDeleteMeter C s meterId).rules,
        ¬DeletesMeter meterId (ofpactsGetMeter r.ofpacts)) ∧
      (NoLearn s → ∀ r ∈ s.rules, ¬DeletesMeter meterId (ofpactsGetMeter r.ofpacts) →
        r ∈ (handleDeleteMeter C s meterId).rules) := by
  obtain ⟨hs, hlists⟩ := Reachable.induct (Q := MeterLists C)
    ⟨fun _ h => absurd h not_mem_nil, fun _ _ h => absurd h (by simp [Switch.empty]),
      fun _ _ h => absurd h (by simp [Switch.empty])⟩ (fun hs h hstep => h.step hs hstep) h
  have hmax : ∀ r ∈ s.rules, ofpactsGetMeter r.ofpacts ≠ 0 →
      ofpactsGetMeter r.ofpacts ≤ C.maxMeters := by
    intro r hr hm
    obtain ⟨l, hl, -⟩ := hlists.listed r hr hm
    exact (hlists.range _ l hl).2
  have hsub : ∀ first last, (deleteMeters C s first last).rules ⊆ s.rules := fun first last =>
    (closed_subset s.rules).deleteFlows (fun _ hr => hr) _
  refine ⟨hlists, fun meterId => ?_⟩
  unfold handleDeleteMeter DeletesMeter
  by_cases hall : meterId = ofpmAll
  · simp only [hall, true_or, and_true]
    refine ⟨fun r hr hm => ?_, fun hlearn r hr hm => ?_⟩
    · exact hlists.not_between hr hm ⟨Nat.one_le_iff_ne_zero.2 hm, hmax r (hsub _ _ hr) hm⟩
    · exact hlists.mem_deleteMeters hs hlearn hr fun hbetween => hm (by omega)
  · by_cases hrange : meterId = 0 ∨ meterId > C.maxMeters
    · simp only [hall, hrange, false_or]
      refine ⟨fun r hr hm => ?_, fun _ r hr _ => hr⟩
      have := hmax r hr hm.1
      omega
    · simp only [hall, hrange, false_or]
      refine ⟨fun r hr hm => ?_, fun hlearn r hr hm => ?_⟩
      · exact hlists.not_between hr hm.1 ⟨hm.2.ge, hm.2.le⟩
      · refine hlists.mem_deleteMeters hs hlearn hr fun hbetween => hm ?_
        omega

theorem meters_listed_plainConfig :
    ∃ s, Reachable plainConfig (KeepsMeter plainConfig) s ∧
      s.rules.map (fun r => ofpactsGetMeter r.ofpacts) = [1, 0] ∧
      (handleDeleteMeter plainConfig s 1).rules.map (fun r => ofpactsGetMeter r.ofpacts) = [0] ∧
      MeterLists plainConfig s := by
  have hfirst : KeepsMeter plainConfig
      (handleMeterMod plainConfig Switch.empty ⟨.add, 1, 0, true⟩).1 (plainFlowMod .add 0 5 1 []) :=
    ⟨by decide +kernel, fun _ h => absurd h not_mem_nil⟩
  have hreach : Reachable plainConfig (KeepsMeter plainConfig) _ :=
    .tail (.tail (.tail .refl (.meterMod ⟨.add, 1, 0, true⟩)) (.flowMod _ hfirst))
      (.flowMod (plainFlowMod .add 0 6 1 [.action (.meter 1)])
        ⟨by decide +kernel, show ∀ r ∈ Switch.rules _, r.tableId = _ ∧ r.cr = _ → _ by
          decide +kernel⟩)
  exact ⟨_, hreach, by decide +kernel, by decide +kernel, (meters_listed hreach).1⟩

/-- **A flow that uses a meter that has been deleted**: it has been modified to use it. -/
theorem meter_left_dangling :
    ∃ s, Reachable plainConfig (fun s fm => ofprotoCheckOfpacts plainConfig s fm.ofpacts = none) s ∧
      s.rules.map (fun r => ofpactsGetMeter r.ofpacts) = [1] ∧ s.meters 1 = none := by
  have hreach : Reachable plainConfig
      (fun s fm => ofprotoCheckOfpacts plainConfig s fm.ofpacts = none) _ :=
    .tail (.tail (.tail (.tail .refl (.meterMod ⟨.add, 1, 0, true⟩))
      (.flowMod (plainFlowMod .add 0 5 1 []) (by decide +kernel)))
      (.flowMod (plainFlowMod .modify 0 5 1 [.action (.meter 1)]) (by decide +kernel)))
      (.meterMod ⟨.delete, 1, 0, true⟩)
  exact ⟨_, hreach, by decide +kernel, by decide +kernel⟩

/-! ## Groups -/

/-- A rule that OpenFlow clients can modify. -/
def Modifiable (C : Config w) (r : Rule w) : Prop :=
  C.readonly r.tableId = false ∧ r.isHidden = false

instance (C : Config w) (r : Rule w) : Decidable (Modifiable C r) :=
  inferInstanceAs (Decidable (_ ∧ _))

/-- A group is named by the actions, at the top level or inside a `write_actions` instruction. -/
def Names (g : ℕ) (ofpacts : List Ofpact) : Prop := ∃ a ∈ ofpacts, a.names g = true

instance (g : ℕ) (ofpacts : List Ofpact) : Decidable (Names g ofpacts) :=
  inferInstanceAs (Decidable (∃ a ∈ ofpacts, a.names g = true))

/-- A rule that is visited, accepted and writable is among those collected. -/
lemma mem_collect {c : RuleCriteria w} {candidates : List (Rule w)} (hr : r ∈ candidates)
    (ha : c.accepts r = true) (hw : C.readonly r.tableId = false) :
    ∃ ids, collect C c candidates = .ok ids ∧ r.id ∈ ids := by
  have hmem : r ∈ (candidates.filter c.accepts).filter
      fun r => !C.readonly r.tableId || c.includeReadonly := by
    simp [hr, ha, hw]
  refine ⟨_, if_neg fun h => ?_, mem_map.2 ⟨r, hmem, rfl⟩⟩
  rw [h.1] at hmem
  exact absurd hmem not_mem_nil

/-- The flow mod for a group deletes the flows of the first table that output to it. -/
lemma groupFlowMod_gone (s : Switch w) {g : ℕ} (hr : r ∈ s.rules) (hmod : Modifiable C r)
    (htable : r.tableId = 0) (hgroup : r.hasOutGroup g = true) :
    r ∉ (handleFlowMod C s (groupFlowMod g)).1.rules := by
  show r ∉ (deleteFlowsLoose C s (groupFlowMod g)).1.rules
  have hcheck : checkTableId C 0 = true := by simp [checkTableId, C.nTables_pos]
  have hcandidate : r ∈ (matchingTables C 0).flatMap fun t =>
      s.rules.filter fun r => r.tableId = t ∧ r.cr.minimatch.Loose Match.catchall := by
    refine mem_flatMap.2 ⟨0, mem_matchingTables.2 ⟨C.nTables_pos, .inl rfl⟩, ?_⟩
    simp [hr, htable]
  obtain ⟨ids, hcollect, hid⟩ := mem_collect
    (c := ruleCriteriaInit 0 Match.catchall 0 0 0 ofppAny g false) hcandidate
    (RuleCriteria.accepts_iff.2 ⟨.inl htable.symm, by simp [ruleCriteriaInit, FlowEntry.hasOutPort],
      hgroup, BitVec.and_zero.trans BitVec.and_zero.symm,
      .inl (by simpa [Rule.isHidden] using hmod.2)⟩) hmod.1
  have hloose : collectRulesLoose C s (ruleCriteriaInit 0 Match.catchall 0 0 0 ofppAny g false) =
      .ok ids := by
    unfold collectRulesLoose
    rw [if_neg (by simp [ruleCriteriaInit, hcheck]), ← hcollect]
    rfl
  have hdelete : deleteFlowsLoose C s (groupFlowMod g) = (deleteFlows C s ids, none) := by
    unfold deleteFlowsLoose
    rw [show (groupFlowMod g : FlowMod w).has ffNoReadonly = false by
      simp [FlowMod.has, groupFlowMod]]
    simp only [groupFlowMod, hloose]
  rw [hdelete]
  exact fun hmem => deleteFlows_gone s hid r hmem rfl

/-- It deletes no others, unless flows have been learned. -/
lemma groupFlowMod_keeps (hs : s.Wf C) (hlearn : NoLearn s) {g : ℕ} (hr : r ∈ s.rules)
    (hother : ¬ (r.tableId = 0 ∧ r.hasOutGroup g = true)) :
    r ∈ (handleFlowMod C s (groupFlowMod g)).1.rules := by
  show r ∈ (deleteFlowsLoose C s (groupFlowMod g)).1.rules
  unfold deleteFlowsLoose
  split
  · exact hr
  · next ids hids =>
    rw [deleteFlows_rules hlearn]
    refine mem_filter.2 ⟨hr, decide_eq_true fun hid => hother ?_⟩
    obtain ⟨r', hr', hid', hsel, -⟩ := ((hs.collectRulesLoose_ok hids).2 r.id).1 hid
    rw [hs.eq_of_id hr' hr hid'] at hsel
    obtain ⟨htable, -, hgroup, -⟩ := RuleCriteria.accepts_iff.1 hsel.accepts
    exact ⟨(htable.resolve_right (show (0 : ℕ) ≠ 0xff by decide)).symm, hgroup⟩

/-- Deleting the flows of a group does not touch the groups. -/
lemma groupFlowMod_groups (g : ℕ) : (handleFlowMod C s (groupFlowMod g)).1.groups = s.groups :=
  Closed.groupFlowMod (P := fun s' => s'.groups = s.groups)
    { remove := fun _ h => h, learned := fun _ h => h } rfl g

/-- As far as groups are concerned, `delete_group()` is what it is without flows. -/
lemma deleteGroup_groups (id : ℕ) : (s.deleteGroup C id).groups = deleteGroup s.groups id := by
  have hone : ∀ (s : Switch w) (g : Group), (s.deleteOneGroup C g).groups = s.groups.delete g := by
    intro s g
    show delete (handleFlowMod C s (groupFlowMod g.groupId)).1.groups g = _
    rw [groupFlowMod_groups]
  unfold Switch.deleteGroup deleteGroup
  split
  · exact (foldl_hom Switch.groups fun s g => (hone s g).symm).symm
  · cases s.groups.lookup id with
    | none => rfl
    | some g => exact hone s g

/-- A group that `delete_group()` deletes. -/
def DeletesGroup (t : GroupTable) (id g : ℕ) : Prop :=
  (t.lookup g).isSome = true ∧ (id = ofpgAll ∨ g = id)

lemma lookup_delete_eq_none {t : GroupTable} {g : ℕ} {x : Group}
    (h : t.lookup g = none ∨ x.groupId = g) : (t.delete x).lookup g = none := by
  refine find?_eq_none.2 fun y hy => ?_
  obtain ⟨hmem, hne⟩ := mem_filter.1 hy
  obtain h | rfl := h
  · exact find?_eq_none.1 h y hmem
  · simpa using hne

/-- The groups that are gone afterwards. -/
lemma deletesGroup_iff {t : GroupTable} {id g : ℕ} :
    (t.lookup g).isSome = true ∧ (deleteGroup t id).lookup g = none ↔ DeletesGroup t id g := by
  refine and_congr_right fun hbefore => ?_
  obtain ⟨x, hx⟩ := isSome_iff_exists.1 hbefore
  obtain ⟨hmem, hxid⟩ := lookup_eq_some hx
  unfold deleteGroup
  split
  · next hall =>
    refine iff_of_true ?_ (.inl hall)
    obtain ⟨l1, l2, hl⟩ := append_of_mem hmem
    rw [hl, foldl_append, foldl_cons]
    exact foldlRecOn (motive := fun t' : GroupTable => t'.lookup g = none) _ _
      (lookup_delete_eq_none (.inr hxid)) fun t' h y _ => lookup_delete_eq_none (.inl h)
  · next hall =>
    simp only [hall, false_or]
    constructor
    · intro hafter
      by_contra hne
      cases hlookup : t.lookup id with
      | none => simp [hlookup, hx] at hafter
      | some group =>
        simp only [hlookup] at hafter
        refine not_mem_of_lookup hafter (mem_map.2 ⟨x, mem_filter.2 ⟨hmem, ?_⟩, hxid⟩)
        simpa [hxid, (lookup_eq_some hlookup).2] using hne
    · rintro rfl
      simp only [hx]
      exact lookup_delete_eq_none (.inr hxid)

lemma deleteOneGroup_subset (s : Switch w) (x : Group) : (s.deleteOneGroup C x).rules ⊆ s.rules :=
  (closed_subset s.rules).groupFlowMod (fun _ h => h) x.groupId

lemma foldl_deleteOneGroup_subset (l : List Group) (s : Switch w) :
    (l.foldl (Switch.deleteOneGroup C) s).rules ⊆ s.rules :=
  foldlRecOn (motive := fun s' : Switch w => s'.rules ⊆ s.rules) _ _ (fun _ h => h)
    fun s' h x _ _ hr => h (deleteOneGroup_subset s' x hr)

lemma deleteGroup_subset (s : Switch w) (id : ℕ) : (s.deleteGroup C id).rules ⊆ s.rules := by
  unfold Switch.deleteGroup
  split
  · exact foldl_deleteOneGroup_subset _ s
  · split
    · exact fun _ h => h
    · exact deleteOneGroup_subset s _

/-- A flow of the first table that outputs to one of the groups goes. -/
lemma deleteGroup_gone {id g : ℕ} (hg : DeletesGroup s.groups id g) (hmod : Modifiable C r)
    (htable : r.tableId = 0) (hgroup : r.hasOutGroup g = true) :
    r ∉ (s.deleteGroup C id).rules := by
  have hone : ∀ (s' : Switch w) (x : Group), x.groupId = g → r ∉ (s'.deleteOneGroup C x).rules := by
    rintro s' x rfl hr
    exact groupFlowMod_gone s' (deleteOneGroup_subset s' x hr) hmod htable hgroup hr
  obtain ⟨x, hx⟩ := isSome_iff_exists.1 hg.1
  obtain ⟨hmem, hxid⟩ := lookup_eq_some hx
  unfold Switch.deleteGroup
  split
  · obtain ⟨l1, l2, hl⟩ := append_of_mem hmem
    rw [hl, foldl_append]
    exact fun hr => hone _ x hxid (foldl_deleteOneGroup_subset l2 _ hr)
  · next hall =>
    obtain rfl := hg.2.resolve_left hall
    rw [hx]
    exact hone s x hxid

/-- Other flows stay, unless flows have been learned. -/
lemma deleteGroup_keeps (hs : s.Wf C) (hlearn : NoLearn s) {id : ℕ} (hr : r ∈ s.rules)
    (hother : ∀ g, DeletesGroup s.groups id g → ¬ (r.tableId = 0 ∧ r.hasOutGroup g = true)) :
    r ∈ (s.deleteGroup C id).rules := by
  have hone : ∀ (s' : Switch w) (x : Group), s'.Wf C ∧ NoLearn s' ∧ r ∈ s'.rules →
      DeletesGroup s.groups id x.groupId →
      (s'.deleteOneGroup C x).Wf C ∧ NoLearn (s'.deleteOneGroup C x) ∧
        r ∈ (s'.deleteOneGroup C x).rules := by
    rintro s' x ⟨hs', hlearn', hr'⟩ hx
    have hwf := Switch.Wf.closed.groupFlowMod hs' x.groupId (C := C)
    exact ⟨hwf.congr rfl rfl rfl, NoLearn.closed.groupFlowMod hlearn' x.groupId,
      groupFlowMod_keeps hs' hlearn' hr' (hother x.groupId hx)⟩
  have hlookup : ∀ x ∈ s.groups.groups, (s.groups.lookup x.groupId).isSome = true :=
    fun x hx => find?_isSome.2 ⟨x, hx, by simp⟩
  unfold Switch.deleteGroup
  split
  · next hall =>
    refine (foldlRecOn (motive := fun s' : Switch w => s'.Wf C ∧ NoLearn s' ∧ r ∈ s'.rules) _ _
      ⟨hs, hlearn, hr⟩ fun s' h x hx => hone s' x h ⟨hlookup x hx, .inl hall⟩).2.2
  · split
    · exact hr
    · next x hx =>
      obtain ⟨hmem, rfl⟩ := lookup_eq_some hx
      exact (hone s x ⟨hs, hlearn, hr⟩ ⟨hlookup x hmem, .inr rfl⟩).2.2

/-- After the deletion of groups no flow names one of them. -/
def NoDangling (C : Config w) (s : Switch w) (id : ℕ) : Prop :=
  ∀ g, (s.groups.lookup g).isSome = true → (s.deleteGroup C id).groups.lookup g = none →
    ∀ r ∈ (s.deleteGroup C id).rules, Modifiable C r → ¬Names g r.ofpacts

/-- Every flow that names one of the groups is where `delete_group__()` looks for it: in the first
table, with an output to one of them where `ofproto_rule_has_out_group()` sees it. -/
def NamedInTableZero (C : Config w) (s : Switch w) (id : ℕ) : Prop :=
  ∀ r ∈ s.rules, Modifiable C r → ∀ g, DeletesGroup s.groups id g → Names g r.ofpacts →
    r.tableId = 0 ∧ ∃ g', DeletesGroup s.groups id g' ∧ r.hasOutGroup g' = true

/-- **Groups go with the flows that name them** if those are in the first table and output to one of
the groups at the top level of their actions; and only if, unless flows have been learned, which may
go with other flows. -/
theorem group_deleted_iff (s : Switch w) (id : ℕ) :
    (NamedInTableZero C s id → NoDangling C s id) ∧
      (s.Wf C → NoLearn s → NoDangling C s id → NamedInTableZero C s id) := by
  constructor
  · intro hnamed g hbefore hafter r hr hmod hnames
    rw [deleteGroup_groups] at hafter
    obtain ⟨htable, g', hg', hgroup⟩ := hnamed r (deleteGroup_subset s id hr) hmod g
      (deletesGroup_iff.1 ⟨hbefore, hafter⟩) hnames
    exact deleteGroup_gone hg' hmod htable hgroup hr
  · intro hs hlearn hno r hr hmod g hg hnames
    by_contra hother
    obtain ⟨hbefore, hafter⟩ := deletesGroup_iff.2 hg
    refine hno g hbefore (by rw [deleteGroup_groups]; exact hafter) r
      (deleteGroup_keeps hs hlearn hr fun g' hg' h => hother ?_) hmod hnames
    exact ⟨h.1, g', hg', h.2⟩

/-- A switch with groups 7 and 8, and one flow. -/
def groupSwitch (tableId : ℕ) (ofpacts : List Ofpact) : Switch 8 :=
  { (handleFlowMod plainConfig Switch.empty (plainFlowMod .add tableId 5 1 ofpacts)).1 with
    groups := ⟨[⟨7, .all, [], 0⟩, ⟨8, .all, [], 0⟩], fun type => if type = .all then 2 else 0⟩ }

/-- A flow that outputs to one group at the top level and names the other in `write_actions`. -/
theorem group_deleted_iff_groupSwitch :
    let s := groupSwitch 0 [.action (.group 8), .writeActions [.group 7]]
    s.rules.length = 1 ∧ (s.deleteGroup plainConfig ofpgAll).groups.lookup 7 = none ∧
      NoDangling plainConfig s ofpgAll := by
  intro s
  refine ⟨by decide +kernel, by decide +kernel, (group_deleted_iff s ofpgAll).1 ?_⟩
  intro r hr _ g _ _
  have hrule : s.rules = [(plainFlowMod .add 0 5 1
      [.action (.group 8), .writeActions [.group 7]]).rule 0] := rfl
  rw [hrule, mem_singleton] at hr
  subst hr
  exact ⟨rfl, 8, ⟨rfl, .inl rfl⟩, by decide +kernel⟩

/-- **Flows that name a group that has been deleted**: one in the second table, one with the group
in a `write_actions` instruction. -/
theorem group_left_dangling :
    (∃ r ∈ ((groupSwitch 1 [.action (.group 7)]).deleteGroup plainConfig 7).rules,
      Modifiable plainConfig r ∧ Names 7 r.ofpacts) ∧
    (∃ r ∈ ((groupSwitch 0 [.writeActions [.group 7]]).deleteGroup plainConfig 7).rules,
      Modifiable plainConfig r ∧ Names 7 r.ofpacts) ∧
    ∀ tableId ofpacts,
      ((groupSwitch tableId ofpacts).deleteGroup plainConfig 7).groups.lookup 7 = none := by
  refine ⟨by decide +kernel, by decide +kernel, fun tableId ofpacts => ?_⟩
  rw [deleteGroup_groups]
  rfl

end Ofproto

end OVS
