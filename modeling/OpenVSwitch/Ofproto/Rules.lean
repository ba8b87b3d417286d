import OpenVSwitch.Lib.Keyed
import OpenVSwitch.Ofproto.FlowTable

/-!
# What flow mods do to rules

Every change to the flow tables is made of four steps: a rule is removed, a rule is modified, a
rule is inserted, the count of a learned cookie is set.

* `Closed` — what survives removals and counts survives every deletion, however far it goes.
* `Switch.Wf` — identities and keys are unique, and the cookie index has each rule once, under the
  hash of its cookie.  It survives everything.
* `handleFlowMod_induct` — what survives the steps that a flow mod can take, given what is known
  of the rules that it modifies, survives the flow mod.
-/

namespace OVS

namespace Ofproto

open List Switch RuleCriteria

variable {w n : ℕ} {C : Config w} {fm : FlowMod w} {id : ℕ} {s : Switch w} {ids : List ℕ}

/-! ## Deletions -/

/-- What survives the removal of rules. -/
structure Closed (P : Switch w → Prop) : Prop where
  remove : ∀ {s : Switch w} (id : ℕ), P s → P (s.remove id)
  learned : ∀ {s : Switch w} (l : BitVec 64 × ℕ → ℕ), P s → P { s with learnedCookies := l }

namespace Closed

variable {P : Switch w → Prop} (hP : Closed P)
include hP

lemma learnedCookiesInc (h : P s) (ofpacts : List Ofpact) : P (s.learnedCookiesInc ofpacts) :=
  foldlRecOn _ _ h fun _ hs _ _ => hP.learned _ hs

variable {p : Switch w × List (BitVec 64 × ℕ)}

lemma learnedCookiesDec (h : P p.1) (ofpacts : List Ofpact) :
    P (learnedCookiesDec ofpacts p).1 :=
  foldlRecOn (motive := fun p : Switch w × List (BitVec 64 × ℕ) => P p.1) _ _ h
    fun _ hp _ _ => hP.learned _ hp

/-- A property closed under the writes of a deletion survives the deletion of one flow. -/
lemma deleteFlow (h : P p.1) (id : ℕ) : P (Ofproto.deleteFlow p id).1 := by
  unfold Ofproto.deleteFlow
  cases p.1.rule id with
  | none => exact h
  | some rule => exact hP.learnedCookiesDec (hP.remove id h) rule.ofpacts

lemma foldl_deleteFlow (h : P p.1) (ids : List ℕ) : P (ids.foldl Ofproto.deleteFlow p).1 :=
  foldlRecOn (motive := fun p : Switch w × List (BitVec 64 × ℕ) => P p.1) _ _ h
    fun _ hp id _ => hP.deleteFlow hp id

/-- And the rounds of it, since what a round deletes may release cookies that let more be deleted.
-/
lemma deleteFlowsFuel (fuel : ℕ) :
    ∀ {s : Switch w} (_ : P s) (ids : List ℕ), P (Ofproto.deleteFlowsFuel C fuel s ids) := by
  induction fuel with
  | zero => exact fun h _ => h
  | succ fuel ih =>
    intro s h ids
    exact foldlRecOn _ _ (hP.foldl_deleteFlow h ids) fun _ hs c _ => ih hs _

lemma deleteFlows (h : P s) (ids : List ℕ) : P (Ofproto.deleteFlows C s ids) :=
  hP.deleteFlowsFuel _ h ids

lemma learnedCookiesFlush (h : P p.1) : P (Ofproto.learnedCookiesFlush C p) :=
  foldlRecOn _ _ h fun _ hs _ _ => hP.deleteFlows hs _

end Closed

/-- Rules that have been removed do not come back. -/
lemma closed_subset (l : List (Rule w)) : Closed fun s : Switch w => s.rules ⊆ l where
  remove _ h := fun _ hr => h (mem_of_mem_filter hr)
  learned _ h := h

/-- A flow that is gone stays gone, whatever else is deleted. -/
lemma closed_gone (id : ℕ) : Closed fun s : Switch w => ∀ r ∈ s.rules, r.id ≠ id where
  remove _ h r hr := h r (mem_of_mem_filter hr)
  learned _ h := h

/-- **What is deleted is gone.** -/
lemma deleteFlows_gone (s : Switch w) (hid : id ∈ ids) :
    ∀ r ∈ (deleteFlows C s ids).rules, r.id ≠ id := by
  have hfold : ∀ (ids : List ℕ) (p : Switch w × List (BitVec 64 × ℕ)), id ∈ ids →
      ∀ r ∈ (ids.foldl deleteFlow p).1.rules, r.id ≠ id := by
    intro ids
    induction ids with
    | nil => exact fun _ h => absurd h not_mem_nil
    | cons i ids ih =>
      intro p hmem
      rcases mem_cons.1 hmem with rfl | hmem
      · refine (closed_gone id).foldl_deleteFlow ?_ ids
        unfold deleteFlow
        cases hrule : p.1.rule id with
        | none => simpa [rule] using hrule
        | some rule =>
          refine (closed_gone id).learnedCookiesDec (fun r hr => ?_) rule.ofpacts
          simpa using (mem_filter.1 hr).2
      · exact ih _ hmem
  exact foldlRecOn (motive := fun s : Switch w => ∀ r ∈ s.rules, r.id ≠ id) _ _
    (hfold ids (s, []) hid) fun _ hs c _ => (closed_gone id).deleteFlowsFuel _ hs _

/-- Rules are only ever removed. -/
lemma closed_length : Closed fun s : Switch w => s.rules.length ≤ n where
  remove _ h := (length_filter_le _ _).trans h
  learned _ h := h

/-- Either nothing is deleted, or a rule less is left. -/
lemma foldl_deleteFlow_length (ids : List ℕ) (p : Switch w × List (BitVec 64 × ℕ)) :
    ids.foldl deleteFlow p = p ∨ (ids.foldl deleteFlow p).1.rules.length < p.1.rules.length := by
  induction ids with
  | nil => exact .inl rfl
  | cons id ids ih =>
    cases hrule : p.1.rule id with
    | none =>
      have heq : deleteFlow p id = p := by simp [deleteFlow, hrule]
      rw [foldl_cons, heq]
      exact ih
    | some r =>
      refine .inr (lt_of_le_of_lt ((closed_length).foldl_deleteFlow
        le_rfl ids) ?_)
      have hle : (deleteFlow p id).1.rules.length ≤ (p.1.remove id).rules.length := by
        unfold deleteFlow
        rw [hrule]
        exact (closed_length).learnedCookiesDec le_rfl r.ofpacts
      refine lt_of_le_of_lt hle (length_filter_lt_length_iff_exists.2 ⟨r, ?_, ?_⟩)
      · exact mem_of_find?_eq_some hrule
      · simpa using find?_some hrule

/-- Deletions that agree while fewer rules are left flush the same. -/
lemma foldl_flush_congr {f g : Switch w → List ℕ → Switch w}
    (hfg : ∀ s ids, s.rules.length < n → f s ids = g s ids)
    (hg : ∀ s ids, (g s ids).rules.length ≤ s.rules.length) (dead : List (BitVec 64 × ℕ)) :
    ∀ s : Switch w, s.rules.length < n →
      dead.foldl (fun s c => f s (learnedRules C s c)) s =
        dead.foldl (fun s c => g s (learnedRules C s c)) s := by
  induction dead with
  | nil => exact fun _ _ => rfl
  | cons c dead ih =>
    intro s hs
    rw [foldl_cons, hfg s _ hs]
    exact ih _ ((hg s _).trans_lt hs)

/-- Fuel for each of the rules is enough. -/
lemma deleteFlowsFuel_eq : ∀ (m : ℕ) (s : Switch w) (ids : List ℕ),
    s.rules.length < n → s.rules.length < m →
      deleteFlowsFuel C n s ids = deleteFlowsFuel C m s ids := by
  induction n with
  | zero => exact fun _ _ _ h => absurd h (Nat.not_lt_zero _)
  | succ n ih =>
    intro m s ids hn hm
    obtain ⟨m, rfl⟩ := Nat.exists_eq_succ_of_ne_zero (Nat.ne_of_gt (Nat.zero_lt_of_lt hm))
    rw [deleteFlowsFuel, deleteFlowsFuel]
    rcases foldl_deleteFlow_length ids (s, []) with heq | hlt
    · simp only [heq, foldl_nil]
    · -- the recursive calls start with fewer rules
      exact foldl_flush_congr (n := s.rules.length)
        (fun s' ids hs' => ih m s' ids (by omega) (by omega))
        (fun _ ids => (closed_length).deleteFlowsFuel m le_rfl ids) _ _ hlt

/-- **`delete_flows__()` deletes the rules, and flushes the cookies that nothing learns any
more.** -/
theorem deleteFlows_eq :
    deleteFlows C s ids = learnedCookiesFlush C (ids.foldl deleteFlow (s, [])) := by
  unfold deleteFlows learnedCookiesFlush
  rw [deleteFlowsFuel]
  rcases foldl_deleteFlow_length ids (s, []) with heq | hlt
  · simp only [heq, foldl_nil]
  · exact foldl_flush_congr
      (fun s' ids hs' => deleteFlowsFuel_eq _ s' ids hs' (Nat.lt_succ_self _))
      (fun _ ids => (closed_length).deleteFlows le_rfl ids) _ _ hlt

/-! ## The fields of a switch after a step -/

section

variable (C) (s : Switch w) (fm : FlowMod w)

@[simp] lemma insertRule_rules : (insertRule C s fm).rules = fm.rule s.next :: s.rules := by
  unfold insertRule
  split <;> rfl

@[simp] lemma insertRule_next : (insertRule C s fm).next = s.next + 1 := by
  unfold insertRule
  split <;> rfl

@[simp] lemma insertRule_cookies :
    (insertRule C s fm).cookies = (C.hashCookie fm.newCookie, s.next) :: s.cookies := by
  unfold insertRule
  split <;> rfl

@[simp] lemma insertRule_expirable : (insertRule C s fm).expirable =
    if fm.hardTimeout ≠ 0 ∨ fm.idleTimeout ≠ 0 then s.next :: s.expirable else s.expirable := by
  unfold insertRule
  split <;> rfl

/-- A new rule is entered with the meter its actions name, if they name one. -/
lemma insertRule_meters (m : ℕ) : (insertRule C s fm).meters m =
    if m = ofpactsGetMeter fm.ofpacts ∧ m ≠ 0 then (s.meters m).map (s.next :: ·)
    else s.meters m := by
  unfold insertRule
  split_ifs with hmeter hm hm
  · simp [meterInsertRule, linkRule, hm.1]
  · exact Function.update_of_ne (fun h => hm ⟨h, h ▸ hmeter⟩) _ _
  · exact absurd hm.1 (by omega)
  · rfl

@[simp] lemma modifyRule_rules (r : Rule w) :
    (modifyRule C fm s r).rules = (s.set (modified fm r)).rules := by
  unfold modifyRule
  split <;> rfl

@[simp] lemma modifyRule_expirable (r : Rule w) :
    (modifyRule C fm s r).expirable = s.expirable := by
  unfold modifyRule
  split <;> rfl

@[simp] lemma modifyRule_meters (r : Rule w) : (modifyRule C fm s r).meters = s.meters := by
  unfold modifyRule
  split <;> rfl

end

/-! ## Well-formed switches -/

/-- Identities and keys are unique, and the cookie index has each rule once. -/
structure Switch.Wf (C : Config w) (s : Switch w) : Prop where
  ids : (s.rules.map Rule.id).Nodup
  fresh : ∀ r ∈ s.rules, r.id < s.next
  keys : ∀ r ∈ s.rules, ∀ r' ∈ s.rules, r.tableId = r'.tableId → r.cr = r'.cr → r.id = r'.id
  tables : ∀ r ∈ s.rules, r.tableId < C.nTables
  index : (s.cookies.map Prod.snd).Nodup
  cookies : ∀ h id, (h, id) ∈ s.cookies ↔
    ∃ r ∈ s.rules, r.id = id ∧ C.hashCookie r.flowCookie = h

namespace Switch

variable {s : Switch w} {r : Rule w}

lemma mem_of_rule (h : s.rule id = some r) : r ∈ s.rules ∧ r.id = id :=
  ⟨mem_of_find?_eq_some h, by simpa using find?_some h⟩

lemma map_id_set : (s.set r).rules.map Rule.id = s.rules.map Rule.id := by
  simp only [set, map_map]
  refine map_congr_left fun x _ => ?_
  simp only [Function.comp]
  split <;> simp_all

/-- The rules after one of them has been changed. -/
lemma mem_set {q x : Rule w} (hr : r ∈ s.rules) (hid : q.id = r.id) :
    x ∈ (s.set q).rules ↔ x = q ∨ x ∈ s.rules ∧ x.id ≠ q.id := by
  simp only [set, mem_map]
  constructor
  · rintro ⟨y, hy, rfl⟩
    by_cases h : y.id = q.id
    · simp [h]
    · simp [h, hy]
  · rintro (rfl | ⟨hx, hne⟩)
    · exact ⟨r, hr, by simp [hid]⟩
    · exact ⟨x, hx, by simp [hne]⟩

/-- Modifying a rule replaces it by its new version and leaves every other rule. -/
lemma mem_modifyRule {x : Rule w} (hr : r ∈ s.rules) :
    x ∈ (modifyRule C fm s r).rules ↔ x = modified fm r ∨ x ∈ s.rules ∧ x.id ≠ r.id := by
  rw [modifyRule_rules]
  exact mem_set hr rfl

namespace Wf

variable {s : Switch w} (hs : s.Wf C)
include hs

variable {r : Rule w}

lemma eq_of_id {r' : Rule w} (hr : r ∈ s.rules) (hr' : r' ∈ s.rules) (h : r.id = r'.id) : r = r' :=
  inj_on_of_nodup_map hs.ids hr hr' h

lemma rule (hr : r ∈ s.rules) : s.rule r.id = some r := find_of_key hs.ids hr

/-- A table holds at most one rule for a match and a priority. -/
lemma eq_of_key {r' : Rule w} (hr : r ∈ s.rules) (hr' : r' ∈ s.rules)
    (htable : r.tableId = r'.tableId) (hcr : r.cr = r'.cr) : r = r' :=
  hs.eq_of_id hr hr' (hs.keys r hr r' hr' htable hcr)

lemma remove (id : ℕ) : (s.remove id).Wf C where
  ids := hs.ids.sublist (filter_sublist.map _)
  fresh r hr := hs.fresh r (mem_of_mem_filter hr)
  keys r hr r' hr' := hs.keys r (mem_of_mem_filter hr) r' (mem_of_mem_filter hr')
  tables r hr := hs.tables r (mem_of_mem_filter hr)
  index := hs.index.sublist (filter_sublist.map _)
  cookies h i := by
    simp only [Switch.remove, mem_filter, hs.cookies]
    constructor
    · rintro ⟨⟨r, hr, rfl, hh⟩, hne⟩
      exact ⟨r, ⟨hr, hne⟩, rfl, hh⟩
    · rintro ⟨r, ⟨hr, hne⟩, rfl, hh⟩
      exact ⟨⟨r, hr, rfl, hh⟩, hne⟩

omit hs in
/-- Well-formedness is closed under the writes of a deletion. -/
lemma closed : Closed fun s : Switch w => s.Wf C where
  remove id h := h.remove id
  learned _ h := { h with }

/-- A rule keeps its identity, table and key; the index has to follow its cookie. -/
lemma set {s' : Switch w} {q : Rule w} (hr : r ∈ s.rules) (hid : q.id = r.id)
    (htable : q.tableId = r.tableId) (hcr : q.cr = r.cr) (hrules : s'.rules = (s.set q).rules)
    (hnext : s'.next = s.next) (hindex : (s'.cookies.map Prod.snd).Nodup)
    (hcookies : ∀ h id, (h, id) ∈ s'.cookies ↔
      id = r.id ∧ h = C.hashCookie q.flowCookie ∨ id ≠ r.id ∧ (h, id) ∈ s.cookies) : s'.Wf C := by
  have hmem : ∀ x, x ∈ s'.rules ↔ x = q ∨ x ∈ s.rules ∧ x.id ≠ q.id := fun x =>
    hrules ▸ mem_set hr hid
  -- each rule has the identity, table and key of one from before
  have hback : ∀ x ∈ s'.rules, ∃ y ∈ s.rules, x.id = y.id ∧ x.tableId = y.tableId ∧
      x.cr = y.cr := by
    intro x hx
    rcases (hmem x).1 hx with rfl | ⟨hx, -⟩
    · exact ⟨r, hr, hid, htable, hcr⟩
    · exact ⟨x, hx, rfl, rfl, rfl⟩
  refine ⟨?_, fun x hx => ?_, fun x hx y hy htab hcq => ?_, fun x hx => ?_, hindex, fun h id => ?_⟩
  · rw [hrules, map_id_set]
    exact hs.ids
  · obtain ⟨y, hy, hyid, -⟩ := hback x hx
    rw [hyid, hnext]
    exact hs.fresh y hy
  · obtain ⟨x', hx', hxid, hxt, hxc⟩ := hback x hx
    obtain ⟨y', hy', hyid, hyt, hyc⟩ := hback y hy
    rw [hxid, hyid]
    exact hs.keys x' hx' y' hy' (hxt ▸ hyt ▸ htab) (hxc ▸ hyc ▸ hcq)
  · obtain ⟨y, hy, -, hyt, -⟩ := hback x hx
    rw [hyt]
    exact hs.tables y hy
  · refine (hcookies h id).trans ?_
    rw [hs.cookies]
    constructor
    · rintro (⟨rfl, rfl⟩ | ⟨hne, x, hx, rfl, hh⟩)
      · exact ⟨q, (hmem q).2 (.inl rfl), hid, rfl⟩
      · exact ⟨x, (hmem x).2 (.inr ⟨hx, hid ▸ hne⟩), rfl, hh⟩
    · rintro ⟨x, hx, rfl, hh⟩
      rcases (hmem x).1 hx with rfl | ⟨hx, hne⟩
      · exact .inl ⟨hid, hh.symm⟩
      · exact .inr ⟨hid ▸ hne, x, hx, rfl, hh⟩

/-- The index stays as it is if the cookie does. -/
lemma set_of_cookie {s' : Switch w} {q : Rule w} (hr : r ∈ s.rules) (hid : q.id = r.id)
    (htable : q.tableId = r.tableId) (hcr : q.cr = r.cr) (hcookie : q.flowCookie = r.flowCookie)
    (hrules : s'.rules = (s.set q).rules) (hnext : s'.next = s.next)
    (hcookies : s'.cookies = s.cookies) : s'.Wf C := by
  refine hs.set hr hid htable hcr hrules hnext (hcookies ▸ hs.index) fun h id => ?_
  rw [hcookies, hcookie]
  constructor
  · intro hmem
    by_cases he : id = r.id
    · obtain ⟨x, hx, hxid, hh⟩ := (hs.cookies h id).1 hmem
      rw [hs.eq_of_id hx hr (hxid.trans he)] at hh
      exact .inl ⟨he, hh.symm⟩
    · exact .inr ⟨he, hmem⟩
  · rintro (⟨rfl, rfl⟩ | ⟨-, hmem⟩)
    · exact (hs.cookies _ _).2 ⟨r, hr, rfl, rfl⟩
    · exact hmem

lemma modifyRule (fm : FlowMod w) (hr : r ∈ s.rules) : (modifyRule C fm s r).Wf C := by
  by_cases hchange : changeCookie fm r = true
  · have heq : Ofproto.modifyRule C fm s r =
        ((s.set (modified fm r)).cookiesRemove r.id).cookiesInsert
          (C.hashCookie fm.newCookie) r.id := if_pos hchange
    rw [heq]
    refine hs.set (q := modified fm r) hr rfl rfl rfl rfl rfl ?_ fun h id => ?_
    · refine nodup_cons.2 ⟨?_, hs.index.sublist (filter_sublist.map _)⟩
      simp [cookiesRemove]
    · simp only [cookiesInsert, cookiesRemove, mem_cons,
        Prod.mk.injEq, mem_filter, decide_eq_true_eq, modified, hchange]
      tauto
  · have heq : Ofproto.modifyRule C fm s r = s.set (modified fm r) := if_neg hchange
    rw [heq]
    refine hs.set_of_cookie (q := modified fm r) hr rfl rfl rfl ?_ rfl rfl rfl
    simp [modified, hchange]

lemma insertRule (htable : fm.target < C.nTables)
    (hnew : ∀ r ∈ s.rules, r.tableId = fm.target → r.cr ≠ fm.cr) : (insertRule C s fm).Wf C := by
  have hnext : ∀ x ∈ s.rules, x.id ≠ s.next := fun x hx => (hs.fresh x hx).ne
  refine ⟨?_, ?_, ?_, ?_, ?_, fun h id => ?_⟩ <;>
    simp only [insertRule_rules, insertRule_next, insertRule_cookies]
  · refine nodup_cons.2 ⟨fun h => ?_, hs.ids⟩
    obtain ⟨x, hx, hid⟩ := mem_map.1 h
    exact hnext x hx hid
  · refine forall_mem_cons.2 ⟨Nat.lt_succ_self _, fun x hx => ?_⟩
    exact Nat.lt_succ_of_lt (hs.fresh x hx)
  · intro x hx y hy htab hcr
    rcases mem_cons.1 hx with rfl | hx <;> rcases mem_cons.1 hy with rfl | hy
    · rfl
    · exact absurd hcr.symm (hnew y hy htab.symm)
    · exact absurd hcr (hnew x hx htab)
    · exact hs.keys x hx y hy htab hcr
  · exact forall_mem_cons.2 ⟨htable, hs.tables⟩
  · refine nodup_cons.2 ⟨fun h => ?_, hs.index⟩
    obtain ⟨⟨h, id⟩, hmem, hid⟩ := mem_map.1 h
    obtain ⟨x, hx, hxid, -⟩ := (hs.cookies h id).1 hmem
    exact hnext x hx (hxid.trans hid)
  · simp only [mem_cons, Prod.mk.injEq, hs.cookies, exists_eq_or_imp, FlowMod.rule, FlowMod.entry]
    rw [and_comm, eq_comm, eq_comm (a := h)]

end Wf

end Switch

/-! ## Which rules are collected -/

variable {r : Rule w} {c : RuleCriteria w}

/-- The conditions `collect_rule` puts to a rule, apart from those of the scan that found it. -/
lemma RuleCriteria.accepts_iff : c.accepts r = true ↔
      (c.tableId = r.tableId ∨ c.tableId = 0xff) ∧ r.hasOutPort c.outPort = true ∧
      r.hasOutGroup c.outGroup = true ∧
      r.flowCookie &&& c.cookieMask = c.cookie &&& c.cookieMask ∧
      (r.cr.priority ≤ 0xffff ∨ c.includeHidden = true) := by
  rw [← xor_and_eq_zero]
  simp only [accepts, Rule.isHidden, Bool.and_eq_true, Bool.or_eq_true,
    Bool.not_eq_true', decide_eq_true_eq, decide_eq_false_iff_not, not_lt, and_assoc]
  rfl

/-- Apart from the match, what makes a rule one of those that are collected: the criteria, the
tables that are looked into, and whether rules may be changed there. -/
structure RuleCriteria.Selects (C : Config w) (c : RuleCriteria w) (r : Rule w) : Prop where
  accepts : c.accepts r = true
  tables : c.tableId = 0xff → c.cookieMask = be64Max ∨ C.hidden r.tableId = false
  writable : C.readonly r.tableId = false ∨ c.includeReadonly = true

/-- If all tables are asked for, no rule of a hidden table that the criteria accept may be changed,
and if there is one, then there is also one in a visible table. -/
def RuleCriteria.HiddenHarmless (C : Config w) (c : RuleCriteria w) (s : Switch w)
    (M : Rule w → Prop) : Prop :=
  c.tableId = 0xff → ∀ r ∈ s.rules, C.hidden r.tableId = true → c.accepts r = true → M r →
    ¬ (C.readonly r.tableId = false ∨ c.includeReadonly = true) ∧
      ∃ r' ∈ s.rules, C.hidden r'.tableId = false ∧ c.accepts r' = true ∧ M r'

/-- A request names one table, or all tables but those that are hidden. -/
lemma mem_matchingTables {tableId t : ℕ} :
    t ∈ matchingTables C tableId ↔
      t < C.nTables ∧ (tableId = t ∨ tableId = 0xff ∧ C.hidden t = false) := by
  have hle := C.nTables_le
  unfold matchingTables
  by_cases hall : tableId = 0xff
  · subst hall
    simp only [if_true, mem_filter, mem_range, Bool.not_eq_true', true_and, and_congr_right_iff]
    intro ht
    simp only [show (255 : ℕ) ≠ t by omega, false_or]
  · by_cases hlt : tableId < C.nTables
    · simp only [hall, hlt, if_true, if_false, mem_singleton, false_and, or_false]
      constructor
      · rintro rfl
        exact ⟨hlt, rfl⟩
      · exact fun h => h.2.symm
    · simp only [hall, hlt, if_false, not_mem_nil, false_and, or_false, false_iff, not_and]
      rintro ht rfl
      exact hlt ht

lemma nodup_matchingTables (tableId : ℕ) : (matchingTables C tableId).Nodup := by
  unfold matchingTables
  split
  · exact nodup_range.filter _
  · split
    · exact nodup_singleton _
    · exact nodup_nil

/-- The rules that match loosely, as `FOR_EACH_MATCHING_TABLE` finds them. -/
def looseScan (C : Config w) (s : Switch w) (c : RuleCriteria w) : List (Rule w) :=
  (matchingTables C c.tableId).flatMap fun t =>
    s.rules.filter fun r => r.tableId = t ∧ r.cr.minimatch.Loose c.cr.minimatch

/-- The rules with a key, as `FOR_EACH_MATCHING_TABLE` finds them. -/
def strictScan (C : Config w) (s : Switch w) (c : RuleCriteria w) : List (Rule w) :=
  (matchingTables C c.tableId).filterMap fun t => findRuleExactly s t c.cr

/-- The same rules in any order, or the same error. -/
inductive SameRules : Except FlowError (List ℕ) → Except FlowError (List ℕ) → Prop
  | error (e : FlowError) : SameRules (.error e) (.error e)
  | ok {ids ids' : List ℕ} : ids.Perm ids' → SameRules (.ok ids) (.ok ids')

/-- More candidates make no difference exactly if those that are accepted may not be changed and
there are accepted ones without them. -/
lemma collect_iff {l l' : List (Rule w)} (hl : (l.filter c.accepts).Nodup)
    (hl' : (l'.filter c.accepts).Nodup) (hsub : ∀ r ∈ l'.filter c.accepts, r ∈ l.filter c.accepts)
    (hids : ∀ x ∈ l.filter c.accepts, ∀ y ∈ l.filter c.accepts, x.id = y.id → x = y) :
    SameRules (collect C c l) (collect C c l') ↔
      ∀ r ∈ l.filter c.accepts, r ∉ l'.filter c.accepts →
        ¬ (C.readonly r.tableId = false ∨ c.includeReadonly = true) ∧
          l'.filter c.accepts ≠ [] := by
  unfold collect
  simp only
  set writable : Rule w → Bool := fun r => !C.readonly r.tableId || c.includeReadonly with hw
  have hwritable : ∀ r, (C.readonly r.tableId = false ∨ c.includeReadonly = true) ↔
      writable r = true := by simp [hw]
  simp only [hwritable]
  generalize l.filter c.accepts = more at *
  generalize l'.filter c.accepts = less at *
  constructor
  · intro h r hr hr'
    have hnot : ¬ writable r = true := by
      intro hwrite
      have hmem : r ∈ more.filter writable := mem_filter.2 ⟨hr, hwrite⟩
      rw [if_neg fun hnil => ne_nil_of_mem hmem hnil.1] at h
      split at h
      · cases h
      cases h with | ok hperm => ?_
      obtain ⟨r', hmem', hid⟩ := mem_map.1 (hperm.subset (mem_map_of_mem hmem))
      have hless := mem_of_mem_filter hmem'
      exact hr' (hids r' (hsub r' hless) r hr hid ▸ hless)
    refine ⟨hnot, ?_⟩
    rintro rfl
    simp only [filter_nil, ne_eq, not_true_eq_false, and_false, if_false, map_nil] at h
    split at h
    · cases h
    · next hsome =>
      cases h with | ok hperm => ?_
      exact hsome ⟨map_eq_nil_iff.1 hperm.eq_nil, ne_nil_of_mem hr⟩
  · intro h
    have hperm : (more.filter writable).Perm (less.filter writable) := by
      refine (perm_ext_iff_of_nodup (hl.filter _) (hl'.filter _)).2 fun r => ?_
      simp only [mem_filter]
      refine and_congr_left fun hwrite => ⟨fun hr => ?_, hsub r⟩
      by_contra hr'
      exact (h r hr hr').1 hwrite
    have hnil : more = [] ↔ less = [] := by
      constructor
      · rintro rfl
        exact eq_nil_iff_forall_not_mem.2 fun r hr => not_mem_nil (hsub r hr)
      · rintro rfl
        exact eq_nil_iff_forall_not_mem.2 fun r hr => (h r hr not_mem_nil).2 rfl
    have hnil' : more.filter writable = [] ↔ less.filter writable = [] :=
      ⟨fun h => (h ▸ hperm).nil_eq.symm, fun h => (h ▸ hperm).eq_nil⟩
    simp only [ne_eq, hnil, hnil']
    split
    · exact .error _
    · exact .ok (hperm.map _)

namespace Switch.Wf

variable {s : Switch w} (hs : s.Wf C) {r : Rule w}
include hs

/-- The rules of the bucket of a cookie are those whose cookie has its hash. -/
lemma mem_withCookie {cookie : BitVec 64} :
    r ∈ withCookie C s cookie ↔ r ∈ s.rules ∧ C.hashCookie r.flowCookie = C.hashCookie cookie := by
  simp only [withCookie, mem_filterMap, mem_filter, decide_eq_true_eq, Prod.exists]
  constructor
  · rintro ⟨h, id, ⟨hmem, rfl⟩, hrule⟩
    obtain ⟨hr, rfl⟩ := mem_of_rule hrule
    obtain ⟨r', hr', hid, hh⟩ := (hs.cookies _ _).1 hmem
    rw [hs.eq_of_id hr hr' hid.symm]
    exact ⟨hr', hh⟩
  · rintro ⟨hr, hh⟩
    exact ⟨_, r.id, ⟨(hs.cookies _ _).2 ⟨r, hr, rfl, rfl⟩, hh⟩, hs.rule hr⟩

lemma nodup_withCookie (cookie : BitVec 64) : (withCookie C s cookie).Nodup := by
  have heq : withCookie C s cookie =
      ((s.cookies.filter fun p => p.1 = C.hashCookie cookie).map Prod.snd).filterMap s.rule := by
    rw [filterMap_map]
    rfl
  rw [heq]
  refine Nodup.filterMap (fun i j r hi hj => ?_)
    (hs.index.sublist (filter_sublist.map _))
  rw [← (mem_of_rule hi).2, (mem_of_rule hj).2]

lemma nodup_rules : s.rules.Nodup := Nodup.of_map _ hs.ids

/-- The exact lookup finds the rule with that match and priority in that table. -/
lemma findRuleExactly_eq_some {t : ℕ} {cr : ClsRule w} :
    findRuleExactly s t cr = some r ↔ r ∈ s.rules ∧ r.tableId = t ∧ r.cr = cr := by
  constructor
  · intro h
    have hr := mem_of_find?_eq_some h
    exact ⟨hr, by simpa using find?_some h⟩
  · rintro ⟨hr, rfl, rfl⟩
    refine find_of_unique hr (by simp) fun r' hr' h => ?_
    have hkey : r'.tableId = r.tableId ∧ r'.cr = r.cr := by simpa using h
    exact hs.eq_of_key hr' hr hkey.1 hkey.2

variable {c : RuleCriteria w} {ids : List ℕ} {candidates : List (Rule w)} {M : Rule w → Prop}

/-- What is collected from a list of candidates. -/
lemma collect_ok (h : collect C c candidates = .ok ids) (hnodup : candidates.Nodup)
    (hsub : candidates ⊆ s.rules) :
    ids.Nodup ∧ ∀ id, id ∈ ids ↔ ∃ r ∈ candidates, r.id = id ∧ c.accepts r = true ∧
      (C.readonly r.tableId = false ∨ c.includeReadonly = true) := by
  unfold collect at h
  simp only at h
  split at h
  · cases h
  · obtain rfl := Except.ok.inj h
    constructor
    · refine Nodup.map_on (fun x hx y hy hxy => ?_) ((hnodup.filter _).filter _)
      exact hs.eq_of_id (hsub (mem_of_mem_filter (mem_of_mem_filter hx)))
        (hsub (mem_of_mem_filter (mem_of_mem_filter hy))) hxy
    · intro id
      simp only [mem_map, mem_filter, Bool.or_eq_true, Bool.not_eq_true']
      constructor
      · rintro ⟨r, ⟨⟨hr, ha⟩, hw⟩, rfl⟩
        exact ⟨r, hr, rfl, ha, hw⟩
      · rintro ⟨r, hr, rfl, ha, hw⟩
        exact ⟨r, ⟨⟨hr, ha⟩, hw⟩, rfl⟩

omit hs in
/-- A rule with the cookie of the criteria has its hash. -/
lemma hash_eq (hmask : c.cookieMask = be64Max) (ha : c.accepts r = true) :
    C.hashCookie r.flowCookie = C.hashCookie c.cookie := by
  have hcookie := (accepts_iff.1 ha).2.2.2.1
  rw [hmask, be64Max, BitVec.and_allOnes, BitVec.and_allOnes] at hcookie
  rw [hcookie]

/-- The loose scan visits the rules of the matching tables that are more specific than the
criteria. -/
lemma mem_looseScan : r ∈ looseScan C s c ↔ r ∈ s.rules ∧ r.cr.minimatch.Loose c.cr.minimatch ∧
    (c.tableId = r.tableId ∨ c.tableId = 0xff ∧ C.hidden r.tableId = false) := by
  simp only [looseScan, mem_flatMap, mem_filter, decide_eq_true_eq, mem_matchingTables]
  constructor
  · rintro ⟨t, ⟨-, ht⟩, hr, rfl, hl⟩
    exact ⟨hr, hl, ht⟩
  · rintro ⟨hr, hl, ht⟩
    exact ⟨r.tableId, ⟨hs.tables r hr, ht⟩, hr, rfl, hl⟩

lemma nodup_looseScan : (looseScan C s c).Nodup := by
  refine nodup_flatMap.2 ⟨fun t _ => hs.nodup_rules.filter _,
    (nodup_matchingTables c.tableId).imp fun {t t'} hne r hr hr' => ?_⟩
  simp only [mem_filter, decide_eq_true_eq] at hr hr'
  exact hne (hr.2.1.symm.trans hr'.2.1)

/-- The strict scan visits those with the very match and priority of the criteria. -/
lemma mem_strictScan : r ∈ strictScan C s c ↔ r ∈ s.rules ∧ r.cr = c.cr ∧
    (c.tableId = r.tableId ∨ c.tableId = 0xff ∧ C.hidden r.tableId = false) := by
  simp only [strictScan, mem_filterMap, hs.findRuleExactly_eq_some, mem_matchingTables]
  constructor
  · rintro ⟨t, ⟨-, ht⟩, hr, rfl, hcr⟩
    exact ⟨hr, hcr, ht⟩
  · rintro ⟨hr, hcr, ht⟩
    exact ⟨r.tableId, ⟨hs.tables r hr, ht⟩, hr, rfl, hcr⟩

lemma nodup_strictScan : (strictScan C s c).Nodup := by
  refine Nodup.filterMap (fun t t' r ht ht' => ?_) (nodup_matchingTables c.tableId)
  rw [← (hs.findRuleExactly_eq_some.1 ht).2.1, (hs.findRuleExactly_eq_some.1 ht').2.1]

section Scan

variable [DecidablePred M] {scan : List (Rule w)} (hnodup : scan.Nodup)
  (hmem : ∀ r, r ∈ scan ↔ r ∈ s.rules ∧ M r ∧
    (c.tableId = r.tableId ∨ c.tableId = 0xff ∧ C.hidden r.tableId = false))
include hnodup hmem

/-- What is collected from the rules with the cookie, or from those of the tables. -/
lemma collect_selects (h : (if checkTableId C c.tableId = false then .error .badTableId
      else if c.cookieMask = be64Max then
        collect C c ((withCookie C s c.cookie).filter fun r => M r)
      else collect C c scan) = .ok ids) :
    ids.Nodup ∧ ∀ id, id ∈ ids ↔ ∃ r ∈ s.rules, r.id = id ∧ c.Selects C r ∧ M r := by
  split_ifs at h with _ hmask
  · obtain ⟨hids, hiff⟩ := hs.collect_ok h ((hs.nodup_withCookie _).filter _)
      fun r hr => (hs.mem_withCookie.1 (mem_of_mem_filter hr)).1
    refine ⟨hids, fun id => (hiff id).trans ?_⟩
    simp only [mem_filter, hs.mem_withCookie, decide_eq_true_eq]
    constructor
    · rintro ⟨r, ⟨⟨hr, -⟩, hM⟩, rfl, ha, hw⟩
      exact ⟨r, hr, rfl, ⟨ha, fun _ => .inl hmask, hw⟩, hM⟩
    · rintro ⟨r, hr, rfl, ⟨ha, -, hw⟩, hM⟩
      exact ⟨r, ⟨⟨hr, hash_eq hmask ha⟩, hM⟩, rfl, ha, hw⟩
  · obtain ⟨hids, hiff⟩ := hs.collect_ok h hnodup fun r hr => ((hmem r).1 hr).1
    refine ⟨hids, fun id => (hiff id).trans ⟨?_, ?_⟩⟩
    · rintro ⟨r, hr, rfl, ha, hw⟩
      obtain ⟨hr, hM, htab⟩ := (hmem r).1 hr
      have hlt := (hs.tables r hr).trans_le C.nTables_le
      refine ⟨r, hr, rfl, ⟨ha, fun hall => .inr (htab.resolve_left ?_).2, hw⟩, hM⟩
      omega
    · rintro ⟨r, hr, rfl, ⟨ha, htab, hw⟩, hM⟩
      exact ⟨r, (hmem r).2 ⟨hr, hM, (accepts_iff.1 ha).1.imp_right
        fun hall => ⟨hall, (htab hall).resolve_left hmask⟩⟩, rfl, ha, hw⟩

/-- The rules with a cookie are collected from the cookie index as from the tables exactly if those
of hidden tables, which are left out there, do not matter. -/
lemma collect_withCookie_iff (hmask : c.cookieMask = be64Max) :
    SameRules (collect C c ((withCookie C s c.cookie).filter fun r => M r)) (collect C c scan) ↔
      c.HiddenHarmless C s M := by
  have hindex : ∀ r, r ∈ ((withCookie C s c.cookie).filter fun r => M r).filter c.accepts ↔
      r ∈ s.rules ∧ M r ∧ c.accepts r = true := by
    intro r
    simp only [mem_filter, hs.mem_withCookie, decide_eq_true_eq]
    exact ⟨fun ⟨⟨⟨hr, _⟩, hM⟩, ha⟩ => ⟨hr, hM, ha⟩,
      fun ⟨hr, hM, ha⟩ => ⟨⟨⟨hr, hash_eq hmask ha⟩, hM⟩, ha⟩⟩
  have hscan : ∀ r, r ∈ scan.filter c.accepts ↔ r ∈ s.rules ∧ M r ∧ c.accepts r = true ∧
      (c.tableId = 0xff → C.hidden r.tableId = false) := by
    intro r
    rw [mem_filter, hmem]
    constructor
    · rintro ⟨⟨hr, hM, htab⟩, ha⟩
      have hlt := (hs.tables r hr).trans_le C.nTables_le
      exact ⟨hr, hM, ha, fun hall => (htab.resolve_left (by omega)).2⟩
    · rintro ⟨hr, hM, ha, hvisible⟩
      exact ⟨⟨hr, hM, (accepts_iff.1 ha).1.imp_right fun hall => ⟨hall, hvisible hall⟩⟩, ha⟩
  rw [collect_iff (((hs.nodup_withCookie _).filter _).filter _) (hnodup.filter _)
    (fun r hr => (hindex r).2 ⟨((hscan r).1 hr).1, ((hscan r).1 hr).2.1, ((hscan r).1 hr).2.2.1⟩)
    fun x hx y hy => hs.eq_of_id ((hindex x).1 hx).1 ((hindex y).1 hy).1]
  unfold HiddenHarmless
  constructor
  · intro h hall r hr hhidden ha hM
    obtain ⟨hwrite, hne⟩ := h r ((hindex r).2 ⟨hr, hM, ha⟩) fun hmem =>
      absurd (((hscan r).1 hmem).2.2.2 hall) (by simp [hhidden])
    obtain ⟨r', hr'⟩ := exists_mem_of_ne_nil _ hne
    obtain ⟨hr', hM', ha', hvisible⟩ := (hscan r').1 hr'
    exact ⟨hwrite, r', hr', hvisible hall, ha', hM'⟩
  · intro h r hr hnot
    obtain ⟨hr, hM, ha⟩ := (hindex r).1 hr
    obtain ⟨hall, hhidden⟩ : c.tableId = 0xff ∧ C.hidden r.tableId = true := by
      by_contra hno
      exact hnot ((hscan r).2 ⟨hr, hM, ha, fun hall => by simpa [hall] using hno⟩)
    obtain ⟨hwrite, r', hr', hvisible, ha', hM'⟩ := h hall r hr hhidden ha hM
    exact ⟨hwrite, ne_nil_of_mem ((hscan r').2 ⟨hr', hM', ha', fun _ => hvisible⟩)⟩

end Scan

/-- **`collect_rules_loose()` collects the rules that match loosely.** -/
lemma collectRulesLoose_ok (h : collectRulesLoose C s c = .ok ids) :
    ids.Nodup ∧ ∀ id, id ∈ ids ↔ ∃ r ∈ s.rules, r.id = id ∧ c.Selects C r ∧
      r.cr.minimatch.Loose c.cr.minimatch :=
  hs.collect_selects hs.nodup_looseScan (fun _ => hs.mem_looseScan) h

/-- **`collect_rules_strict()` collects the rules with the key.** -/
lemma collectRulesStrict_ok (h : collectRulesStrict C s c = .ok ids) :
    ids.Nodup ∧ ∀ id, id ∈ ids ↔ ∃ r ∈ s.rules, r.id = id ∧ c.Selects C r ∧ r.cr = c.cr :=
  hs.collect_selects hs.nodup_strictScan (fun _ => hs.mem_strictScan) h

end Switch.Wf

/-! ## What a flow mod does -/

/-- Counting the cookies of learn actions touches no other part of the switch. -/
lemma learnedCookiesInc_eq (s : Switch w) (ofpacts : List Ofpact) :
    ∃ learned, s.learnedCookiesInc ofpacts = { s with learnedCookies := learned } :=
  foldlRecOn (motive := fun s' : Switch w => ∃ learned,
    s' = { s with learnedCookies := learned }) _ _ ⟨s.learnedCookies, rfl⟩ (by
      rintro _ ⟨learned, rfl⟩ c -
      exact ⟨_, rfl⟩)

lemma learnedCookiesDec_eq (p : Switch w × List (BitVec 64 × ℕ)) (ofpacts : List Ofpact) :
    ∃ learned, (learnedCookiesDec ofpacts p).1 = { p.1 with learnedCookies := learned } :=
  foldlRecOn (motive := fun p' : Switch w × List (BitVec 64 × ℕ) => ∃ learned,
    p'.1 = { p.1 with learnedCookies := learned }) _ _ ⟨p.1.learnedCookies, rfl⟩ (by
      rintro ⟨_, dead⟩ ⟨learned, rfl⟩ c -
      exact ⟨_, rfl⟩)

/-- One iteration of `modify_flows__()` changes the rule, and counts. -/
lemma modifyFlow_eq (fm : FlowMod w) (p : Switch w × List (BitVec 64 × ℕ))
    (h : p.1.rule id = some r) : ∃ learned, (modifyFlow C fm p id).1 =
      { modifyRule C fm p.1 r with learnedCookies := learned } := by
  unfold modifyFlow
  simp only [h]
  split
  · obtain ⟨l, hl⟩ := learnedCookiesInc_eq (modifyRule C fm p.1 r) fm.ofpacts
    obtain ⟨l', hl'⟩ := learnedCookiesDec_eq
      ((modifyRule C fm p.1 r).learnedCookiesInc fm.ofpacts, p.2) r.ofpacts
    refine ⟨l', hl'.trans ?_⟩
    rw [hl]
  · exact ⟨(modifyRule C fm p.1 r).learnedCookies, rfl⟩

lemma Switch.rule_set_of_ne (s : Switch w) (h : id ≠ r.id) : (s.set r).rule id = s.rule id := by
  unfold rule set
  induction s.rules with
  | nil => rfl
  | cons x l ih =>
    by_cases hx : x.id = r.id
    · simp [hx, h.symm, ih]
    · simp [hx, find?_cons, ih]

/-- **What survives each modification survives `modify_flows__()`.**  A rule is modified as it was
before. -/
lemma modifyFlows_induct {P : Switch w → Prop} (hP : Closed P) (hs : s.Wf C) (h : P s)
    (hnodup : ids.Nodup)
    (hmodify : ∀ (s' : Switch w) (r : Rule w), s'.Wf C → P s' → r ∈ s.rules → r ∈ s'.rules →
      r.id ∈ ids → P (modifyRule C fm s' r)) : P (modifyFlows C s fm ids).1 := by
  have hfold : ∀ (l : List ℕ) (p : Switch w × List (BitVec 64 × ℕ)), l.Nodup → l ⊆ ids →
      p.1.Wf C → P p.1 → (∀ i ∈ l, p.1.rule i = s.rule i) →
      P (l.foldl (modifyFlow C fm) p).1 := by
    intro l
    induction l with
    | nil => exact fun _ _ _ _ hp _ => hp
    | cons id l ih =>
      intro p hl hsub hwf hp hsame
      rw [nodup_cons] at hl
      have hrest : l ⊆ ids := fun i hi => hsub (mem_cons_of_mem id hi)
      rw [foldl_cons]
      cases hrule : p.1.rule id with
      | none =>
        have heq : modifyFlow C fm p id = p := by simp [modifyFlow, hrule]
        rw [heq]
        exact ih p hl.2 hrest hwf hp fun i hi => hsame i (mem_cons_of_mem id hi)
      | some r =>
        obtain ⟨hr, hid⟩ := mem_of_rule hrule
        have hr0 := (mem_of_rule ((hsame id mem_cons_self).symm.trans hrule)).1
        obtain ⟨learned, heq⟩ := modifyFlow_eq fm p hrule
        refine ih _ hl.2 hrest ?_ ?_ fun i hi => ?_
        · rw [heq]
          exact Switch.Wf.closed.learned learned (hwf.modifyRule fm hr)
        · rw [heq]
          exact hP.learned learned
            (hmodify p.1 r hwf hp hr0 hr (hid ▸ hsub mem_cons_self))
        · have hne : i ≠ (modified fm r).id := by
            show i ≠ r.id
            rw [hid]
            rintro rfl
            exact hl.1 hi
          rw [heq, ← hsame i (mem_cons_of_mem id hi)]
          show (modifyRule C fm p.1 r).rules.find? _ = _
          rw [modifyRule_rules]
          exact p.1.rule_set_of_ne hne
  exact hP.learnedCookiesFlush
    (hfold ids (s, []) hnodup (fun _ hi => hi) hs h fun _ _ => rfl)

/-- The rules that a flow mod may modify. -/
def FlowMod.Touches (fm : FlowMod w) (r : Rule w) : Prop :=
  match fm.command with
  | .add => r.tableId = fm.target ∧ r.cr = fm.cr
  | .modify =>
    (fm.tableId = r.tableId ∨ fm.tableId = 0xff) ∧ r.cr.minimatch.Loose fm.minimatch ∧
      r.flowCookie &&& fm.cookieMask = fm.cookie &&& fm.cookieMask
  | .modifyStrict =>
    (fm.tableId = r.tableId ∨ fm.tableId = 0xff) ∧ r.cr = fm.cr ∧
      r.flowCookie &&& fm.cookieMask = fm.cookie &&& fm.cookieMask
  | .delete | .deleteStrict => False

/-- The criteria of a rule that is collected, as far as modifications are concerned. -/
lemma RuleCriteria.Selects.table_cookie (h : c.Selects C r) :
    (c.tableId = r.tableId ∨ c.tableId = 0xff) ∧
      r.flowCookie &&& c.cookieMask = c.cookie &&& c.cookieMask :=
  ⟨(accepts_iff.1 h.accepts).1, (accepts_iff.1 h.accepts).2.2.2.1⟩

section

variable {P : Switch w → Prop} {s : Switch w} {fm : FlowMod w}

/-- The rules that are evicted are gone before the new one is inserted. -/
lemma addNewFlow_induct (hP : Closed P) (hs : s.Wf C) (h : P s)
    (hinsert : ∀ s' : Switch w, s'.Wf C → P s' → s'.rules ⊆ s.rules → P (insertRule C s' fm)) :
    P (addNewFlow C s fm).1 := by
  unfold addNewFlow
  split_ifs with hoverlap
  · exact h
  · have hboth : Closed fun s' : Switch w => s'.Wf C ∧ P s' ∧ s'.rules ⊆ s.rules :=
      { remove := fun id h' => ⟨h'.1.remove id, hP.remove id h'.2.1,
          (closed_subset s.rules).remove id h'.2.2⟩
        learned := fun l h' => ⟨Switch.Wf.closed.learned l h'.1, hP.learned l h'.2.1, h'.2.2⟩ }
    obtain ⟨hs', h', hsub⟩ : (evictRulesFromTable C s fm.target 1).1.Wf C ∧
        P (evictRulesFromTable C s fm.target 1).1 ∧
        (evictRulesFromTable C s fm.target 1).1.rules ⊆ s.rules :=
      hboth.deleteFlows ⟨hs, h, fun _ hr => hr⟩ _
    cases hevict : evictRulesFromTable C s fm.target 1 with
    | mk s' e =>
      rw [hevict] at hs' h' hsub
      cases e with
      | some e => exact h'
      | none => exact hP.learnedCookiesInc (hinsert s' hs' h' hsub) _

/-- **What survives the steps of `add_flow()` survives `add_flow()`.** -/
lemma addFlow_induct (hP : Closed P) (hs : s.Wf C) (h : P s)
    (hmodify : ∀ (s' : Switch w) (r : Rule w), s'.Wf C → P s' → r ∈ s.rules → r ∈ s'.rules →
      r.tableId = fm.target → r.cr = fm.cr → P (modifyRule C { fm with modifyCookie := true } s' r))
    (hinsert : ∀ s' : Switch w, s'.Wf C → P s' → s'.rules ⊆ s.rules → fm.target < C.nTables →
      (∀ r ∈ s'.rules, r.tableId = fm.target → r.cr ≠ fm.cr) → P (insertRule C s' fm)) :
    P (addFlow C s fm).1 := by
  unfold addFlow
  split_ifs with hcheck hread hhidden
  · exact h
  · exact h
  · exact h
  · have htarget : fm.target < C.nTables := by
      simp only [checkTableId, decide_eq_false_iff_not, not_not] at hcheck
      unfold FlowMod.target
      split
      · exact C.nTables_pos
      · exact hcheck.resolve_left ‹_›
    cases hfind : findRuleExactly s fm.target fm.cr with
    | some r =>
      obtain ⟨hr, htable, hcr⟩ := hs.findRuleExactly_eq_some.1 hfind
      refine modifyFlows_induct hP hs h (nodup_singleton _)
        fun s' r' hs' h' hr' hr'' hid => ?_
      obtain rfl := hs.eq_of_id hr' hr (by simpa using hid)
      exact hmodify s' r' hs' h' hr' hr'' htable hcr
    | none =>
      exact addNewFlow_induct hP hs h fun s' hs' h' hsub => hinsert s' hs' h' hsub htarget
        fun r hr htable hcr => by simpa [htable, hcr] using find?_eq_none.1 hfind r (hsub hr)

/-- **What survives the steps of a flow mod survives the flow mod.** -/
theorem handleFlowMod_induct (hP : Closed P) (hs : s.Wf C) (h : P s)
    (hmodify : ∀ (b : Bool) (s' : Switch w) (r : Rule w), s'.Wf C → P s' → r ∈ s.rules →
      r ∈ s'.rules → fm.Touches r → P (modifyRule C { fm with modifyCookie := b } s' r))
    (hinsert : ∀ s' : Switch w, s'.Wf C → P s' → s'.rules ⊆ s.rules → fm.target < C.nTables →
      (∀ r ∈ s'.rules, r.tableId = fm.target → r.cr ≠ fm.cr) → P (insertRule C s' fm)) :
    P (handleFlowMod C s fm).1 := by
  -- `modify_flows_add()` only adds a flow if every cookie is as good as another
  have htarget : ∀ r : Rule w, r.tableId = fm.target →
      fm.tableId = r.tableId ∨ fm.tableId = 0xff := by
    intro r hr
    rw [hr, FlowMod.target]
    split
    · exact .inr ‹_›
    · exact .inl rfl
  have hadd : (∀ r : Rule w, r.tableId = fm.target → r.cr = fm.cr → fm.cookieMask = 0 →
      fm.Touches r) → P (modifyFlowsAdd C s fm).1 := by
    intro htouch
    unfold modifyFlowsAdd
    split_ifs with hmask
    · exact h
    · rw [not_or, not_not] at hmask
      exact addFlow_induct hP hs h (fun s' r hs' h' hr hr' ht hcr =>
        hmodify true s' r hs' h' hr hr' (htouch r ht hcr hmask.1)) hinsert
  have hfound : ∀ {c : RuleCriteria w} {S : Rule w → Prop} {ids : List ℕ},
      (ids.Nodup ∧ ∀ id, id ∈ ids ↔ ∃ r ∈ s.rules, r.id = id ∧ c.Selects C r ∧ S r) →
      (∀ r, c.Selects C r → S r → fm.Touches r) → P (modifyFlows C s fm ids).1 := by
    intro c S ids hids htouch
    refine modifyFlows_induct hP hs h hids.1 fun s' r hs' h' hr hr' hid => ?_
    obtain ⟨r', hr'', hid', hsel, hS⟩ := (hids.2 r.id).1 hid
    obtain rfl := hs.eq_of_id hr'' hr hid'
    exact hmodify fm.modifyCookie s' r' hs' h' hr hr' (htouch r' hsel hS)
  unfold handleFlowMod
  cases hcommand : fm.command with
  | add =>
    refine addFlow_induct hP hs h (fun s' r hs' h' hr hr' ht hcr => ?_) hinsert
    refine hmodify true s' r hs' h' hr hr' ?_
    simp only [FlowMod.Touches, hcommand]
    exact ⟨ht, hcr⟩
  | modify =>
    simp only [modifyFlowsLoose]
    split
    · exact h
    · refine hadd fun r ht hcr hmask => ?_
      simp only [FlowMod.Touches, hcommand, hmask, hcr]
      exact ⟨htarget r ht, Match.Loose.refl _, BitVec.and_zero.trans BitVec.and_zero.symm⟩
    · refine hfound (hs.collectRulesLoose_ok ‹_›) fun r hsel hloose => ?_
      simp only [FlowMod.Touches, hcommand]
      exact ⟨hsel.table_cookie.1, hloose, hsel.table_cookie.2⟩
  | modifyStrict =>
    simp only [modifyFlowStrict]
    split
    · exact h
    · refine hadd fun r ht hcr hmask => ?_
      simp only [FlowMod.Touches, hcommand, hmask, hcr]
      exact ⟨htarget r ht, trivial, BitVec.and_zero.trans BitVec.and_zero.symm⟩
    · refine hfound (hs.collectRulesStrict_ok ‹_›) fun r hsel hcr => ?_
      simp only [FlowMod.Touches, hcommand]
      exact ⟨hsel.table_cookie.1, hcr, hsel.table_cookie.2⟩
    · exact h
  | delete =>
    simp only [deleteFlowsLoose]
    split
    · exact h
    · exact hP.deleteFlows h _
  | deleteStrict =>
    simp only [deleteFlowStrict]
    split
    · exact h
    · exact hP.deleteFlows h _

/-- Every flow modification, whether it is carried out or refused, leaves the switch well formed.
-/
lemma Switch.Wf.handleFlowMod (hs : s.Wf C) (fm : FlowMod w) : (handleFlowMod C s fm).1.Wf C :=
  handleFlowMod_induct closed hs hs (fun _ _ _ hs' _ _ hr' _ => hs'.modifyRule _ hr')
    fun _ hs' _ _ htarget hnew => hs'.insertRule htarget hnew

end

end Ofproto

end OVS
