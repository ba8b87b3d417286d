import OpenVSwitch.Xlate.Simulation

/-!
# How deep a translation goes

Rules, groups and patch ports may send a packet in circles, so the translation counts: `resubmits`
is the number of rules that it has gone through, and `recurse` the number of rules and buckets that
it is in.  Both have a limit.  The action set of a bridge behind a patch port is translated *inside*
the translation that has output to the port, but it is not counted.

* `nesting_bounded` — every translation ends, after not more than 4097 rules.  At most 134
  calls of `do_xlate_actions()` are nested inside one another, provided that no action set is
  executed directly inside the translation of another one: then there are at most two calls for each
  level of `recurse`.
* `nesting_unbounded` — without that condition two bridges that forward to each other in their
  action sets need more.

**Results do not depend on the limit.**  `xlateActions env n` fails if more than `n` calls are
nested. If it does not, then a larger limit makes no difference (`xlateActions_follows`).
-/

namespace OVS

namespace Xlate

open Bounded Setup

variable {β ω α : Type} {x : Request β ω α}

section Limit

variable {env : Env β ω α} {m n : ℕ}

/-- Two translations of a packet of which nothing is said about returning. -/
lemma xlateActions_follows (h : m ≤ n) (x : Request β ω α) :
    Sim False (fun c => Kept (x.begin env).core c.core) (fun _ => True) (Similar Leeway.equal)
      (xlateActions env m x) (xlateActions env n x) := by
  have hfollows : Follows env Kept Leeway.equal m n := doXlateActions_follows (respects_kept env) h
  exact xlateActions_runs ((returns_free env m).ok (respects_kept env) hfollows)
    (hfollows.starts x) hfollows.setOk

/-- A larger limit makes no difference. -/
lemma xlateActions_of_le (h : m ≤ n) {c : Ctx β ω α} (hc : xlateActions env m x = some c) :
    xlateActions env n x = some c := by
  obtain ⟨d, hd, hsim⟩ := (xlateActions_follows h x).follow c hc trivial
  rw [hd, hsim.eq trivial]

end Limit

/-! ## Every translation ends -/

section Ends

variable {env : Env β ω α} {c : Ctx β ω α} {n : ℕ}

/-- The number of calls that may still be nested inside the one that is made in a context: one for
each rule that is left, and one for a group. -/
def Core.need (k : Core β) : ℕ :=
  maxResubmits + maxInternalResubmits - k.resubmits + (!k.inGroup).toNat + 1

/-- There are not too many rules yet, and the limit is large enough. -/
def Core.Enough (n : ℕ) (k : Core β) : Prop :=
  k.resubmits ≤ maxResubmits + maxInternalResubmits ∧ k.need ≤ n

/-- The number of rules only grows and the group is the same, so what was enough stays enough. -/
lemma Core.Enough.kept {k k' : Core β} (h : k.Enough n) (hkept : Kept k k') : k'.Enough n := by
  obtain ⟨hlimit, hneed⟩ := h
  have hle := hkept.resubmits_le
  refine ⟨hkept.resubmits_limit hlimit, le_trans ?_ hneed⟩
  simp only [Core.need, hkept.inGroup]
  omega

section

variable (h : ∀ ofpacts (c : Ctx β ω α), c.core.Enough n → (doXlateActions env n ofpacts c).isSome)
include h

/-- With enough levels left every list of actions returns, and so does what it starts one level
down. -/
lemma returns_of_enough : Returns env True (Core.Enough (n + 1)) (Core.Enough n) n where
  keptJ hkept hk := hk.kept hkept
  keptG hkept hk := hk.kept hkept
  enterPeer hk := hk
  enterGroup {k} hk _ hin := by
    obtain ⟨hlimit, hneed⟩ := hk
    refine ⟨hlimit, ?_⟩
    simp only [Core.need, hin, Bool.not_false, Bool.toNat_true] at hneed
    simp only [Core.need, Bool.not_true, Bool.toNat_false]
    omega
  rule {c rule} tableId wc _ hk hcheck := by
    obtain ⟨_, hneed⟩ := hk
    simp only [xlateResubmitResourceCheck, decide_eq_true_eq] at hcheck
    refine h _ _ ⟨?_, ?_⟩
    · exact hcheck.2.1
    · simp only [Core.need, Ctx.core] at hneed
      simp only [Core.need, Ctx.core, Ctx.enterRule]
      omega
  bucket _ hk := h _ _ hk

/-- The setup for translations with a limit that is large enough. -/
abbrev Setup.enough (env : Env β ω α) (n : ℕ) : Setup β ω α :=
  .limits env Kept Leeway.equal True (Core.Enough (n + 1)) (Core.Enough n) n n

omit h in
lemma follows_equal (env : Env β ω α) (n : ℕ) : Follows env Kept Leeway.equal n n :=
  doXlateActions_follows (respects_kept env) le_rfl

lemma enough_ok : (enough env n).Ok :=
  (returns_of_enough h).ok (respects_kept env) (follows_equal env n)

lemma enough_setOk : (enough env n).SetOk := by
  intro c c' d' hk hkept hless hsim
  refine Follows.setRuns (follows_equal env n) hsim fun _ => h _ _ ?_
  obtain ⟨hlimit, hneed⟩ := hk
  have hlimit' := hkept.resubmits_limit hlimit
  have hin := hkept.inGroup
  refine ⟨hlimit', ?_⟩
  simp only [Core.need, Ctx.core] at hneed hin hlimit'
  simp only [Core.need, Ctx.core, Ctx.enterActionSet, Ctx.push, hin]
  omega

end

/-- A list of actions is translated if the limit is large enough. -/
lemma doXlateActions_isSome (n : ℕ) (ofpacts : List Ofpact) (c : Ctx β ω α)
    (hc : c.core.Enough n) : (doXlateActions env n ofpacts c).isSome := by
  induction n generalizing ofpacts c with
  | zero => exact absurd hc.2 (by simp [Core.need])
  | succ n ih =>
    exact (xlateOfpacts_runs (enough_ok ih) (enough_setOk ih) ofpacts (.refl hc)).isSome trivial

lemma begin_resubmits (env : Env β ω α) (x : Request β ω α) : (x.begin env).resubmits = 0 :=
  congrArg Core.resubmits (begin_core env x)

/-- The number of nested calls that every translation can do with. -/
def nestingLimit : ℕ := maxResubmits + maxInternalResubmits + 2

/-- Every translation ends. -/
lemma xlateActions_isSome_of_le (hn : nestingLimit ≤ n) (x : Request β ω α) :
    (xlateActions env n x).isSome := by
  have hbegin : (x.begin env).core.Enough n := by
    have hresubmits := begin_resubmits env x
    have hin : (x.begin env).inGroup = false := congrArg Core.inGroup (begin_core env x)
    refine ⟨?_, ?_⟩
    · rw [Ctx.core, hresubmits]
      exact Nat.zero_le _
    · simp only [Ctx.core, hresubmits, hin]
      exact hn
  refine (xlateActions_runs (enough_ok (doXlateActions_isSome n)) ⟨?_, ?_, ?_⟩
    (enough_setOk (doXlateActions_isSome n))).isSome trivial
  · exact ⟨hbegin.1, hbegin.2.trans (Nat.le_succ n)⟩
  · exact Follows.runs (follows_equal env n) (.refl _) fun _ => doXlateActions_isSome n _ _ hbegin
  · intro c d hkept hst
    have henough := hbegin.kept hkept
    exact Follows.setRuns (follows_equal env n) hst fun _ => doXlateActions_isSome n _ _ henough

end Ends

/-! ## Action sets inside action sets -/

section Levels

variable {env : Env β ω α} {m n : ℕ} {k k' : Core β} {c : Ctx β ω α}

/-- A step that makes calls which are not counted: an action set is executed directly inside the
translation of another one, or a packet is flooded for an ARP request. -/
def Step.nests : Step β → Bool
  | .actionSet s => s.inSetCall
  | .arpRequest _ => true
  | _ => false

/-- There are no such steps. -/
def Counted (t : List (Step β)) : Prop := ∀ e ∈ t, e.nests = false

/-- Two translations in the same context, of which the second one follows as long as there are no
such steps. -/
def Leeway.counted : Leeway β :=
  .none Counted fun h e he => h e (List.mem_append_left _ he)

/-- The number of rules and buckets that a translation may be in. -/
def recursionLimit : ℕ := maxResubmitRecursion + maxInternalResubmits

/-- Two calls for each level of recursion that is left are enough for a rule or a bucket, and one
call less for an action set. -/
structure Core.Level (m : ℕ) (k : Core β) : Prop where
  recurse : k.recurse ≤ recursionLimit
  enough : 2 * recursionLimit + 2 ≤ m + 2 * k.recurse + k.inSetCall.toNat

lemma Core.Level.kept (h : k.Level m) (hkept : Kept k k') : k'.Level m := by
  obtain ⟨hrecurse, henough⟩ := h
  rw [← hkept.recurse] at hrecurse henough
  rw [← hkept.inSetCall] at henough
  exact ⟨hrecurse, henough⟩

/-- The next rule or bucket. -/
lemma Core.Level.next (h : k.Level (m + 1)) (hlt : k.recurse < recursionLimit)
    (hrecurse : k'.recurse = k.recurse + 1) (hset : k'.inSetCall = false) : k'.Level m := by
  have henough := h.enough
  have hle := Bool.toNat_le k.inSetCall
  refine ⟨by omega, ?_⟩
  rw [hset, Bool.toNat_false]
  omega

/-- The calls with limit `m` return where the ones with limit `n` do, if there are enough levels. -/
def FollowsAt (env : Env β ω α) (n m : ℕ) : Prop :=
  ∀ (ofpacts : List Ofpact) (c : Ctx β ω α), c.core.Level m →
    (Setup.free env Kept Leeway.counted n m).Runs c (doXlateActions env n ofpacts c)
      (doXlateActions env m ofpacts c)

/-- Translations of which the second one has the limit `m` for its calls. -/
abbrev Setup.atLevel (env : Env β ω α) (n m : ℕ) : Setup β ω α :=
  .limits env Kept Leeway.counted False (Core.Level (m + 1))
    (fun k => k.Level (m + 1) ∧ k.recurse < recursionLimit) n m

/-- A rule or a bucket is one level further in, where one call less is enough. -/
lemma atLevel_ok (h : FollowsAt env n m) : (atLevel env n m).Ok where
  preserves := kept_preserves env
  kept := id
  keptJ hkept hk := hk.kept hkept
  keptG hkept hk := ⟨hk.1.kept hkept, hkept.recurse.trans_lt hk.2⟩
  enterPeer hk := ⟨hk.recurse, hk.enough⟩
  enterGroup hk hlt _ := ⟨⟨hk.recurse, hk.enough⟩, hlt⟩
  rule {c d} rule tableId wc hc hcheck := by
    obtain rfl := hc.similar.eq trivial
    simp only [xlateResubmitResourceCheck, decide_eq_true_eq] at hcheck
    exact h _ _ (hc.core.next hcheck.1 rfl rfl)
  bucket {c d} ofpacts hc := by
    obtain rfl := hc.similar.eq trivial
    exact h _ _ (hc.core.1.next hc.core.2 rfl rfl)

/-- An action set that is executed directly inside the translation of another one makes the steps of
the first translation bad. -/
lemma setRuns_of_level (h : FollowsAt env n m) (hc : c.core.Level (m + 1)) :
    (atLevel env n m).SetRuns c c := by
  cases hin : c.inSetCall with
  | false =>
    have henough := hc.enough
    simp only [Ctx.core, hin, Bool.toNat_false] at henough
    refine h _ _ ⟨hc.recurse, ?_⟩
    simp only [Ctx.core, Ctx.enterActionSet, Ctx.push, Bool.toNat_true]
    omega
  | true =>
    refine ⟨fun s hs => (respects_kept env).doXlateActions hs, fun s hs hgood => ?_, False.elim⟩
    have hkept : Kept c.enterActionSet.core s.core := (respects_kept env).doXlateActions hs
    have hmem : Step.actionSet c.snapshot ∈ s.trace :=
      hkept.trace.subset (List.mem_append_right _ (List.mem_singleton_self _))
    have hnot : c.inSetCall = false := hgood _ hmem
    simp [hin] at hnot

lemma atLevel_setOk (h : FollowsAt env n m) : (atLevel env n m).SetOk := by
  intro c c' d' hk hkept _ hsim
  obtain rfl := hsim.eq trivial
  exact setRuns_of_level h (hk.kept hkept)

/-- By induction on the limit: the calls that a call makes have a limit smaller by one. -/
lemma followsAt (env : Env β ω α) (n m : ℕ) : FollowsAt env n m := by
  induction m generalizing n with
  | zero =>
    intro _ c hc
    have hrecurse := hc.recurse
    have henough := hc.enough
    have hle := Bool.toNat_le c.core.inSetCall
    omega
  | succ m ih =>
    intro ofpacts c hc
    cases n with
    | zero => exact ⟨nofun, nofun, False.elim⟩
    | succ n =>
      exact xlateOfpacts_runs (atLevel_ok (ih n)) (atLevel_setOk (ih n)) ofpacts (.refl hc)

/-- The number of nested calls of `do_xlate_actions()` that there should be at most. -/
def maxNesting : ℕ := 2 * (maxResubmitRecursion + maxInternalResubmits + 1) + 2

/-- If all calls are counted, then the limit may be small. -/
lemma xlateActions_of_counted (hm : maxNesting ≤ m) (hc : xlateActions env n x = some c)
    (hcounted : Counted c.trace) : xlateActions env m x = some c := by
  have hrecurse : (x.begin env).core.recurse = 0 := congrArg Core.recurse (begin_core env x)
  have hlevel : ∀ m', maxNesting ≤ m' → (x.begin env).core.Level m' := by
    intro m' hm'
    rw [maxNesting] at hm'
    refine ⟨by omega, ?_⟩
    rw [recursionLimit]
    omega
  have hstarts : (atLevel env n m).Starts x := by
    refine ⟨hlevel _ (by omega), followsAt env n m _ _ (hlevel m hm), fun c d hkept hsim => ?_⟩
    obtain rfl := hsim.eq trivial
    exact setRuns_of_level (followsAt env n m) ((hlevel _ (by omega)).kept hkept)
  obtain ⟨d, hd, hsim⟩ := (xlateActions_runs (atLevel_ok (followsAt env n m)) hstarts
    (atLevel_setOk (followsAt env n m))).follow c hc hcounted
  rw [hd, hsim.eq trivial]

end Levels

/-! ## The bounds -/

/-- **A translation goes through at most 4097 rules, and if no action set is executed directly
inside another one, then at most 134 calls are nested.** -/
theorem nesting_bounded (env : Env β ω α) (x : Request β ω α) :
    ∃ c, c.resubmits ≤ maxResubmits + maxInternalResubmits ∧
      (∀ n, nestingLimit ≤ n → xlateActions env n x = some c) ∧
      (Counted c.trace → ∀ n, maxNesting ≤ n → xlateActions env n x = some c) := by
  obtain ⟨c, hc⟩ := Option.isSome_iff_exists.mp (xlateActions_isSome_of_le le_rfl x)
  refine ⟨c, ?_, fun n hn => xlateActions_of_le hn hc,
    fun hcounted n hn => xlateActions_of_counted hn hc hcounted⟩
  refine ((xlateActions_follows le_rfl x).holds c hc).resubmits_limit ?_
  rw [Ctx.core, begin_resubmits]
  exact Nat.zero_le _

/-- Rules that output to a patch port, and to port 3 in the action set. -/
def plainTables (_ : Bool) (_ : BitVec 16) : List Ofpact :=
  [.writeActions [.output 3 0], .output 1 0]

theorem nesting_bounded_plainTables :
    (xlateActions (twoBridges plainTables) maxNesting fromPort3).map (fun c => c.trace.length) =
      some 8 := by
  obtain ⟨c, _, hc, hbounded⟩ := nesting_bounded (twoBridges plainTables) fromPort3
  have hsteps : (xlateActions (twoBridges plainTables) nestingLimit fromPort3).map
      (fun c => (c.trace.any Step.nests, c.trace.length)) = some (false, 8) := by decide +kernel
  rw [hc _ le_rfl, Option.map_some, Option.some.injEq, Prod.mk.injEq] at hsteps
  have hcounted : Counted c.trace := by simpa [Counted] using hsteps.1
  rw [hbounded hcounted _ le_rfl, Option.map_some, hsteps.2]

/-- The rules of two bridges that send a packet back and forth in their action sets, through the two
patch ports in turn. -/
def loopTables (_ : Bool) (inPort : BitVec 16) : List Ofpact :=
  [.writeActions [.output (if inPort = 1 then 2 else 1) 0]]

/-- **More than 134 calls are nested if action sets output to patch ports.** -/
theorem nesting_unbounded : xlateActions (twoBridges loopTables) maxNesting fromPort3 = none ∧
    (xlateActions (twoBridges loopTables) nestingLimit fromPort3).isSome := by
  refine ⟨by decide +kernel, xlateActions_isSome_of_le le_rfl fromPort3⟩

end Xlate

end OVS
