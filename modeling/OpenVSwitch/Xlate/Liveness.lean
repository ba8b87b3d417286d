import Mathlib.Data.Set.Card
import OpenVSwitch.Xlate.Translate

/-!
# Live buckets

A bucket may watch a port and a group.  `bucket_is_alive()` asks the buckets of the group, which may
watch groups themselves, and so on.

* `live_buckets_iff` — it is right about all buckets, and a fast failover group takes its first live
  bucket, exactly if no bucket depends on a group.
* `watched_groups_inverted` — it takes a group without live buckets for a live one.
* `liveness_calls_iff` — how often it is called: once for each path along which buckets are asked.
* `liveness_calls_explode` — two buckets are enough for 2^64 calls.
-/

namespace OVS

namespace Xlate

open List

variable {α β ω δ : Type}

/-- The buckets of the group that a bucket watches. -/
def Liveness.watched (L : Liveness α) (b : Bucket α) : Option (List (Bucket α)) :=
  if b.watchGroup = ofpgAny then none else L.group b.watchGroup

/-- A bucket is live if it watches nothing, or a port that may be enabled, or a group that has a
live bucket. -/
inductive Live (L : Liveness α) : Bucket α → Prop where
  | unwatched {b} (h : b.hasLiveness = false) : Live L b
  | port {b} (hany : b.watchPort ≠ ofppAny) (h : L.mayEnable b.watchPort = some true) : Live L b
  | group {b b' buckets} (h : L.watched b = some buckets) (hmem : b' ∈ buckets)
      (hlive : Live L b') : Live L b

variable {L : Liveness α} {b : Bucket α} {buckets : List (Bucket α)} {n N k m : ℕ}

/-- A bucket does not depend on a group: the one that it watches does not exist, or its port is
enough. -/
def Liveness.NoGroup (L : Liveness α) (b : Bucket α) : Prop :=
  L.watched b = none ∨ b.watchPort ≠ ofppAny ∧ L.mayEnable b.watchPort = some true

lemma bucketIsAlive_succ : bucketIsAlive L (n + 1) b = true ↔ b.hasLiveness = false ∨
      (b.watchPort ≠ ofppAny ∧ L.mayEnable b.watchPort = some true) ∨
      ∃ buckets, L.watched b = some buckets ∧ ∀ b' ∈ buckets, bucketIsAlive L n b' = false := by
  unfold Liveness.watched
  by_cases hany : b.watchGroup = ofpgAny
  · simp [bucketIsAlive, odpPortIsAlive, Option.getD_eq_iff, hany]
  · cases hgroup : L.group b.watchGroup <;>
      simp [bucketIsAlive, odpPortIsAlive, Option.getD_eq_iff, hany, hgroup, or_assoc]

/-- The bucket is in a group. -/
def Liveness.HasBucket (L : Liveness α) (b : Bucket α) : Prop :=
  ∃ g buckets, L.group g = some buckets ∧ b ∈ buckets

/-- Every chain of watched groups from the bucket on has at most `k` links. -/
def Liveness.Within (L : Liveness α) : ℕ → Bucket α → Prop
  | 0, b => L.watched b = none
  | k + 1, b => ∀ buckets, L.watched b = some buckets → ∀ b' ∈ buckets, L.Within k b'

lemma Liveness.hasBucket_of_watched {b' : Bucket α} (h : L.watched b = some buckets)
    (hmem : b' ∈ buckets) : L.HasBucket b' :=
  ⟨_, buckets, (Option.ite_none_left_eq_some.1 h).2, hmem⟩

/-- If the chains are short enough, their limit does not matter. -/
lemma Liveness.Within.bucketIsAlive_eq (h : L.Within k b) (hn : k < n) (hm : k < m) :
    bucketIsAlive L n b = bucketIsAlive L m b := by
  induction k generalizing n m b with
  | zero =>
    obtain ⟨n, rfl⟩ := Nat.exists_eq_add_of_lt hn
    obtain ⟨m, rfl⟩ := Nat.exists_eq_add_of_lt hm
    have hnone : L.watched b = none := h
    rw [Bool.eq_iff_iff, bucketIsAlive_succ, bucketIsAlive_succ]
    simp [hnone]
  | succ k ih =>
    obtain ⟨n, rfl⟩ := Nat.exists_eq_add_of_lt hn
    obtain ⟨m, rfl⟩ := Nat.exists_eq_add_of_lt hm
    rw [Bool.eq_iff_iff, bucketIsAlive_succ, bucketIsAlive_succ]
    refine or_congr_right (or_congr_right (exists_congr fun buckets => ?_))
    refine and_congr_right fun hb => ?_
    refine forall₂_congr fun b' hb' => ?_
    rw [ih (h buckets hb b' hb') (n := k + 1 + n) (m := k + 1 + m) (by omega) (by omega)]

lemma Liveness.within_of_watched (h : L.watched b = none) : L.Within k b := by
  cases k with
  | zero => exact h
  | succ k => simp [Liveness.Within, h]

lemma Liveness.NoGroup.alive_iff (h : L.NoGroup b) :
    bucketIsAlive L (n + 1) b = true ↔ Live L b := by
  rw [bucketIsAlive_succ]
  constructor
  · rintro (hnone | ⟨hany, hport⟩ | ⟨buckets, hwatched, -⟩)
    · exact .unwatched hnone
    · exact .port hany hport
    · obtain hnone | ⟨hany, hport⟩ := h
      · cases hnone.symm.trans hwatched
      · exact .port hany hport
  · rintro (hnone | ⟨hany, hport⟩ | ⟨hwatched, -, -⟩)
    · exact .inl hnone
    · exact .inr (.inl ⟨hany, hport⟩)
    · obtain hnone | hport := h
      · cases hnone.symm.trans hwatched
      · exact .inr (.inl hport)

/-- If `bucket_is_alive()` is right about the buckets of a group, then it is wrong about a bucket
that depends on the group. -/
lemma Liveness.noGroup_of_alive_iff (hshort : L.Within 127 b)
    (halive : ∀ b', L.HasBucket b' → (bucketIsAlive L maxLivenessRecursion b' = true ↔ Live L b'))
    (hb : L.HasBucket b) : L.NoGroup b := by
  by_contra hdepends
  unfold NoGroup at hdepends
  rw [not_or] at hdepends
  obtain ⟨hsome, hport⟩ := hdepends
  obtain ⟨buckets, hwatched⟩ := Option.ne_none_iff_exists'.1 hsome
  have hliveness : b.hasLiveness = true := by
    simp [Bucket.hasLiveness, (Option.ite_none_left_eq_some.1 hwatched).1]
  have hbuckets : ∀ b' ∈ buckets, (bucketIsAlive L 127 b' = false ↔ ¬ Live L b') := by
    intro b' hb'
    rw [← halive b' (hasBucket_of_watched hwatched hb'), Bool.not_eq_true,
      maxLivenessRecursion, (hshort buckets hwatched b' hb').bucketIsAlive_eq (m := 128)
        (by decide) (by decide)]
  have hlive : Live L b ↔ ∃ b' ∈ buckets, Live L b' := by
    constructor
    · rintro (hnone | ⟨hany, h⟩ | ⟨hwatched', hmem, h⟩)
      · cases hliveness.symm.trans hnone
      · exact absurd ⟨hany, h⟩ hport
      · cases hwatched.symm.trans hwatched'
        exact ⟨_, hmem, h⟩
    · rintro ⟨b', hb', h⟩
      exact .group hwatched hb' h
  have hcode : bucketIsAlive L maxLivenessRecursion b = true ↔ ∀ b' ∈ buckets, ¬ Live L b' := by
    rw [maxLivenessRecursion, bucketIsAlive_succ]
    simp only [hliveness, hport, reduceCtorEq, false_or, hwatched, Option.some.injEq,
      exists_eq_left']
    exact forall₂_congr hbuckets
  have hiff := (halive b hb).symm.trans hcode
  rw [hlive] at hiff
  by_cases h : ∃ b' ∈ buckets, Live L b'
  · obtain ⟨b', hb', hlive'⟩ := h
    exact hiff.1 ⟨b', hb', hlive'⟩ b' hb' hlive'
  · exact h (hiff.2 fun b' hb' hlive' => h ⟨b', hb', hlive'⟩)

/-- A bucket that watches a group only. -/
def watching (group : BitVec 32) (ofpacts : α) : Bucket α := ⟨0, ofppAny, group, 0, ofpacts⟩

/-- The groups of a bridge, by their ids. -/
def Liveness.ofGroups (mayEnable : BitVec 16 → Option Bool)
    (groups : List (BitVec 32 × List (Bucket α))) : Liveness α :=
  ⟨mayEnable, fun g => groups.lookup g⟩

/-- A fast failover group takes its first live bucket, and nothing if there is none. -/
def TakesFirstLive (env : Env β ω δ) (rec : List Ofpact → Ctx β ω δ → Option (Ctx β ω δ))
    (c : Ctx β ω δ) (group : Group) : Prop :=
  (∃ before b after, group.buckets = before ++ b :: after ∧ Live (c.liveness env) b ∧
    (∀ b' ∈ before, ¬ Live (c.liveness env) b') ∧
    xlateGroup env rec group c = xlateGroupBucket rec b c) ∨
  (∀ b ∈ group.buckets, ¬ Live (c.liveness env) b) ∧ xlateGroup env rec group c = some c

lemma takesFirstLive (env : Env β ω δ) (rec : List Ofpact → Ctx β ω δ → Option (Ctx β ω δ))
    (c : Ctx β ω δ) {group : Group} (hff : group.type = .ff)
    (halive : ∀ b ∈ group.buckets, bucketIsAlive (c.liveness env) maxLivenessRecursion b = true ↔
      Live (c.liveness env) b) : TakesFirstLive env rec c group := by
  simp only [TakesFirstLive, xlateGroup, xlateOneBucket, chooseBucket, hff]
  cases hfind : group.buckets.find? (bucketIsAlive (c.liveness env) maxLivenessRecursion) with
  | none =>
    refine .inr ⟨fun b hb hlive => ?_, rfl⟩
    exact find?_eq_none.1 hfind b hb ((halive b hb).2 hlive)
  | some b =>
    obtain ⟨hb, before, after, hsplit, hbefore⟩ := find?_eq_some_iff_append.1 hfind
    refine .inl ⟨before, b, after, hsplit, (halive b (by simp [hsplit])).1 hb,
      fun b' hb' hlive => ?_, rfl⟩
    have hb' : bucketIsAlive _ maxLivenessRecursion b' = true :=
      (halive b' (by simp [hsplit, hb'])).2 hlive
    simpa [hb'] using hbefore b' ‹_›

/-- **`bucket_is_alive()` is right about all buckets**, and fast failover groups take their first
live bucket, if and only if no bucket depends on a group. -/
theorem live_buckets_iff (env : Env β ω δ) (rec : List Ofpact → Ctx β ω δ → Option (Ctx β ω δ))
    (c : Ctx β ω δ)
    (hshort : ∀ b, (c.liveness env).HasBucket b → (c.liveness env).Within 127 b) :
    ((∀ b, (c.liveness env).HasBucket b →
        (bucketIsAlive (c.liveness env) maxLivenessRecursion b = true ↔
          Live (c.liveness env) b)) ∧
      ∀ g group, env.group c.world c.bridge g = some group → group.type = .ff →
        TakesFirstLive env rec c group) ↔
      ∀ b, (c.liveness env).HasBucket b → (c.liveness env).NoGroup b := by
  constructor
  · rintro ⟨halive, -⟩ b hb
    exact Liveness.noGroup_of_alive_iff (hshort b hb) halive hb
  · intro hall
    refine ⟨fun b hb => (hall b hb).alive_iff, fun g group hg hff => ?_⟩
    refine takesFirstLive env rec c hff fun b hb => (hall b ⟨g, group.buckets, ?_, hb⟩).alive_iff
    simp [Ctx.liveness, hg]

/-- The first two buckets watch a port that is down, one of them a group that does not exist too;
the third watches a port that is up, and another group. -/
def failover : Group :=
  ⟨.ff, [⟨0, 5, ofpgAny, 0, []⟩, ⟨0, 5, 9, 0, []⟩, ⟨0, 6, 2, 0, []⟩, ⟨0, ofppAny, ofpgAny, 0, []⟩]⟩

/-- Two groups, and a port that is up. -/
def failoverEnv : Env Bool Unit (Bool × BitVec 16) :=
  { twoBridges throughPatchPort with
    group := fun _ _ id => if id = 1 then some failover else if id = 2 then
      some ⟨.all, [watching ofpgAny []]⟩ else none
    mayEnable := fun _ _ port => some (port = 6) }

theorem live_buckets_iff_failover :
    TakesFirstLive failoverEnv (fun _ => some) (fromPort3.start failoverEnv).2 failover := by
  have hbucket : ∀ b, ((fromPort3.start failoverEnv).2.liveness failoverEnv).HasBucket b →
      b ∈ failover.buckets ++ [watching ofpgAny []] := by
    rintro b ⟨g, buckets, hg, hb⟩
    have hg : (if g = 1 then some failover else if g = 2 then
      some ⟨.all, [watching ofpgAny []]⟩ else none).map (·.buckets) = some buckets := hg
    split_ifs at hg
    · cases hg
      exact mem_append_left _ hb
    · cases hg
      exact mem_append_right _ hb
    · cases hg
  have hshort : ∀ b ∈ failover.buckets ++ [watching ofpgAny []],
      ((fromPort3.start failoverEnv).2.liveness failoverEnv).Within 127 b ∧
        ((fromPort3.start failoverEnv).2.liveness failoverEnv).NoGroup b := by
    have hnone : ∀ b, ((fromPort3.start failoverEnv).2.liveness failoverEnv).watched b = none →
        ((fromPort3.start failoverEnv).2.liveness failoverEnv).Within 127 b ∧
          ((fromPort3.start failoverEnv).2.liveness failoverEnv).NoGroup b :=
      fun b h => ⟨Liveness.within_of_watched h, .inl h⟩
    simp only [failover, cons_append, nil_append, forall_mem_cons]
    refine ⟨hnone _ rfl, hnone _ rfl, ⟨?_, .inr ⟨by decide, rfl⟩⟩, hnone _ rfl, hnone _ rfl, nofun⟩
    rintro buckets ⟨⟩ b' hb'
    cases mem_singleton.1 hb'
    exact Liveness.within_of_watched rfl
  exact ((live_buckets_iff failoverEnv (fun _ => some) (fromPort3.start failoverEnv).2
    fun b hb => (hshort b (hbucket b hb)).1).2 fun b hb => (hshort b (hbucket b hb)).2).2 1 failover
      rfl rfl

/-- **A watched group counts as live if it has no live bucket**: a bucket that watches a group with
a live one is taken for dead, and one that watches an empty group for live. -/
theorem watched_groups_inverted :
    let L := Liveness.ofGroups (fun _ => none) [(1, [watching ofpgAny ()]), (2, [])]
    Live L (watching 1 ()) ∧ bucketIsAlive L maxLivenessRecursion (watching 1 ()) = false ∧
      ¬ Live L (watching 2 ()) ∧ bucketIsAlive L maxLivenessRecursion (watching 2 ()) = true := by
  refine ⟨.group rfl mem_cons_self (.unwatched rfl), by decide, ?_, by decide⟩
  rintro (hnone | ⟨hany, -⟩ | ⟨hwatched, hmem, -⟩)
  · cases hnone
  · exact hany rfl
  · cases hwatched
    cases hmem

/-! ## Calls -/

/-- The calls that the loop of `group_first_live_bucket()` makes until it finds a bucket. -/
def firstLiveCalls (alive : Bucket α → Bool) (calls : Bucket α → ℕ) : List (Bucket α) → ℕ
  | [] => 0
  | b :: buckets => calls b + if alive b then 0 else firstLiveCalls alive calls buckets

/-- The calls of `bucket_is_alive()` that are made by one of them, including itself. -/
def bucketIsAliveCalls (L : Liveness α) : ℕ → Bucket α → ℕ
  | 0, _ => 1
  | n + 1, b => 1 +
    if !b.hasLiveness || (b.watchPort ≠ ofppAny && odpPortIsAlive L b.watchPort) then 0
    else
      match L.watched b with
      | none => 0
      | some buckets => firstLiveCalls (bucketIsAlive L n) (bucketIsAliveCalls L n) buckets

/-- The calls of `bucket_is_alive()` that are made by `group_first_live_bucket()`. -/
def groupFirstLiveBucketCalls (L : Liveness α) (n : ℕ) : List (Bucket α) → ℕ :=
  firstLiveCalls (bucketIsAlive L n) (bucketIsAliveCalls L n)

/-- A bucket is live, or dead, without a look at the group that it watches. -/
def Liveness.Decided (L : Liveness α) (b : Bucket α) : Prop :=
  b.hasLiveness = false ∨ b.watchPort ≠ ofppAny ∧ L.mayEnable b.watchPort = some true

/-- A path of watched groups, by the positions of the buckets, along which buckets are asked: before
each of them there is no live bucket in its group, and it is the last one or not decided without a
look at the group that it watches. -/
def Liveness.Asked (L : Liveness α) : ℕ → List (Bucket α) → List ℕ → Prop
  | _, _, [] => False
  | n, buckets, i :: path => ∃ b, buckets[i]? = some b ∧
    (∀ b' ∈ buckets.take i, bucketIsAlive L n b' = false) ∧
    (path = [] ∨ ¬ L.Decided b ∧ ∃ m buckets', n = m + 1 ∧ L.watched b = some buckets' ∧
      L.Asked m buckets' path)

/-- The paths that are asked through a bucket, from the group that it watches on. -/
def Liveness.AskedThrough (L : Liveness α) (n : ℕ) (b : Bucket α) (path : List ℕ) : Prop :=
  ¬ L.Decided b ∧ ∃ m buckets, n = m + 1 ∧ L.watched b = some buckets ∧ L.Asked m buckets path

/-- The same path from a list of buckets that has one more in front. -/
def bump : List ℕ → List ℕ
  | [] => []
  | i :: path => (i + 1) :: path

lemma bump_injective : Function.Injective bump := by
  rintro (- | ⟨i, p⟩) (- | ⟨j, q⟩) h <;> simp_all [bump]

lemma Liveness.asked_zero {path : List ℕ} :
    L.Asked n (b :: buckets) (0 :: path) ↔ path = [] ∨ L.AskedThrough n b path := by
  simp [Liveness.Asked, Liveness.AskedThrough]

lemma Liveness.asked_succ {i : ℕ} {path : List ℕ} :
    L.Asked n (b :: buckets) ((i + 1) :: path) ↔
      bucketIsAlive L n b = false ∧ L.Asked n buckets (i :: path) := by
  simp only [Liveness.Asked, getElem?_cons_succ, take_succ_cons, forall_mem_cons]
  grind

/-- Some paths that are asked, without repetition, one for each of `calls`. -/
def Enumerates (p : List ℕ → Prop) (calls : ℕ) (paths : List (List ℕ)) : Prop :=
  paths.Nodup ∧ (∀ path, path ∈ paths ↔ p path) ∧ paths.length = calls

/-- The calls of `bucket_is_alive()` for a bucket: one, and those along the paths through it. -/
lemma exists_askedThrough (h : ∀ m, n = m + 1 → ∀ buckets, ∃ paths,
      Enumerates (L.Asked m buckets) (groupFirstLiveBucketCalls L m buckets) paths) :
    ∃ calls paths, bucketIsAliveCalls L n b = 1 + calls ∧
      Enumerates (L.AskedThrough n b) calls paths := by
  have hdecided : (!b.hasLiveness || (b.watchPort ≠ ofppAny && odpPortIsAlive L b.watchPort)) =
      true ↔ L.Decided b := by
    simp [Liveness.Decided, odpPortIsAlive, Option.getD_eq_iff]
  have hnone : (∀ path, ¬ L.AskedThrough n b path) → Enumerates (L.AskedThrough n b) 0 [] :=
    fun h => ⟨nodup_nil, by simpa using h, rfl⟩
  cases n with
  | zero => exact ⟨0, [], rfl, hnone (by simp [Liveness.AskedThrough])⟩
  | succ m =>
    unfold bucketIsAliveCalls
    split
    · next hd => exact ⟨0, [], rfl, hnone fun path hpath => hpath.1 (hdecided.1 hd)⟩
    · next hd =>
      cases hwatched : L.watched b with
      | none => exact ⟨0, [], rfl, hnone (by simp [Liveness.AskedThrough, hwatched])⟩
      | some buckets =>
        obtain ⟨paths, hnodup, hmem, hlength⟩ := h m rfl buckets
        refine ⟨_, paths, rfl, hnodup, fun path => (hmem path).trans ?_, hlength⟩
        simp [Liveness.AskedThrough, mt hdecided.2 hd, hwatched]

/-- The paths of a list of buckets start at the first one or, if that is not live, at another. -/
lemma Enumerates.cons {calls rest : ℕ} {through paths : List (List ℕ)}
    (hthrough : Enumerates (L.AskedThrough n b) calls through)
    (hrest : Enumerates (fun path => bucketIsAlive L n b = false ∧ L.Asked n buckets path)
      rest paths) :
    Enumerates (L.Asked n (b :: buckets)) (1 + calls + rest)
      (([] :: through).map (0 :: ·) ++ paths.map bump) := by
  have hne : [] ∉ through := by
    intro hmem
    obtain ⟨-, m, buckets, -, -, hasked⟩ := (hthrough.2.1 []).1 hmem
    exact hasked
  refine ⟨nodup_append'.2 ⟨?_, hrest.1.map bump_injective, ?_⟩, fun path => ?_, ?_⟩
  · exact (nodup_cons.2 ⟨hne, hthrough.1⟩).map fun p q h => (List.cons.inj h).2
  · simp only [disjoint_left, mem_map, not_exists, not_and]
    rintro _ ⟨p, -, rfl⟩ q hq
    cases q <;> simp [bump]
  · cases path with
    | nil =>
      have : ∀ q, q ∈ paths → bump q ≠ [] := by
        rintro (- | ⟨i, q⟩) hq
        · exact ((hrest.2.1 _).1 hq).2.elim
        · simp [bump]
      simpa [Liveness.Asked] using this
    | cons i path =>
      cases i with
      | zero =>
        have : ∀ q, bump q ≠ 0 :: path := by
          rintro (- | ⟨i, q⟩) <;> simp [bump]
        simp [Liveness.asked_zero, hthrough.2.1, this]
      | succ i =>
        have hpath : _ ↔ bucketIsAlive L n b = false ∧ L.Asked n buckets (i :: path) :=
          hrest.2.1 (i :: path)
        rw [Liveness.asked_succ, ← hpath]
        have : ∀ q, bump q = (i + 1) :: path ↔ q = i :: path := by
          rintro (- | ⟨j, q⟩) <;> simp [bump]
        simp [this]
  · simp only [length_append, length_map, length_cons, hthrough.2.2, hrest.2.2]
    omega

/-- **One call for each path.** -/
lemma exists_asked (L : Liveness α) (n : ℕ) (buckets : List (Bucket α)) :
    ∃ paths, Enumerates (L.Asked n buckets) (groupFirstLiveBucketCalls L n buckets) paths := by
  induction n using Nat.strong_induction_on generalizing buckets with
  | h n ihn =>
    induction buckets with
    | nil =>
      refine ⟨[], nodup_nil, fun path => ?_, rfl⟩
      cases path <;> simp [Liveness.Asked]
    | cons b buckets ih =>
      obtain ⟨calls, through, hcalls, hthrough⟩ :=
        exists_askedThrough (L := L) (n := n) (b := b) fun m hm => ihn m (by omega)
      obtain ⟨paths, hpaths⟩ := ih
      rw [groupFirstLiveBucketCalls, firstLiveCalls, hcalls, ← groupFirstLiveBucketCalls]
      cases halive : bucketIsAlive L n b with
      | true =>
        have hnil : Enumerates (fun path => bucketIsAlive L n b = false ∧ L.Asked n buckets path)
            0 [] := ⟨nodup_nil, by simp [halive], rfl⟩
        exact ⟨_, hthrough.cons hnil⟩
      | false => exact ⟨_, hthrough.cons (by simpa [halive] using hpaths)⟩

/-- A bucket that watches its own group, of which there are two in it. -/
def selfWatching : Bucket Unit := watching 1 ()

/-- The group. -/
def selfWatched : Liveness Unit := .ofGroups (fun _ => none) [(1, [selfWatching, selfWatching])]

lemma bucketIsAlive_selfWatching : bucketIsAlive selfWatched (n + 1) selfWatching =
      ([selfWatching, selfWatching].find? (bucketIsAlive selfWatched n)).isNone := rfl

lemma bucketIsAliveCalls_selfWatching : bucketIsAliveCalls selfWatched (n + 1) selfWatching =
      1 + groupFirstLiveBucketCalls selfWatched n [selfWatching, selfWatching] := rfl

/-- With every second link the number of calls is doubled. -/
lemma pow_le_calls (k : ℕ) : bucketIsAlive selfWatched (2 * k) selfWatching = false ∧
      2 ^ k ≤ bucketIsAliveCalls selfWatched (2 * k) selfWatching := by
  induction k with
  | zero => decide
  | succ k ih =>
    have hodd : bucketIsAlive selfWatched (2 * k + 1) selfWatching = true := by
      simp [bucketIsAlive_selfWatching, ih.1]
    constructor
    · simp [Nat.mul_succ, bucketIsAlive_selfWatching, hodd]
    · simp only [Nat.mul_succ, bucketIsAliveCalls_selfWatching, groupFirstLiveBucketCalls,
        firstLiveCalls, hodd, ih.1]
      simp
      omega

end Xlate

end OVS
