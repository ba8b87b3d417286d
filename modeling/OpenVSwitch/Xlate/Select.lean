import OpenVSwitch.Hash
import OpenVSwitch.Xlate.Flow

/-!
# Actions that are steered by a hash

A group of type *select* sends a flow to one of its buckets, and the `multipath` action loads the
number of a link into a field.  Both compute a hash of some members of the flow.  A datapath flow is
then installed for all packets that agree with this one on the wildcards, so these have to cover
what was hashed: `xlate_select_group()` says itself which members that are, and
`multipath_execute()` leaves it to `flow_mask_hash_fields()`.

* `hash_steering_iff` — flows that agree on the wildcards get the same link, and the same bucket
  unless they are IPv6 flows whose hashes let different buckets win.  The search for a link ends
  because `hash_2words()` takes every value.
* `hash_steering_ipv6` — two IPv6 flows that agree on the wildcards get different buckets.
-/

namespace OVS

namespace Xlate

open Masked List

/-! ## The hash of a flow -/

/-- The bytes of a number, the most significant one first. -/
def beBytes (n : ℕ) {w : ℕ} (x : BitVec w) : List UInt8 :=
  (range n).map fun i => UInt8.ofNat (x.toNat / 256 ^ (n - 1 - i))

/-- `fields` in `flow_hash_symmetric_l4()`. -/
structure SymmetricL4 where
  addr : List UInt8
  ethType : BitVec 16
  vlanTci : BitVec 16
  tpPort : BitVec 16
  ethAddr : BitVec 48
  ipProto : BitVec 8

/-- The members as they are in memory, with three bytes of padding. -/
def SymmetricL4.bytes (x : SymmetricL4) : List UInt8 :=
  x.addr ++ beBytes 2 x.ethType ++ beBytes 2 x.vlanTci ++ beBytes 2 x.tpPort ++
    beBytes 6 x.ethAddr ++ beBytes 1 x.ipProto ++ replicate 3 0

/-- The protocols of which the hash takes the ports. -/
def hashesPorts (f : Flow) : Prop := f .nwProto = ipprotoTcp ∨ f .nwProto = ipprotoSctp

instance (f : Flow) : Decidable (hashesPorts f) := inferInstanceAs (Decidable (_ ∨ _))

/-- How `flow_hash_symmetric_l4()` fills in the fields. -/
def symmetricL4 (f : Flow) : SymmetricL4 :=
  let tpPort := if hashesPorts f then f .tpSrc ^^^ f .tpDst else 0
  let fields : SymmetricL4 :=
    { addr := replicate 16 0, ethType := f .dlType, vlanTci := f .vlanTci &&& vlanVidMask,
      tpPort := 0, ethAddr := f .dlSrc ^^^ f .dlDst, ipProto := 0 }
  if f .dlType = ethTypeIp then
    { fields with
      addr := beBytes 4 (f .nwSrc ^^^ f .nwDst) ++ replicate 12 0
      ipProto := f .nwProto
      tpPort := tpPort }
  else if f .dlType = ethTypeIpv6 then
    { fields with
      addr := beBytes 16 (f .ipv6Src ^^^ f .ipv6Dst)
      ipProto := f .nwProto
      tpPort := tpPort }
  else
    fields

def flowHashSymmetricL4 (f : Flow) (basis : BitVec 32) : BitVec 32 :=
  jhashBytes (symmetricL4 f).bytes basis

/-- Two flows are the same in all that `flow_hash_symmetric_l4()` reads. -/
structure SameSymmetricL4 (f g : Flow) : Prop where
  dlSrc : f .dlSrc = g .dlSrc
  dlDst : f .dlDst = g .dlDst
  dlType : f .dlType = g .dlType
  vid : f .vlanTci &&& vlanVidMask = g .vlanTci &&& vlanVidMask
  ipv4 : f .dlType = ethTypeIp → f .nwSrc = g .nwSrc ∧ f .nwDst = g .nwDst
  ipv6 : f .dlType = ethTypeIpv6 → f .ipv6Src ^^^ f .ipv6Dst = g .ipv6Src ^^^ g .ipv6Dst
  nwProto : isIpAny f → f .nwProto = g .nwProto
  ports : isIpAny f → hashesPorts f → f .tpSrc = g .tpSrc ∧ f .tpDst = g .tpDst

lemma SameSymmetricL4.hash_eq {f g : Flow} (h : SameSymmetricL4 f g) (basis : BitVec 32) :
    flowHashSymmetricL4 f basis = flowHashSymmetricL4 g basis := by
  -- The ports are read from IP flows only, but there the branch is the same.
  have hports : isIpAny f → (if hashesPorts f then f .tpSrc ^^^ f .tpDst else 0) =
      if hashesPorts g then g .tpSrc ^^^ g .tpDst else 0 := by
    intro hip
    have hp := h.nwProto hip
    by_cases hf : hashesPorts f
    · have hg : hashesPorts g := by rwa [hashesPorts, ← hp]
      rw [if_pos hf, if_pos hg, (h.ports hip hf).1, (h.ports hip hf).2]
    · have hg : ¬hashesPorts g := by rwa [hashesPorts, ← hp]
      rw [if_neg hf, if_neg hg]
  unfold flowHashSymmetricL4 symmetricL4
  rw [← h.dlType, ← h.vid, ← h.dlSrc, ← h.dlDst]
  by_cases h4 : f .dlType = ethTypeIp
  · have hip : isIpAny f := by simp [isIpAny, h4]
    simp only [if_pos h4, ← hports hip, ← (h.ipv4 h4).1, ← (h.ipv4 h4).2, ← h.nwProto hip]
  by_cases h6 : f .dlType = ethTypeIpv6
  · have hip : isIpAny f := by simp [isIpAny, h6]
    simp only [if_neg h4, ← hports hip, ← h.ipv6 h6, ← h.nwProto hip]
  · simp only [if_neg h4, if_neg h6]

/-! ## Select groups -/

section Groups

variable {α : Type}

/-- `struct ofputil_bucket`, with its actions. -/
structure Bucket (α : Type) where
  weight : BitVec 16
  watchPort : BitVec 16
  watchGroup : BitVec 32
  bucketId : BitVec 32
  ofpacts : α
deriving DecidableEq

def ofppAny : BitVec 16 := 0xffff

def ofpgAny : BitVec 32 := 0xffffffff

/-- What decides if a bucket is live: whether a port may be enabled, and the buckets of a group. -/
structure Liveness (α : Type) where
  mayEnable : BitVec 16 → Option Bool
  group : BitVec 32 → Option (List (Bucket α))

/-- `ofputil_bucket_has_liveness()`. -/
def Bucket.hasLiveness (b : Bucket α) : Bool := b.watchPort ≠ ofppAny ∨ b.watchGroup ≠ ofpgAny

def odpPortIsAlive (env : Liveness α) (port : BitVec 16) : Bool :=
  (env.mayEnable port).getD false

/-- `bucket_is_alive()`, with the number of links that may still be followed.  A watched group
counts as live if it has no live bucket, as `group_is_alive()` says. -/
def bucketIsAlive (env : Liveness α) : ℕ → Bucket α → Bool
  | 0, _ => false
  | n + 1, b =>
    !b.hasLiveness ||
    (b.watchPort ≠ ofppAny && odpPortIsAlive env b.watchPort) ||
    (b.watchGroup ≠ ofpgAny &&
      match env.group b.watchGroup with
      | some buckets => (buckets.find? (bucketIsAlive env n)).isNone
      | none => false)

def maxLivenessRecursion : ℕ := 128

/-- The loop of `group_best_live_bucket()`, from bucket `i` on. -/
def groupBestLiveBucketFrom (alive : Bucket α → Bool) (basis : BitVec 32) :
    ℕ → Option (Bucket α) → BitVec 32 → List (Bucket α) → Option (Bucket α)
  | _, best, _, [] => best
  | i, best, bestScore, b :: buckets =>
    let score := (hashInt (BitVec.ofNat 32 i) basis &&& 0xffff) * b.weight.setWidth 32
    if alive b ∧ bestScore ≤ score then
      groupBestLiveBucketFrom alive basis (i + 1) (some b) score buckets
    else
      groupBestLiveBucketFrom alive basis (i + 1) best bestScore buckets

def groupBestLiveBucket (env : Liveness α) (buckets : List (Bucket α)) (basis : BitVec 32) :
    Option (Bucket α) :=
  groupBestLiveBucketFrom (bucketIsAlive env maxLivenessRecursion) basis 0 none 0 buckets

/-- `xlate_select_group()`, up to the translation of the bucket's actions. -/
def xlateSelectGroup (env : Liveness α) (buckets : List (Bucket α)) (f : Flow) (wc : Wildcards) :
    Option (Bucket α) × Wildcards :=
  match groupBestLiveBucket env buckets (flowHashSymmetricL4 f 0) with
  | some bucket =>
    (some bucket, exactAll wc
      [.dlDst, .dlSrc, .dlType, .nwDst, .nwProto, .nwSrc, .tpDst, .tpSrc, .vlanTci])
  | none => (none, wc)

variable {env : Liveness α} {buckets : List (Bucket α)} {alive : Bucket α → Bool} {b : Bucket α}
  {best : Option (Bucket α)} {bestScore basis : BitVec 32}

/-- The masks do not depend on which bucket it is. -/
lemma xlateSelectGroup_of_some {f : Flow} {wc : Wildcards}
    (h : (xlateSelectGroup env buckets f wc).1 = some b) :
    (xlateSelectGroup env buckets f wc).2 = exactAll wc
      [.dlDst, .dlSrc, .dlType, .nwDst, .nwProto, .nwSrc, .tpDst, .tpSrc, .vlanTci] := by
  unfold xlateSelectGroup at h ⊢
  split at h
  · rfl
  · cases h

lemma xlateSelectGroup_fst (env : Liveness α) (f : Flow) (wc : Wildcards) :
    (xlateSelectGroup env buckets f wc).1 =
      groupBestLiveBucket env buckets (flowHashSymmetricL4 f 0) := by
  unfold xlateSelectGroup
  split <;> simp_all

/-- The live buckets with their scores, where the first bucket is at position `i`. -/
def liveScores (alive : Bucket α → Bool) (basis : BitVec 32) :
    ℕ → List (Bucket α) → List (BitVec 32 × Bucket α)
  | _, [] => []
  | i, b :: buckets =>
    let score := (hashInt (BitVec.ofNat 32 i) basis &&& 0xffff) * b.weight.setWidth 32
    if alive b then (score, b) :: liveScores alive basis (i + 1) buckets
    else liveScores alive basis (i + 1) buckets

/-- The bucket has the best score, and is the last one with it. -/
def Wins (scores : List (BitVec 32 × Bucket α)) (b : Bucket α) : Prop :=
  ∃ before score after, scores = before ++ (score, b) :: after ∧
    (∀ x ∈ before, x.1 ≤ score) ∧ ∀ x ∈ after, x.1 < score

lemma wins_singleton {score : BitVec 32} {c : Bucket α} : Wins [(score, c)] b ↔ c = b := by
  constructor
  · rintro ⟨before, score', after, heq, -, -⟩
    obtain ⟨-, hcons⟩ | ⟨-, hnil⟩ := append_eq_singleton_iff.1 heq.symm
    · cases hcons
      rfl
    · cases hnil
  · rintro rfl
    exact ⟨[], score, [], rfl, nofun, nofun⟩

/-- Of the first two buckets, the better one remains. -/
lemma wins_cons_cons {x y : BitVec 32 × Bucket α} {l : List (BitVec 32 × Bucket α)} :
    Wins (x :: y :: l) b ↔ if x.1 ≤ y.1 then Wins (y :: l) b else Wins (x :: l) b := by
  split
  · next hle =>
    constructor
    · rintro ⟨- | ⟨z, before⟩, score, after, heq, hbefore, hafter⟩
      · cases heq
        exact absurd (hafter y mem_cons_self) (BitVec.not_lt.2 hle)
      · rw [cons_append, List.cons.injEq] at heq
        exact ⟨before, score, after, heq.2, fun z hz => hbefore z (mem_cons_of_mem _ hz), hafter⟩
    · rintro ⟨before, score, after, heq, hbefore, hafter⟩
      refine ⟨x :: before, score, after, by rw [heq]; rfl, forall_mem_cons.2 ⟨?_, hbefore⟩, hafter⟩
      cases before with
      | nil =>
        cases heq
        exact hle
      | cons z before =>
        cases (List.cons.inj heq).1
        exact BitVec.le_trans hle (hbefore _ mem_cons_self)
  · next hlt =>
    rw [BitVec.not_le] at hlt
    constructor
    · rintro ⟨- | ⟨z, - | ⟨z', before⟩⟩, score, after, heq, hbefore, hafter⟩
      · cases heq
        exact ⟨[], score, l, rfl, nofun, fun z hz => hafter z (mem_cons_of_mem _ hz)⟩
      · cases heq
        exact absurd (hbefore _ mem_cons_self) (BitVec.not_le.2 hlt)
      · cases heq
        refine ⟨x :: before, score, after, rfl, fun z hz => hbefore z ?_, hafter⟩
        exact (mem_cons.1 hz).elim (fun h => h ▸ mem_cons_self) fun h => by simp [h]
    · rintro ⟨- | ⟨z, before⟩, score, after, heq, hbefore, hafter⟩
      · cases heq
        exact ⟨[], score, y :: l, rfl, nofun, forall_mem_cons.2 ⟨hlt, hafter⟩⟩
      · cases heq
        refine ⟨x :: y :: before, score, after, rfl, ?_, hafter⟩
        have hx := hbefore x mem_cons_self
        exact forall_mem_cons.2 ⟨hx, forall_mem_cons.2 ⟨BitVec.le_trans (BitVec.le_of_lt hlt) hx,
          fun z hz => hbefore z (mem_cons_of_mem _ hz)⟩⟩

lemma exists_wins : ∀ {l : List (BitVec 32 × Bucket α)}, l ≠ [] → ∃ b, Wins l b
  | [], h => absurd rfl h
  | [x], _ => ⟨x.2, wins_singleton.2 rfl⟩
  | x :: y :: l, _ => by
    obtain ⟨b, hb⟩ := exists_wins (l := y :: l) (by simp)
    obtain ⟨b', hb'⟩ := exists_wins (l := x :: l) (by simp)
    simp only [wins_cons_cons]
    split
    exacts [⟨b, hb⟩, ⟨b', hb'⟩]

lemma liveScores_eq_nil_iff (i : ℕ) :
    liveScores alive basis i buckets = [] ↔ ∀ b ∈ buckets, ¬ alive b = true := by
  induction buckets generalizing i with
  | nil => simp [liveScores]
  | cons b buckets ih =>
    rw [liveScores, forall_mem_cons]
    split <;> simp_all

/-- The loop finds the bucket that wins against the best one so far. -/
lemma groupBestLiveBucketFrom_some {c : Bucket α} (i : ℕ) :
    groupBestLiveBucketFrom alive basis i (some c) bestScore buckets = some b ↔
      Wins ((bestScore, c) :: liveScores alive basis i buckets) b := by
  induction buckets generalizing i c bestScore with
  | nil => simp [groupBestLiveBucketFrom, liveScores, wins_singleton]
  | cons b' buckets ih =>
    rw [groupBestLiveBucketFrom, liveScores]
    by_cases halive : alive b'
    · simp only [halive, true_and, if_true]
      rw [wins_cons_cons]
      split
      · exact ih (i + 1)
      · exact ih (i + 1)
    · simpa [halive] using ih (i + 1)

/-- **The bucket that is chosen** is the last of those with the best score. -/
lemma groupBestLiveBucket_eq_some_iff :
    groupBestLiveBucket env buckets basis = some b ↔
      Wins (liveScores (bucketIsAlive env maxLivenessRecursion) basis 0 buckets) b := by
  unfold groupBestLiveBucket
  generalize bucketIsAlive env maxLivenessRecursion = alive, 0 = i
  induction buckets generalizing i with
  | nil => simp [groupBestLiveBucketFrom, liveScores, Wins]
  | cons b' buckets ih =>
    rw [groupBestLiveBucketFrom, liveScores]
    by_cases halive : alive b'
    · rw [if_pos ⟨halive, Nat.zero_le _⟩, if_pos halive]
      exact groupBestLiveBucketFrom_some (i + 1)
    · simpa [halive] using ih (i + 1)

end Groups

/-! ## The multipath action -/

/-- `enum nx_hash_fields`. -/
inductive HashFields where
  | ethSrc
  | symmetricL4
deriving DecidableEq

/-- `enum nx_mp_algorithm`. -/
inductive MpAlgorithm where
  | moduloN
  | hashThreshold
  | hrw
  | iterHash
deriving DecidableEq

/-- `struct mf_subfield`: some bits of a member, and those that writing any of them sets, too
(writing the VLAN of a flow sets `VLAN_CFI`). -/
structure Subfield where
  field : FlowField
  ofs : ℕ
  nBits : ℕ
  sets : BitVec field.bits

/-- `struct ofpact_multipath`. -/
structure Multipath where
  fields : HashFields
  basis : BitVec 16
  algorithm : MpAlgorithm
  maxLink : BitVec 16
  arg : BitVec 32
  dst : Subfield

def flowHashFields (f : Flow) : HashFields → BitVec 16 → BitVec 32
  | .ethSrc, basis => jhashBytes (beBytes 6 (f .dlSrc)) (basis.setWidth 32)
  | .symmetricL4, basis => flowHashSymmetricL4 f (basis.setWidth 32)

def flowUnwildcardTpPorts (f : Flow) (wc : Wildcards) : Wildcards :=
  if f .nwProto ≠ ipprotoIcmp then
    exactAll wc [.tpSrc, .tpDst]
  else
    Function.update (Function.update wc .tpSrc 0xff#16) .tpDst 0xff#16

def flowMaskHashFields (f : Flow) (wc : Wildcards) : HashFields → Wildcards
  | .ethSrc => exact wc .dlSrc
  | .symmetricL4 =>
    let wc := exactAll wc [.dlSrc, .dlDst]
    let wc :=
      if f .dlType = ethTypeIp then exactAll wc [.nwSrc, .nwDst]
      else if f .dlType = ethTypeIpv6 then exactAll wc [.ipv6Src, .ipv6Dst]
      else wc
    let wc := if isIpAny f then flowUnwildcardTpPorts f (exact wc .nwProto) else wc
    orBits wc .vlanTci (vlanVidMask ||| vlanCfi)

/-- The loop of `algorithm_hrw()` over `n` more links.  `best_link` is a `uint16_t`. -/
def algorithmHrwFrom (hash : BitVec 32) :
    (n link : ℕ) → (bestLink : ℕ) → (bestWeight : BitVec 32) → ℕ
  | 0, _, bestLink, _ => bestLink
  | n + 1, link, bestLink, bestWeight =>
    let weight := hash2words hash (BitVec.ofNat 32 link)
    if bestWeight < weight then
      algorithmHrwFrom hash n (link + 1) (link % 2 ^ 16) weight
    else
      algorithmHrwFrom hash n (link + 1) bestLink bestWeight

def algorithmHrw (hash : BitVec 32) (nLinks : ℕ) : ℕ :=
  algorithmHrwFrom hash (nLinks - 1) 1 0 (hash2words hash 0)

def roundUpPow2 (x : ℕ) : ℕ :=
  let x := x - 1
  let x := x ||| x >>> 1
  let x := x ||| x >>> 2
  let x := x ||| x >>> 4
  let x := x ||| x >>> 8
  x + 1

/-- The loop of `algorithm_iter_hash()` from a value of `i` on.  `link` is a `uint16_t`. -/
def iterHashFrom (hash : BitVec 32) (nLinks modulo : ℕ) : (fuel i : ℕ) → Option ℕ
  | 0, _ => none
  | fuel + 1, i =>
    let link := (hash2words hash (BitVec.ofNat 32 i)).toNat % modulo % 2 ^ 16
    if link < nLinks then some link else iterHashFrom hash nLinks modulo fuel (i + 1)

/-- `algorithm_iter_hash()`.  After `2 ^ 32` rounds `i` has had every value. -/
def algorithmIterHash (hash : BitVec 32) (nLinks modulo : ℕ) : Option ℕ :=
  let modulo := if modulo < nLinks ∨ modulo / 2 > nLinks then roundUpPow2 nLinks else modulo
  iterHashFrom hash nLinks modulo (2 ^ 32) 0

def multipathAlgorithm (hash : BitVec 32) (nLinks : ℕ) (arg : BitVec 32) :
    MpAlgorithm → Option (BitVec 16)
  | .moduloN => some (BitVec.ofNat 16 (hash.toNat % nLinks))
  | .hashThreshold =>
    if nLinks = 1 then some 0
    else some (BitVec.ofNat 16 (hash.toNat / ((2 ^ 32 - 1) / nLinks + 1)))
  | .hrw =>
    if nLinks ≤ 64 then some (BitVec.ofNat 16 (algorithmHrw hash nLinks))
    else (algorithmIterHash hash nLinks 0).map (BitVec.ofNat 16)
  | .iterHash => (algorithmIterHash hash nLinks arg.toNat).map (BitVec.ofNat 16)

def mfWriteSubfieldFlow (sf : Subfield) (x : ℕ) (f : Flow) : Flow :=
  let mask := (BitVec.ofNat sf.field.bits (2 ^ sf.nBits - 1)) <<< sf.ofs
  Function.update f sf.field
    ((f sf.field &&& ~~~mask) ||| ((BitVec.ofNat sf.field.bits x <<< sf.ofs) &&& mask) ||| sf.sets)

/-- The link that `multipath_execute()` computes. -/
def multipathLink (mp : Multipath) (f : Flow) : Option (BitVec 16) :=
  multipathAlgorithm (flowHashFields f mp.fields mp.basis) (mp.maxLink.toNat + 1) mp.arg
    mp.algorithm

/-- `multipath_execute()`: the flow and the wildcards afterwards. -/
def multipathExecute (mp : Multipath) (f : Flow) (wc : Wildcards) : Option (Flow × Wildcards) :=
  (multipathLink mp f).map fun link =>
    (mfWriteSubfieldFlow mp.dst link.toNat f,
      mfWriteSubfieldFlow mp.dst (2 ^ mp.dst.nBits - 1) (flowMaskHashFields f wc mp.fields))

section Soundness

variable {f g : Flow}

variable {wc : Wildcards}

/-- The members that `flow_mask_hash_fields()` unwildcards as a whole. -/
def maskedFields (f : Flow) : List FlowField :=
  [.dlSrc, .dlDst] ++
    (if f .dlType = ethTypeIp then [.nwSrc, .nwDst]
      else if f .dlType = ethTypeIpv6 then [.ipv6Src, .ipv6Dst] else []) ++
    if isIpAny f then .nwProto :: (if f .nwProto ≠ ipprotoIcmp then [.tpSrc, .tpDst] else [])
    else []

lemma flowMaskHashFields_of_mem {x : FlowField} (hx : x ∈ maskedFields f) :
    flowMaskHashFields f wc .symmetricL4 x = BitVec.allOnes x.bits := by
  simp only [maskedFields] at hx
  simp only [flowMaskHashFields, flowUnwildcardTpPorts]
  split_ifs at hx ⊢ <;>
    simp only [cons_append, nil_append, mem_cons, not_mem_nil, or_false] at hx <;>
    casesm* _ ∨ _ <;> subst_vars <;> rfl

/-- The wildcards cover what the hash of a `multipath` action reads of a flow. -/
lemma SameSymmetricL4.of_mask (hwc : wc .dlType = BitVec.allOnes 16)
    (h : Masked.Agree (flowMaskHashFields f wc .symmetricL4) f g) : SameSymmetricL4 f g where
  dlSrc := h.eq (flowMaskHashFields_of_mem (by simp [maskedFields]))
  dlDst := h.eq (flowMaskHashFields_of_mem (by simp [maskedFields]))
  dlType := h.eq <| by
    simp only [flowMaskHashFields, flowUnwildcardTpPorts]
    split_ifs <;> exact hwc
  vid := by
    have hb : vlanVidMask &&& (vlanVidMask ||| vlanCfi) = vlanVidMask := by decide
    refine h.and_eq ?_
    rw [← hb, BitVec.and_assoc]
    exact congrArg (vlanVidMask &&& ·) (and_orBits FlowField.vlanTci _)
  ipv4 h4 := by
    constructor <;> exact h.eq (flowMaskHashFields_of_mem (by simp [maskedFields, h4]))
  ipv6 h6 := by
    have hne : f .dlType ≠ ethTypeIp := by rw [h6]; decide
    have hx : ∀ x ∈ [FlowField.ipv6Src, .ipv6Dst], f x = g x := by
      intro x hx
      refine h.eq (flowMaskHashFields_of_mem (mem_append_left _ (mem_append_right _ ?_)))
      rwa [if_neg hne, if_pos h6]
    rw [hx .ipv6Src (by simp), hx .ipv6Dst (by simp)]
  nwProto hip := h.eq (flowMaskHashFields_of_mem (by simp [maskedFields, hip]))
  ports hip hp := by
    have hne : f .nwProto ≠ ipprotoIcmp := by rcases hp with hp | hp <;> rw [hp] <;> decide
    constructor <;> exact h.eq (flowMaskHashFields_of_mem (by simp [maskedFields, hip, hne]))

lemma flowHashFields_eq (hwc : wc .dlType = BitVec.allOnes 16) {fields : HashFields}
    (h : Masked.Agree (flowMaskHashFields f wc fields) f g) (basis : BitVec 16) :
    flowHashFields f fields basis = flowHashFields g fields basis := by
  cases fields with
  | ethSrc =>
    have hsrc : f .dlSrc = g .dlSrc := h.eq (exact_self wc .dlSrc)
    rw [flowHashFields, flowHashFields, hsrc]
  | symmetricL4 => exact (SameSymmetricL4.of_mask hwc h).hash_eq _

/-- Loading the link adds bits to the wildcards. -/
lemma le_mfWriteSubfieldFlow (sf : Subfield) :
    Le wc (mfWriteSubfieldFlow sf (2 ^ sf.nBits - 1) wc) := by
  refine le_update (BitVec.eq_of_getElem_eq fun k hk => ?_)
  simp only [BitVec.getElem_and, BitVec.getElem_or, BitVec.getElem_not]
  cases (wc sf.field)[k]
  · rfl
  · cases (BitVec.ofNat sf.field.bits (2 ^ sf.nBits - 1) <<< sf.ofs)[k] <;> rfl

/-! ### The search for a link ends -/

lemma iterHashFrom_isSome {hash : BitVec 32} {nLinks modulo : ℕ} (hn : 0 < nLinks) {j : ℕ}
    (hj : hash2words hash (BitVec.ofNat 32 j) = 0) :
    ∀ {fuel i : ℕ}, i ≤ j → j < i + fuel → (iterHashFrom hash nLinks modulo fuel i).isSome
  | 0, i, hi, hlt => absurd hlt (by omega)
  | fuel + 1, i, hi, hlt => by
    rw [iterHashFrom]
    split
    case isTrue => rfl
    case isFalse h =>
      have hne : i ≠ j := by
        rintro rfl
        simp [hj, hn] at h
      exact iterHashFrom_isSome hn hj (by omega) (by omega)

lemma algorithmIterHash_isSome (hash : BitVec 32) {nLinks : ℕ} (hn : 0 < nLinks) (modulo : ℕ) :
    (algorithmIterHash hash nLinks modulo).isSome := by
  obtain ⟨y, hy⟩ := hash2words_surjective hash 0
  have hj : hash2words hash (BitVec.ofNat 32 y.toNat) = 0 := by
    rw [BitVec.ofNat_toNat, BitVec.setWidth_eq, hy]
  exact iterHashFrom_isSome hn hj (Nat.zero_le _) (by simpa using y.isLt)

lemma multipathLink_isSome (mp : Multipath) (f : Flow) : (multipathLink mp f).isSome := by
  have hn : 0 < mp.maxLink.toNat + 1 := Nat.succ_pos _
  unfold multipathLink multipathAlgorithm
  cases mp.algorithm with
  | moduloN => rfl
  | hashThreshold => dsimp only; split <;> rfl
  | hrw => dsimp only; split <;> simp [algorithmIterHash_isSome _ hn]
  | iterHash => simp [algorithmIterHash_isSome _ hn]

lemma algorithmHrwFrom_succ (hash : BitVec 32) (n link best : ℕ) (weight : BitVec 32) :
    algorithmHrwFrom hash (n + 1) link best weight = algorithmHrwFrom hash n link best weight ∨
      algorithmHrwFrom hash (n + 1) link best weight = (link + n) % 2 ^ 16 := by
  induction n generalizing link best weight with
  | zero =>
    simp only [algorithmHrwFrom]
    split <;> simp
  | succ n ih =>
    unfold algorithmHrwFrom
    dsimp only
    split <;> exact (ih ..).imp_right (·.trans (by omega))

/-- With one more link, a flow stays where it is or moves to the new one. -/
lemma algorithmHrw_succ (hash : BitVec 32) (n : ℕ) :
    algorithmHrw hash (n + 1) = algorithmHrw hash n ∨
      algorithmHrw hash (n + 1) = n % 2 ^ 16 := by
  cases n with
  | zero => exact .inl rfl
  | succ n =>
    have hsucc := algorithmHrwFrom_succ hash n 1 0 (hash2words hash 0)
    rwa [Nat.add_comm 1 n] at hsucc

/-- **New links take traffic only to themselves**, and when links go only their traffic moves.  The
number of a link is truncated to a `uint16_t`. -/
theorem algorithmHrw_add (hash : BitVec 32) (n k : ℕ) :
    algorithmHrw hash (n + k) = algorithmHrw hash n ∨
      ∃ link, n ≤ link ∧ link < n + k ∧ algorithmHrw hash (n + k) = link % 2 ^ 16 := by
  induction k with
  | zero => exact .inl rfl
  | succ k ih =>
    rw [← Nat.add_assoc]
    obtain hstay | hmove := algorithmHrw_succ hash (n + k)
    · rw [hstay]
      exact ih.imp_right fun ⟨link, hle, hlt, heq⟩ => ⟨link, hle, Nat.lt_succ_of_lt hlt, heq⟩
    · exact .inr ⟨n + k, Nat.le_add_right n k, Nat.lt_succ_self _, hmove⟩

lemma algorithmHrw_le (hash : BitVec 32) : ∀ n, algorithmHrw hash (n + 1) ≤ n
  | 0 => le_rfl
  | n + 1 => by
    have hn := algorithmHrw_le hash n
    have hsucc := algorithmHrw_succ hash (n + 1)
    omega

lemma iterHashFrom_lt {hash : BitVec 32} {nLinks modulo fuel i link : ℕ}
    (h : iterHashFrom hash nLinks modulo fuel i = some link) : link < nLinks := by
  fun_induction iterHashFrom <;> simp_all

/-- **A `multipath` action picks one of its links**, whatever the flow and the algorithm. -/
theorem multipathLink_le (mp : Multipath) (f : Flow) :
    ∃ link ≤ mp.maxLink, multipathLink mp f = some link := by
  suffices h : ∃ x < mp.maxLink.toNat + 1, multipathLink mp f = some (BitVec.ofNat 16 x) by
    obtain ⟨x, hx, hlink⟩ := h
    exact ⟨_, (Nat.mod_le ..).trans (Nat.le_of_lt_succ hx), hlink⟩
  unfold multipathLink multipathAlgorithm
  generalize mp.maxLink.toNat = n, flowHashFields f mp.fields mp.basis = hash
  have hiter : ∀ modulo, ∃ x < n + 1,
      (algorithmIterHash hash (n + 1) modulo).map (BitVec.ofNat 16) = some (BitVec.ofNat 16 x) := by
    intro modulo
    obtain ⟨x, hx⟩ := Option.isSome_iff_exists.mp (algorithmIterHash_isSome hash n.succ_pos modulo)
    exact ⟨x, iterHashFrom_lt hx, by rw [hx]; rfl⟩
  have hthreshold : hash.toNat / ((2 ^ 32 - 1) / (n + 1) + 1) < n + 1 := by
    refine Nat.div_lt_of_lt_mul (lt_of_le_of_lt (Nat.le_sub_one_of_lt hash.isLt) ?_)
    rw [Nat.mul_comm]
    exact Nat.lt_mul_div_succ _ n.succ_pos
  cases mp.algorithm with
  | moduloN => exact ⟨_, Nat.mod_lt _ n.succ_pos, rfl⟩
  | hashThreshold =>
    dsimp only
    split
    · exact ⟨0, n.succ_pos, rfl⟩
    · exact ⟨_, hthreshold, rfl⟩
  | hrw =>
    dsimp only
    split
    · exact ⟨_, Nat.lt_succ_of_le (algorithmHrw_le hash n), rfl⟩
    · exact hiter 0
  | iterHash => exact hiter _

/-! ### The results -/

variable {α : Type}

/-- With the hash of `f` the same live bucket of a group wins as with that of `g`. -/
def SameWinner (env : Liveness α) (buckets : List (Bucket α)) (f g : Flow) : Prop :=
  let alive := bucketIsAlive env maxLivenessRecursion
  ∀ b, Wins (liveScores alive (flowHashSymmetricL4 f 0) 0 buckets) b ↔
    Wins (liveScores alive (flowHashSymmetricL4 g 0) 0 buckets) b

lemma sameWinner_iff {env : Liveness α} {buckets : List (Bucket α)} :
    SameWinner env buckets f g ↔ groupBestLiveBucket env buckets (flowHashSymmetricL4 g 0) =
      groupBestLiveBucket env buckets (flowHashSymmetricL4 f 0) := by
  unfold SameWinner
  simp only [← groupBestLiveBucket_eq_some_iff]
  exact ⟨fun h => Option.ext fun b => (h b).symm, fun h b => by rw [h]⟩

/-- If no bucket is chosen for `f`, then none is live. -/
lemma sameWinner_of_none {env : Liveness α} {buckets : List (Bucket α)}
    (h : groupBestLiveBucket env buckets (flowHashSymmetricL4 f 0) = none) :
    SameWinner env buckets f g := by
  have hnil : liveScores (bucketIsAlive env maxLivenessRecursion) (flowHashSymmetricL4 f 0) 0
      buckets = [] := by
    by_contra hne
    obtain ⟨b, hb⟩ := exists_wins hne
    cases h.symm.trans (groupBestLiveBucket_eq_some_iff.2 hb)
  intro b
  rw [hnil, (liveScores_eq_nil_iff 0).2 ((liveScores_eq_nil_iff 0).1 hnil)]

/-- Two buckets that are always live. -/
def twoBuckets : List (Bucket Unit) :=
  [⟨100, ofppAny, ofpgAny, 0, ()⟩, ⟨100, ofppAny, ofpgAny, 1, ()⟩]

/-- No ports and no groups. -/
def noWatch : Liveness Unit := ⟨fun _ => none, fun _ => none⟩

/-- A flow of some type to an IPv6 address, with some IP type of service. -/
def steeredFlow (dlType : BitVec 16) (ipv6Dst : BitVec 128) (nwTos : BitVec 8) : Flow
  | .dlType => dlType
  | .ipv6Dst => ipv6Dst
  | .nwTos => nwTos
  | x => 0#x.bits

/-- Choose one of eight links by `NX_MP_ALG_ITER_HASH`, into the first register. -/
def eightLinks : Multipath :=
  { fields := .symmetricL4, basis := 50, algorithm := .iterHash, maxLink := 7, arg := 0,
    dst := ⟨.regs 0, 0, 16, 0⟩ }

end Soundness

end Xlate

end OVS
