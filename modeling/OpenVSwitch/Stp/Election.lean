import Mathlib.Data.Set.Finite.Lemmas
import OpenVSwitch.Stp.Clock
import OpenVSwitch.Stp.SpanningTree

/-!
# The election of the root port

Messages say path costs as unsigned numbers of 32 bits, but `lib/stp.c` keeps them in `int`s.
`stp_supersedes_root()` compares the sums as such, so that a cost of 2³¹ or more is less than any
other.  (Where a cost is compared with the `root_path_cost` of the bridge or of a message, it is
converted to an unsigned number first.)

* `root_election_iff` — the root port is the best one exactly if no sum overflows, a cost that is
  taken for a negative number does not beat the best port, and the best port is not made a
  designated port by the same call.
* `root_election_signed` — a port that has heard of a cost of 2³¹ is preferred to one with a cost
  of 5.
-/

namespace OVS

namespace Stp

open List

/-! ## The selection with `int`s -/

/-- `designated_cost + path_cost` of two `int`s, as a number. -/
def signedCost (s : Stp) (i : StpPortNo) : ℤ :=
  (BitVec.ofNat 32 (s.ports i).designatedCost).toInt + (s.ports i).pathCost

/-- `stp_supersedes_root()`, with `int`s. -/
def supersedesRootInt (s : Stp) (root i : StpPortNo) : Option Bool := do
  let r := s.ports root
  let p := s.ports i
  let pCost ← inInt (s.signedCost i)
  let rootCost ← inInt (s.signedCost root)
  return if p.designatedRoot ≠ r.designatedRoot then p.designatedRoot < r.designatedRoot
    else if pCost ≠ rootCost then pCost < rootCost
    else if p.designatedBridge ≠ r.designatedBridge then p.designatedBridge < r.designatedBridge
    else if p.designatedPort ≠ r.designatedPort then p.designatedPort < r.designatedPort
    else p.portId i < r.portId root

/-- The body of the loop of `stp_root_selection()`, with `int`s. -/
def considerRootInt (s : Stp) (root : Option StpPortNo) (i : StpPortNo) :
    Option (Option StpPortNo) :=
  if !s.enabled i then some root
  else if s.isDesignatedPort i || s.bridgeId ≤ (s.ports i).designatedRoot then some root
  else match root with
    | none => some (some i)
    | some r => (s.supersedesRootInt r i).map fun better => if !better then some r else some i

/-- The end of `stp_root_selection()`, if there is a root port.  `root_path_cost` is unsigned. -/
def withRoot (s : Stp) (root : StpPortNo) (cost : ℤ) : Stp :=
  { s with
    rootPort := some root
    designatedRoot := (s.ports root).designatedRoot
    rootPathCost := (BitVec.ofInt 32 cost).toNat }

/-- `stp_root_selection()`, with `int`s. -/
def rootSelectionInt (s : Stp) : Option Stp := do
  match ← (finRange 255).foldlM s.considerRootInt none with
  | none => return { s with rootPort := none, designatedRoot := s.bridgeId, rootPathCost := 0 }
  | some root => return s.withRoot root (← inInt (s.signedCost root))

/-- `stp_configuration_update()`, with `int`s. -/
def configurationUpdateInt (s : Stp) : Option Stp :=
  s.rootSelectionInt.map designatedPortSelection

/-! ## What should be selected -/

/-- The cost of the way to the root through a port. -/
def costThrough (s : Stp) (i : StpPortNo) : ℕ := (s.ports i).designatedCost + (s.ports i).pathCost

/-- What ports with the same root and cost are compared by. -/
def tieKey (s : Stp) (i : StpPortNo) : ℕ ×ₗ ℕ ×ₗ ℕ :=
  toLex ((s.ports i).designatedBridge, toLex ((s.ports i).designatedPort, (s.ports i).portId i))

/-- What ports should be compared by. -/
def rootKey (s : Stp) (i : StpPortNo) : ℕ ×ₗ ℕ ×ₗ ℕ ×ₗ ℕ ×ₗ ℕ :=
  toLex ((s.ports i).designatedRoot, toLex (s.costThrough i, s.tieKey i))

/-- The root port is the best candidate, and there is none if the bridge is the root. -/
def RootElected (s : Stp) : Prop :=
  match s.rootPort with
  | none => s.isRootBridge = true ∧ ∀ i, ¬ s.RootCandidate i
  | some r => s.isRootBridge = false ∧ s.RootCandidate r ∧ s.rootPathCost = s.costThrough r ∧
      ∀ i, s.RootCandidate i → s.rootKey r ≤ s.rootKey i

/-- The costs fit the members for them: an `int` with the bits of a message, and a `uint16_t`. -/
def CostsFit (s : Stp) : Prop :=
  ∀ i, (s.ports i).designatedCost < 2 ^ 32 ∧ (s.ports i).pathCost < 2 ^ 16

/-- The cost of a port with the same root is not taken for a lesser one than that of `b`, which is
less than 2³¹: it is less than 2³¹ too, or so large that the sum wraps around past that of `b`. -/
def NotMistaken (s : Stp) (b i : StpPortNo) : Prop :=
  s.costThrough i < 2 ^ 31 ∨ 2 ^ 32 + s.costThrough b < s.costThrough i ∨
    2 ^ 32 + s.costThrough b = s.costThrough i ∧ s.tieKey b ≤ s.tieKey i

/-- The cost of `b` can be represented, no other is taken for a lesser one, and the bridge does not
make `b` the designated port of its LAN. -/
structure Eligible (s : Stp) (b : StpPortNo) : Prop where
  cost : s.costThrough b < 2 ^ 32
  least : s.costThrough b < 2 ^ 31 → ∀ i, s.RootCandidate i →
    (s.ports i).designatedRoot = (s.ports b).designatedRoot → s.NotMistaken b i
  remains : 0 < (s.ports b).pathCost ∨ (s.ports b).designatedBridge < s.bridgeId ∨
    (s.ports b).designatedBridge = s.bridgeId ∧ (s.ports b).designatedPort < (s.ports b).portId b

/-- No sum of costs of a candidate overflows, and the best candidate is eligible. -/
structure Electable (s : Stp) : Prop where
  fits : ∀ i, s.RootCandidate i →
    2 ^ 31 ≤ (s.ports i).designatedCost ∨ s.costThrough i < 2 ^ 31
  best : ∀ b, s.RootCandidate b → (∀ i, s.RootCandidate i → s.rootKey b ≤ s.rootKey i) →
    s.Eligible b

variable {s s' : Stp} {i b r : StpPortNo} {root root' : Option StpPortNo} {P : StpPortNo → Prop}

/-- What `stp_supersedes_root()` compares ports by. -/
def signedKey (s : Stp) (i : StpPortNo) : ℕ ×ₗ ℤ ×ₗ ℕ ×ₗ ℕ ×ₗ ℕ :=
  toLex ((s.ports i).designatedRoot, toLex (s.signedCost i, s.tieKey i))

lemma signedCost_eq (h : s.CostsFit) (i : StpPortNo) :
    s.signedCost i = s.costThrough i ∧ (s.ports i).designatedCost < 2 ^ 31 ∨
      s.signedCost i = s.costThrough i - 2 ^ 32 ∧ 2 ^ 31 ≤ (s.ports i).designatedCost := by
  have := h i
  unfold signedCost costThrough
  rw [BitVec.toInt_eq_toNat_cond, BitVec.toNat_ofNat, Nat.mod_eq_of_lt (h i).1]
  split <;> omega

lemma inInt_signedCost (h : s.CostsFit) (i : StpPortNo) :
    inInt (s.signedCost i) = if s.signedCost i < 2 ^ 31 then some (s.signedCost i) else none := by
  have := signedCost_eq h i
  have := h i
  unfold costThrough at *
  unfold inInt
  congr 1
  simp only [eq_iff_iff]
  omega

/-- The comparison is defined if both sums are, and then it compares the keys. -/
lemma supersedesRootInt_eq (h : s.CostsFit) (r i : StpPortNo) :
    s.supersedesRootInt r i = if s.signedCost i < 2 ^ 31 ∧ s.signedCost r < 2 ^ 31 then
      some (decide (s.signedKey i < s.signedKey r)) else none := by
  unfold supersedesRootInt
  rw [inInt_signedCost h, inInt_signedCost h]
  by_cases hi : s.signedCost i < 2 ^ 31 <;> by_cases hr : s.signedCost r < 2 ^ 31 <;>
    simp only [hi, hr, if_true, if_false, and_self, and_false, false_and, Option.bind_eq_bind,
      Option.bind_some, Option.bind_none]
  simp only [signedKey, tieKey, Prod.Lex.toLex_lt_toLex]
  congr 1
  split_ifs <;> simp_all

/-- What the loop has found among some ports: the least, and all of them have been compared. -/
def Found (s : Stp) (P : StpPortNo → Prop) : Option StpPortNo → Prop
  | none => ∀ i, P i → ¬ s.RootCandidate i
  | some r => s.RootCandidate r ∧ ∀ i, P i → s.RootCandidate i → i = r ∨
      s.signedCost i < 2 ^ 31 ∧ s.signedCost r < 2 ^ 31 ∧ s.signedKey r ≤ s.signedKey i

lemma noCandidate : s.Found (fun _ => False) none := nofun

lemma considerRootInt_of_not (h : ¬ s.RootCandidate i) : s.considerRootInt root i = some root := by
  unfold considerRootInt
  split
  · rfl
  · rename_i henabled
    rw [if_pos]
    by_contra hcand
    simp only [Bool.or_eq_true, decide_eq_true_eq, not_or, not_le, Bool.not_eq_true] at hcand
    exact h ⟨by simpa using henabled, hcand⟩

lemma considerRootInt_none (h : s.RootCandidate i) : s.considerRootInt none i = some (some i) := by
  unfold considerRootInt
  rw [if_neg (by simp [h.1]), if_neg (by simp [h.2.1, h.2.2])]

lemma considerRootInt_some (h : s.RootCandidate i) :
    s.considerRootInt (some r) i =
      (s.supersedesRootInt r i).map fun better => if !better then some r else some i := by
  unfold considerRootInt
  rw [if_neg (by simp [h.1]), if_neg (by simp [h.2.1, h.2.2])]

/-- One iteration of the loop. -/
lemma Found.considerRootInt (hs : s.CostsFit) (h : s.Found P root)
    (hroot' : s.considerRootInt root i = some root') : s.Found (fun j => P j ∨ j = i) root' := by
  by_cases hi : s.RootCandidate i
  · cases root with
    | none =>
      rw [considerRootInt_none hi] at hroot'
      cases hroot'
      refine ⟨hi, ?_⟩
      rintro j (hj | rfl) hcand
      · exact absurd hcand (h j hj)
      · exact .inl rfl
    | some r =>
      rw [considerRootInt_some hi, supersedesRootInt_eq hs] at hroot'
      split at hroot'
      · rename_i hfits
        simp only [Option.map_some, Option.some.injEq, Bool.not_eq_true', decide_eq_false_iff_not,
          not_lt] at hroot'
        split at hroot' <;> cases hroot'
        · rename_i hle
          refine ⟨h.1, ?_⟩
          rintro j (hj | rfl) hcand
          · exact h.2 j hj hcand
          · exact .inr ⟨hfits.1, hfits.2, hle⟩
        · rename_i hlt
          refine ⟨hi, ?_⟩
          rintro j (hj | rfl) hcand
          · obtain rfl | ⟨hj, -, hle⟩ := h.2 j hj hcand
            · exact .inr ⟨hfits.2, hfits.1, (not_le.1 hlt).le⟩
            · exact .inr ⟨hj, hfits.1, (not_le.1 hlt).le.trans hle⟩
          · exact .inl rfl
      · cases hroot'
  · rw [considerRootInt_of_not hi] at hroot'
    cases hroot'
    cases root with
    | none =>
      rintro j (hj | rfl) hcand
      exacts [h j hj hcand, hi hcand]
    | some r =>
      refine ⟨h.1, ?_⟩
      rintro j (hj | rfl) hcand
      exacts [h.2 j hj hcand, absurd hcand hi]

/-- The loop finds the least of all ports. -/
lemma Found.foldlM (hs : s.CostsFit) (is : List StpPortNo) (h : s.Found P root)
    (hroot' : is.foldlM s.considerRootInt root = some root') :
    s.Found (fun j => P j ∨ j ∈ is) root' := by
  induction is generalizing root P with
  | nil =>
    cases hroot'
    simpa using h
  | cons i is ih =>
    rw [foldlM_cons, Option.bind_eq_bind, Option.bind_eq_some_iff] at hroot'
    obtain ⟨root'', hi, hroot'⟩ := hroot'
    simpa [or_assoc] using ih (h.considerRootInt hs hi) hroot'

/-- If no sum overflows, then the loop comes to its end. -/
lemma exists_foldlM (hs : s.CostsFit) (hfits : ∀ i, s.RootCandidate i → s.signedCost i < 2 ^ 31)
    (is : List StpPortNo) (hroot : ∀ r, root = some r → s.RootCandidate r) :
    ∃ root', is.foldlM s.considerRootInt root = some root' := by
  induction is generalizing root with
  | nil => exact ⟨root, rfl⟩
  | cons i is ih =>
    have hstep : ∃ root', s.considerRootInt root i = some root' ∧
        ∀ r, root' = some r → s.RootCandidate r := by
      by_cases hi : s.RootCandidate i
      · cases root with
        | none => exact ⟨some i, considerRootInt_none hi, by rintro r ⟨⟩; exact hi⟩
        | some r =>
          rw [considerRootInt_some hi, supersedesRootInt_eq hs,
            if_pos ⟨hfits i hi, hfits r (hroot r rfl)⟩]
          refine ⟨_, rfl, ?_⟩
          dsimp only
          split <;> rintro r' ⟨⟩
          exacts [hroot r rfl, hi]
      · exact ⟨root, considerRootInt_of_not hi, hroot⟩
    obtain ⟨root', hi, hroot'⟩ := hstep
    simpa [hi] using ih hroot'

/-! ## The election -/

/-- What `stp_configuration_update()` does to the root port. -/
lemma configurationUpdateInt_eq_some (hs : s.CostsFit) (h : s.configurationUpdateInt = some s') :
    (∀ i, s.RootCandidate i → s.signedCost i < 2 ^ 31) ∧
      ((∀ i, ¬ s.RootCandidate i) ∧ s' = designatedPortSelection
          { s with rootPort := none, designatedRoot := s.bridgeId, rootPathCost := 0 } ∨
        ∃ r, s.RootCandidate r ∧ (∀ i, s.RootCandidate i → s.signedKey r ≤ s.signedKey i) ∧
          s' = (s.withRoot r (s.signedCost r)).designatedPortSelection) := by
  unfold configurationUpdateInt rootSelectionInt at h
  obtain ⟨t, ht, rfl⟩ := Option.map_eq_some_iff.1 h
  rw [Option.bind_eq_bind, Option.bind_eq_some_iff] at ht
  obtain ⟨root, hfold, ht⟩ := ht
  have hfound := noCandidate.foldlM hs (finRange 255) hfold
  cases root with
  | none =>
    have hnone : ∀ i, ¬ s.RootCandidate i := fun i => hfound i (by simp)
    cases ht
    exact ⟨fun i hi => absurd hi (hnone i), .inl ⟨hnone, rfl⟩⟩
  | some r =>
    simp only [inInt_signedCost hs] at ht
    by_cases hr : s.signedCost r < 2 ^ 31
    · rw [if_pos hr] at ht
      cases ht
      have hall := fun i => hfound.2 i (by simp)
      refine ⟨fun i hi => ?_, .inr ⟨r, hfound.1, fun i hi => ?_, rfl⟩⟩
      · obtain rfl | ⟨hfits, -⟩ := hall i hi
        exacts [hr, hfits]
      · obtain rfl | ⟨-, -, hle⟩ := hall i hi
        exacts [le_rfl, hle]
    · rw [if_neg hr] at ht
      cases ht

lemma exists_configurationUpdateInt (hs : s.CostsFit)
    (hfits : ∀ i, s.RootCandidate i → s.signedCost i < 2 ^ 31) :
    ∃ s', s.configurationUpdateInt = some s' := by
  obtain ⟨root, hfold⟩ := exists_foldlM hs hfits (finRange 255)
    (show ∀ r, none = some r → s.RootCandidate r from nofun)
  have hfound := noCandidate.foldlM hs (finRange 255) hfold
  unfold configurationUpdateInt rootSelectionInt
  rw [hfold]
  cases root with
  | none => exact ⟨_, rfl⟩
  | some r =>
    simp only [inInt_signedCost hs, if_pos (hfits r hfound.1), Option.bind_eq_bind,
      Option.bind_some]
    exact ⟨_, rfl⟩

/-- A port stays a candidate in `stp_designated_port_selection()` if it should not be designated. -/
lemma rootCandidate_designatedPortSelection :
    s.designatedPortSelection.RootCandidate i ↔
      s.RootCandidate i ∧ s.shouldBeDesignated i = false := by
  by_cases h : s.enabled i && s.shouldBeDesignated i
  · have hport : s.designatedPortSelection.ports i = s.becomeDesignatedPort i := if_pos h
    simp only [Bool.and_eq_true] at h
    simp [RootCandidate, isDesignatedPort, hport, becomeDesignatedPort, StpPort.portId, h.2,
      show s.designatedPortSelection.bridgeId = s.bridgeId from rfl]
  · have hport : s.designatedPortSelection.ports i = s.ports i := if_neg h
    have hsame : s.designatedPortSelection.RootCandidate i ↔ s.RootCandidate i := by
      simp only [RootCandidate, enabled, isDesignatedPort, hport]
      rfl
    rw [hsame, iff_self_and]
    intro hcand
    simpa [hcand.1] using h

lemma rootKey_designatedPortSelection (h : s.designatedPortSelection.RootCandidate i) :
    s.designatedPortSelection.rootKey i = s.rootKey i ∧
      s.designatedPortSelection.costThrough i = s.costThrough i := by
  have hport : s.designatedPortSelection.ports i = s.ports i :=
    if_neg (by simp [(rootCandidate_designatedPortSelection.1 h).2])
  simp [rootKey, tieKey, costThrough, hport]

lemma signedCost_lt_iff (hs : s.CostsFit) :
    s.signedCost i < 2 ^ 31 ↔ 2 ^ 31 ≤ (s.ports i).designatedCost ∨ s.costThrough i < 2 ^ 31 := by
  have := signedCost_eq hs i
  have := hs i
  unfold costThrough at *
  omega

/-- The best candidate is the least one for the code exactly if no cost is mistaken. -/
lemma signedKey_le_iff (hs : s.CostsFit) (hb : s.signedCost b < 2 ^ 31)
    (hi : s.signedCost i < 2 ^ 31) (hbest : s.rootKey b ≤ s.rootKey i)
    (hcost : s.costThrough b < 2 ^ 32) :
    s.signedKey b ≤ s.signedKey i ↔ (s.costThrough b < 2 ^ 31 →
      (s.ports i).designatedRoot = (s.ports b).designatedRoot → s.NotMistaken b i) := by
  have hsb := signedCost_eq hs b
  have hsi := signedCost_eq hs i
  have hle : (s.ports b).designatedCost ≤ s.costThrough b := Nat.le_add_right _ _
  have hlei : (s.ports i).designatedCost ≤ s.costThrough i := Nat.le_add_right _ _
  simp only [rootKey, signedKey, NotMistaken, Prod.Lex.toLex_le_toLex] at hbest ⊢
  obtain hroot | ⟨hroot, hbest⟩ := hbest
  · simp only [hroot, true_or, true_iff]
    intro _ heq
    omega
  · by_cases htie : s.tieKey b ≤ s.tieKey i <;>
      simp only [hroot, htie, and_true, and_false, or_false, true_and, lt_irrefl, false_or,
        forall_const] at hbest ⊢ <;> omega

lemma eq_of_tieKey_eq (h : s.tieKey b = s.tieKey i) : b = i := by
  simp only [tieKey, EmbeddingLike.apply_eq_iff_eq, Prod.mk.injEq] at h
  exact portId_injective h.2.2

lemma withRoot_rootPathCost (hs : s.CostsFit) :
    (s.withRoot r (s.signedCost r)).rootPathCost = s.costThrough r % 2 ^ 32 := by
  have := signedCost_eq hs r
  simp only [withRoot, BitVec.toNat_ofInt]
  omega

/-- Which candidates with the root of the root port are made designated ports. -/
lemma withRoot_shouldBeDesignated (hs : s.CostsFit) (hcost : s.costThrough r < 2 ^ 32)
    (hi : s.RootCandidate i) (hroot : (s.ports i).designatedRoot = (s.ports r).designatedRoot) :
    (s.withRoot r (s.signedCost r)).shouldBeDesignated i = false ↔
      (s.ports i).designatedCost ≤ s.costThrough r ∧
        (s.costThrough r = (s.ports i).designatedCost → (s.ports i).designatedBridge < s.bridgeId ∨
          (s.ports i).designatedBridge = s.bridgeId ∧
            (s.ports i).designatedPort < (s.ports i).portId i) := by
  have hpath := withRoot_rootPathCost hs (r := r)
  rw [Nat.mod_eq_of_lt hcost] at hpath
  have hdes : (s.withRoot r (s.signedCost r)).isDesignatedPort i = false := hi.2.1
  simp only [shouldBeDesignated, hpath, hdes, Bool.false_or, Bool.or_eq_false_iff,
    decide_eq_false_iff_not, Bool.and_eq_false_iff, not_not]
  simp only [withRoot, hroot, true_and]
  omega

/-- If the chosen port has the right cost, the best port is not made a designated port unless it is
the chosen one. -/
lemma best_remains (hs : s.CostsFit)
    (hfits : ∀ i, s.RootCandidate i → s.signedCost i < 2 ^ 31) (hr : s.RootCandidate r)
    (hmin : ∀ i, s.RootCandidate i → s.signedKey r ≤ s.signedKey i)
    (hcost : s.costThrough r < 2 ^ 32) (hb : s.RootCandidate b)
    (hbest : s.rootKey b ≤ s.rootKey r) (hne : b ≠ r) :
    (s.withRoot r (s.signedCost r)).shouldBeDesignated b = false := by
  have hchosen := hmin b hb
  simp only [rootKey, signedKey, Prod.Lex.toLex_le_toLex] at hbest hchosen
  have hroot : (s.ports b).designatedRoot = (s.ports r).designatedRoot := by omega
  simp only [hroot, lt_irrefl, true_and, false_or] at hbest hchosen
  have hle : (s.ports b).designatedCost ≤ s.costThrough b := Nat.le_add_right _ _
  have hler : (s.ports r).designatedCost ≤ s.costThrough r := Nat.le_add_right _ _
  rw [withRoot_shouldBeDesignated hs hcost hb hroot]
  refine ⟨by omega, fun heq => absurd ?_ hne⟩
  -- all costs are equal, so that both comparisons come down to the same key
  have hsb := signedCost_eq hs b
  have hsr := signedCost_eq hs r
  have hr' := (signedCost_lt_iff hs).1 (hfits r hr)
  have hsigned : s.signedCost r = s.signedCost b := by omega
  have htie : s.tieKey b ≤ s.tieKey r := (hbest.resolve_left (by omega)).2
  have htie' : s.tieKey r ≤ s.tieKey b := (hchosen.resolve_left (by omega)).2
  exact eq_of_tieKey_eq (le_antisymm htie htie')

/-- The root port that the code chooses is the right one exactly if the best one is eligible. -/
lemma rootElected_withRoot (hs : s.CostsFit)
    (hfits : ∀ i, s.RootCandidate i → s.signedCost i < 2 ^ 31) (hr : s.RootCandidate r)
    (hmin : ∀ i, s.RootCandidate i → s.signedKey r ≤ s.signedKey i) :
    (s.withRoot r (s.signedCost r)).designatedPortSelection.RootElected ↔
      ∀ b, s.RootCandidate b → (∀ i, s.RootCandidate i → s.rootKey b ≤ s.rootKey i) →
        s.Eligible b := by
  set t := s.withRoot r (s.signedCost r) with ht
  have hcand : ∀ i, t.RootCandidate i ↔ s.RootCandidate i := fun i => Iff.rfl
  have hkey : ∀ i, t.designatedPortSelection.RootCandidate i →
      t.designatedPortSelection.rootKey i = s.rootKey i := fun i hi =>
    (rootKey_designatedPortSelection hi).1
  have hpath : t.designatedPortSelection.rootPathCost = s.costThrough r % 2 ^ 32 :=
    withRoot_rootPathCost hs
  have hlt := Nat.mod_lt (s.costThrough r) (show 0 < 2 ^ 32 by decide)
  constructor
  · rintro ⟨-, hr', hcost, hleast⟩ b hb hbest
    rw [(rootKey_designatedPortSelection hr').2, hpath] at hcost
    have hcost' : s.costThrough r < 2 ^ 32 := lt_of_eq_of_lt hcost.symm hlt
    have heq : b = r := by
      by_contra hne
      have hb' : t.designatedPortSelection.RootCandidate b :=
        rootCandidate_designatedPortSelection.2
          ⟨hb, best_remains hs hfits hr hmin hcost' hb (hbest r hr) hne⟩
      have hle := hleast b hb'
      rw [hkey r hr', hkey b hb'] at hle
      have hkeys := le_antisymm (hbest r hr) hle
      simp only [rootKey, EmbeddingLike.apply_eq_iff_eq, Prod.mk.injEq] at hkeys
      exact hne (eq_of_tieKey_eq hkeys.2.2)
    subst heq
    refine ⟨hcost', fun hsmall i hi hroot => ?_, ?_⟩
    · exact (signedKey_le_iff hs (hfits b hb) (hfits i hi) (hbest i hi) hcost').1 (hmin i hi)
        hsmall hroot
    · have hrem := (withRoot_shouldBeDesignated hs hcost' hb rfl).1
        (rootCandidate_designatedPortSelection.1 hr').2
      unfold costThrough at hrem
      omega
  · intro helig
    obtain ⟨b, hb, hbest⟩ := Set.exists_min_image {i | s.RootCandidate i} s.rootKey
      (Set.toFinite _) ⟨r, hr⟩
    obtain ⟨hcost, hleast, hrem⟩ := helig b hb hbest
    have heq : b = r := by
      have hle := (signedKey_le_iff hs (hfits b hb) (hfits r hr) (hbest r hr) hcost).2
        fun hsmall => hleast hsmall r hr
      have hkeys := le_antisymm hle (hmin b hb)
      simp only [signedKey, EmbeddingLike.apply_eq_iff_eq, Prod.mk.injEq] at hkeys
      exact eq_of_tieKey_eq hkeys.2.2
    subst heq
    have hb' : t.designatedPortSelection.RootCandidate b := by
      refine rootCandidate_designatedPortSelection.2
        ⟨hb, (withRoot_shouldBeDesignated hs hcost hb rfl).2 ?_⟩
      unfold costThrough
      omega
    refine ⟨?_, hb', ?_, fun i hi => ?_⟩
    · simpa [isRootBridge, designatedPortSelection, ht, withRoot] using hb.2.2.ne'
    · rw [hpath, Nat.mod_eq_of_lt hcost, (rootKey_designatedPortSelection hb').2]
      rfl
    · rw [hkey b hb', hkey i hi]
      exact hbest i (rootCandidate_designatedPortSelection.1 hi).1

/-- **The root port is the best one** after `stp_configuration_update()`, and its costs are added
up, if and only if no sum of costs of a candidate overflows and the best candidate is eligible. -/
theorem root_election_iff (s : Stp) (hs : s.CostsFit) :
    (∃ s', s.configurationUpdateInt = some s' ∧ s'.RootElected) ↔ s.Electable := by
  constructor
  · rintro ⟨s', hs', helected⟩
    obtain ⟨hfits, ⟨hnone, -⟩ | ⟨r, hr, hmin, rfl⟩⟩ := configurationUpdateInt_eq_some hs hs'
    · exact ⟨fun i hi => absurd hi (hnone i), fun b hb => absurd hb (hnone b)⟩
    · exact ⟨fun i hi => (signedCost_lt_iff hs).1 (hfits i hi),
        (rootElected_withRoot hs hfits hr hmin).1 helected⟩
  · rintro ⟨hfits, hbest⟩
    have hfits' := fun i hi => (signedCost_lt_iff hs).2 (hfits i hi)
    obtain ⟨s', hs'⟩ := exists_configurationUpdateInt hs hfits'
    refine ⟨s', hs', ?_⟩
    obtain ⟨-, ⟨hnone, rfl⟩ | ⟨r, hr, hmin, rfl⟩⟩ := configurationUpdateInt_eq_some hs hs'
    · refine ⟨by simp [isRootBridge, designatedPortSelection], fun i hi => hnone i ?_⟩
      exact (rootCandidate_designatedPortSelection.1 hi).1
    · exact (rootElected_withRoot hs hfits' hr hmin).2 hbest

/-- Bridge 3, which has heard from bridge 2 on two ports that the root is bridge 1. -/
def twoWays (cost : ℕ) : Stp :=
  StpNetwork.bridgeBelow 3 0 none [StpNetwork.heardPort .listening 19 ⟨1, cost, 2, 0x8001⟩,
    StpNetwork.heardPort .listening 19 ⟨1, 5, 2, 0x8002⟩]

instance (s : Stp) (i : StpPortNo) : Decidable (s.RootCandidate i) :=
  inferInstanceAs (Decidable (_ ∧ _ ∧ _))

/-- The port with the cost 5 is elected, and the other one may have a cost up to 2³¹ - 20. -/
theorem root_election_iff_twoWays :
    ∃ s', (twoWays (2 ^ 31 - 20)).configurationUpdateInt = some s' ∧ s'.RootElected ∧
      s'.rootPort = some 1 := by
  have hcand : ∀ i, (twoWays (2 ^ 31 - 20)).RootCandidate i → i = 0 ∨ i = 1 := by decide +kernel
  have hone : (twoWays (2 ^ 31 - 20)).RootCandidate 1 := by decide +kernel
  have hlt : (twoWays (2 ^ 31 - 20)).rootKey 1 < (twoWays (2 ^ 31 - 20)).rootKey 0 := by
    decide +kernel
  have hcosts : ∀ i, (twoWays (2 ^ 31 - 20)).costThrough i < 2 ^ 31 ∧
      0 < ((twoWays (2 ^ 31 - 20)).ports i).pathCost := by decide +kernel
  have hport : ∃ s', (twoWays (2 ^ 31 - 20)).configurationUpdateInt = some s' ∧
      s'.rootPort = some 1 := by
    refine ⟨((twoWays (2 ^ 31 - 20)).withRoot 1 24).designatedPortSelection, ?_, rfl⟩
    have hroot : (finRange 255).foldlM (twoWays (2 ^ 31 - 20)).considerRootInt none =
        some (some 1) := by decide +kernel
    unfold configurationUpdateInt rootSelectionInt
    rw [hroot]
    rfl
  have hfit : (twoWays (2 ^ 31 - 20)).CostsFit := by unfold CostsFit; decide +kernel
  generalize twoWays (2 ^ 31 - 20) = s at *
  obtain ⟨s', hs', helected⟩ := (root_election_iff s hfit).2
    ⟨fun i _ => .inr (hcosts i).1, fun b _ _ => ⟨(hcosts b).1.trans (by decide),
      fun _ i _ _ => .inl (hcosts i).1, .inl (hcosts b).2⟩⟩
  obtain ⟨s'', hs'', hport⟩ := hport
  rw [hs', Option.some.injEq] at hs''
  exact ⟨s', hs', helected, hs'' ▸ hport⟩

/-- **A port with a cost of 2³¹ is elected** although the other way is shorter. -/
theorem root_election_signed :
    ∃ s', (twoWays (2 ^ 31)).configurationUpdateInt = some s' ∧ s'.rootPort = some 0 ∧
      s'.RootCandidate 1 ∧ s'.rootKey 1 < s'.rootKey 0 := by
  refine ⟨((twoWays (2 ^ 31)).withRoot 0 (-2147483629)).designatedPortSelection, ?_, rfl, ?_, ?_⟩
  · have hroot : (finRange 255).foldlM (twoWays (2 ^ 31)).considerRootInt none =
        some (some 0) := by decide +kernel
    unfold configurationUpdateInt rootSelectionInt
    rw [hroot]
    rfl
  · decide +kernel
  · decide +kernel

end Stp

end OVS
