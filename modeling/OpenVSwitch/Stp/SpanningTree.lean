import Mathlib.Data.Prod.Lex
import Mathlib.Order.WellFounded
import OpenVSwitch.Lib.Forest
import OpenVSwitch.Stp.Model

/-!
# Quiescent networks are spanning trees

A network is quiescent if the ports on each LAN agree on the designated port of the LAN, what they
hold is what that port sends, and no bridge would change anything.

**The main result** is `quiescent_spanningTree_iff`: unless a bridge hears itself on its root port,
all bridges of a component take the bridge with the least ID for the root, and the ports that are
not blocked connect the component without a cycle.
Every bridge but the root has its root port, and every LAN its designated port, as the way to a
parent; on that way the cost to the root decreases or, where it stays, the ID of the bridge does.

A bridge can hear itself on its root port only if that port has path cost zero and there is another
port of the bridge on its LAN.  In `quiescent_cutOff` a bridge believes its own message, and so cuts
itself off.
-/

namespace OVS

open List Stp StpPort Option

/-! ## What a bridge that changes nothing has chosen -/

namespace Stp

variable {s : Stp} {i j : StpPortNo} {root : Option StpPortNo} {p : StpPort}

lemma portId_injective {p q : StpPort} (h : p.portId i = q.portId j) : i = j := by
  have key : ∀ (p : StpPort) (i : StpPortNo), p.portId i % 256 = i + 1 := by
    intro p i
    rw [portId, ← Nat.shiftLeft_add_eq_or_of_lt (by omega)]
    omega
  have := key p i
  rw [h, key q j] at this
  exact Fin.ext (by omega)

/-- A port that could be the root port. -/
def RootCandidate (s : Stp) (i : StpPortNo) : Prop :=
  s.enabled i = true ∧ s.isDesignatedPort i = false ∧ (s.ports i).designatedRoot < s.bridgeId

/-- The root selection only ever moves to a port that may be a root port. -/
lemma considerRoot_candidate (h : ∀ r, root = some r → s.RootCandidate r) (i : StpPortNo) :
    ∀ r, s.considerRoot root i = some r → s.RootCandidate r := by
  intro r hr
  unfold considerRoot at hr
  split at hr
  · exact h r hr
  · next henabled =>
    split at hr
    · exact h r hr
    · next hcand =>
      split at hr
      · exact h r hr
      · cases hr
        simp only [Bool.or_eq_true, decide_eq_true_eq, not_or, not_le, Bool.not_eq_true] at hcand
        exact ⟨by simpa using henabled, hcand⟩

variable (is : List StpPortNo)

lemma foldl_considerRoot (h : ∀ r, root = some r → s.RootCandidate r) :
    ∀ r, is.foldl s.considerRoot root = some r → s.RootCandidate r := by
  induction is generalizing root with
  | nil => exact h
  | cons i is ih => exact ih (considerRoot_candidate h i)

/-- What `stp_root_selection()` has chosen. -/
inductive RootChosen (s : Stp) : Prop
  | root (hport : s.rootPort = none) (hroot : s.designatedRoot = s.bridgeId)
  | port (r : StpPortNo) (hport : s.rootPort = some r) (hcand : s.RootCandidate r)
      (hroot : s.designatedRoot = (s.ports r).designatedRoot)
      (hcost : s.rootPathCost = (s.ports r).designatedCost + (s.ports r).pathCost)

lemma rootSelection_ports : s.rootSelection.ports = s.ports := by
  unfold rootSelection
  split <;> rfl

/-- A bridge that `stp_configuration_update()` does not change is not changed by its parts. -/
lemma fixed_parts (h : s.configurationUpdate = s) :
    s.rootSelection = s ∧ s.designatedPortSelection = s := by
  have hroot : s.rootSelection = s := by
    have hrest : ∀ t : Stp, { t.designatedPortSelection with ports := t.ports } = t := fun _ => rfl
    have := hrest s.rootSelection
    rw [rootSelection_ports] at this
    rw [← this]
    show { s.configurationUpdate with ports := s.ports } = s
    rw [h]
  refine ⟨hroot, ?_⟩
  rw [configurationUpdate, hroot] at h
  exact h

/-- A bridge on which root selection changes nothing has the root port the algorithm would choose.
-/
lemma rootChosen (h : s.rootSelection = s) : s.RootChosen := by
  cases hfold : (finRange 255).foldl s.considerRoot none with
  | none =>
    rw [rootSelection, hfold] at h
    rw [← h]
    exact .root rfl rfl
  | some r =>
    have hnone : ∀ r, (none : Option StpPortNo) = some r → s.RootCandidate r := nofun
    have hcand := foldl_considerRoot (finRange 255) hnone r hfold
    rw [rootSelection, hfold] at h
    have hport := congrArg rootPort h
    have hroot := congrArg designatedRoot h
    have hcost := congrArg rootPathCost h
    exact .port r hport.symm hcand hroot.symm hcost.symm

/-- What `stp_designated_port_selection()` has left. -/
structure Designated (s : Stp) (i : StpPortNo) : Prop where
  root : (s.ports i).designatedRoot = s.designatedRoot
  cost : s.isDesignatedPort i = false → (s.ports i).designatedCost ≤ s.rootPathCost
  bridge : s.isDesignatedPort i = false → (s.ports i).designatedCost = s.rootPathCost →
    (s.ports i).designatedBridge ≤ s.bridgeId

/-- A bridge on which designation changes nothing has decided it for each of its enabled ports. -/
lemma designated (h : s.designatedPortSelection = s) (henabled : s.enabled i = true) :
    s.Designated i := by
  have hport : (if s.enabled i && s.shouldBeDesignated i then s.becomeDesignatedPort i
      else s.ports i) = s.ports i := congrFun (congrArg ports h) i
  rw [henabled, Bool.true_and] at hport
  split at hport
  · -- the port is designated
    have hroot : s.designatedRoot = (s.ports i).designatedRoot :=
      congrArg StpPort.designatedRoot hport
    have hbridge : s.bridgeId = (s.ports i).designatedBridge :=
      congrArg designatedBridge hport
    have hid : (s.ports i).portId i = (s.ports i).designatedPort :=
      congrArg designatedPort hport
    have hdes : s.isDesignatedPort i = true := by
      simp [isDesignatedPort, ← hbridge, ← hid]
    exact ⟨hroot.symm, by simp [hdes], by simp [hdes]⟩
  · next hnot =>
    simp only [shouldBeDesignated, Bool.or_eq_true, Bool.and_eq_true, decide_eq_true_eq,
      not_or, not_and, not_lt, not_not] at hnot
    obtain ⟨⟨⟨hdes, hroot⟩, hcost⟩, hbridge⟩ := hnot
    exact ⟨hroot, fun _ => hcost, fun _ heq => (hbridge heq.symm).1⟩

/-! ## The states of ports -/

section States

@[simp] lemma setPort_self (s : Stp) (i : StpPortNo) (p : StpPort) : (s.setPort i p).ports i = p :=
  Function.update_self ..

/-- A step of the selection of states: it keeps what the selection looks at. -/
structure StateStep (i : StpPortNo) (s t : Stp) : Prop where
  bridgeId : t.bridgeId = s.bridgeId
  rootPort : t.rootPort = s.rootPort
  ports : ∀ j, j ≠ i → t.ports j = s.ports j

variable {t u : Stp} {state : StpState}

lemma StateStep.refl (i : StpPortNo) (s : Stp) : StateStep i s s := ⟨rfl, rfl, fun _ _ => rfl⟩

lemma StateStep.trans (h : StateStep i s t) (h' : StateStep i t u) : StateStep i s u :=
  ⟨h'.bridgeId.trans h.bridgeId, h'.rootPort.trans h.rootPort,
    fun j hj => (h'.ports j hj).trans (h.ports j hj)⟩

lemma setPort_stateStep (s : Stp) (i : StpPortNo) : StateStep i s (s.setPort i p) :=
  ⟨rfl, rfl, fun _ hj => Function.update_of_ne hj _ _⟩

/-- Setting the state of a port touches that port and the flags of a topology change. -/
lemma setPortState_stateStep (s : Stp) (i : StpPortNo) :
    StateStep i s (s.setPortState i state) := by
  unfold setPortState
  dsimp only
  split
  · exact (setPort_stateStep s i).trans ⟨rfl, rfl, fun _ _ => rfl⟩
  · exact setPort_stateStep s i

lemma setPortState_state : ((s.setPortState i state).ports i).state = state := by
  unfold setPortState
  dsimp only
  split <;> simp

lemma topologyChangeDetection_stateStep (s : Stp) (i : StpPortNo) :
    StateStep i s s.topologyChangeDetection := by
  unfold topologyChangeDetection
  split_ifs <;> exact ⟨rfl, rfl, fun _ _ => rfl⟩

lemma makeForwarding_stateStep (i : StpPortNo) : StateStep i s (s.makeForwarding i) := by
  unfold makeForwarding
  split
  · exact (setPortState_stateStep s i).trans (setPort_stateStep _ i)
  · exact .refl i s

/-- A port made forwarding leaves the blocking state, if only for listening. -/
lemma makeForwarding_state (i : StpPortNo) : ((s.makeForwarding i).ports i).state ≠ .blocking := by
  unfold makeForwarding
  split
  · simp [setPortState_state]
  · assumption

lemma makeBlocking_stateStep (i : StpPortNo) : StateStep i s (s.makeBlocking i) := by
  unfold makeBlocking
  dsimp only
  split_ifs
  · exact (topologyChangeDetection_stateStep s i).trans
      ((setPortState_stateStep _ i).trans (setPort_stateStep _ i))
  · exact (setPortState_stateStep s i).trans (setPort_stateStep _ i)
  · exact .refl i s

/-- A port made blocking is blocking, provided it is enabled. -/
lemma makeBlocking_state (h : s.enabled i = true) :
    ((s.makeBlocking i).ports i).state = .blocking := by
  have hne : (s.ports i).state ≠ .disabled := by simpa [enabled] using h
  unfold makeBlocking
  dsimp only
  split
  · simp [setPortState_state]
  · next hstate => simpa [hne] using hstate

lemma selectPortState_stateStep (s : Stp) (i : StpPortNo) :
    StateStep i s (s.selectPortState i) := by
  unfold selectPortState
  split_ifs
  · exact .refl i s
  · exact (setPort_stateStep s i).trans (makeForwarding_stateStep i)
  · exact (setPort_stateStep s i).trans (makeForwarding_stateStep i)
  · exact (setPort_stateStep s i).trans (makeBlocking_stateStep i)

/-- The loop over the ports changes no port it does not visit. -/
lemma foldl_selectPortState_notMem (s : Stp) (hi : i ∉ is) :
    (is.foldl selectPortState s).ports i = s.ports i := by
  induction is generalizing s with
  | nil => rfl
  | cons j is ih =>
    rw [mem_cons, not_or] at hi
    exact (ih _ hi.2).trans ((selectPortState_stateStep s j).ports i hi.1)

/-- The loop treats every port once, and finds it as it was. -/
lemma foldl_selectPortState_state (s : Stp) (hnodup : is.Nodup) (hi : i ∈ is)
    (h : s.enabled i = true) :
    ((is.foldl selectPortState s).ports i).state ≠ .blocking ↔
      s.rootPort = some i ∨ s.isDesignatedPort i = true := by
  induction is generalizing s with
  | nil => cases hi
  | cons j is ih =>
    obtain ⟨hj, hnodup⟩ := nodup_cons.1 hnodup
    rw [foldl_cons]
    by_cases hij : i = j
    · subst hij
      rw [foldl_selectPortState_notMem is _ hj]
      unfold selectPortState
      rw [h]
      split_ifs with hdisabled hroot hdes
      · cases hdisabled
      · exact iff_of_true (makeForwarding_state i) (.inl hroot)
      · exact iff_of_true (makeForwarding_state i) (.inr hdes)
      · have henabled : (s.clearPending i).enabled i = true := by
          simpa [enabled, clearPending] using h
        exact iff_of_false (not_not.2 (makeBlocking_state henabled)) (by simp [hroot, hdes])
    · have hstep := selectPortState_stateStep s j
      have hport := hstep.ports i hij
      have henabled : (s.selectPortState j).enabled i = true := by rwa [enabled, hport]
      rw [ih _ hnodup ((mem_cons.1 hi).resolve_left hij) henabled, hstep.rootPort,
        isDesignatedPort, isDesignatedPort, hport, hstep.bridgeId]

/-- A port that the selection of states leaves alone. -/
def StateSettled (s : Stp) (i : StpPortNo) : Prop :=
  if s.rootPort = some i then
    (s.ports i).configPending = false ∧ (s.ports i).topologyChangeAck = false ∧
      (s.ports i).state ≠ .blocking
  else if s.isDesignatedPort i then
    (s.ports i).messageAgeTimer.active = false ∧ (s.ports i).state ≠ .blocking
  else
    (s.ports i).configPending = false ∧ (s.ports i).topologyChangeAck = false ∧
      (s.ports i).state = .blocking

instance (s : Stp) (i : StpPortNo) : Decidable (s.StateSettled i) := by
  unfold StateSettled
  infer_instance

lemma setPort_eq_self (h : p = s.ports i) : s.setPort i p = s := by
  rw [setPort, h, Function.update_eq_self]

lemma clearPending_eq_self (hpending : (s.ports i).configPending = false)
    (hack : (s.ports i).topologyChangeAck = false) : s.clearPending i = s :=
  setPort_eq_self (by simp [StpPort.ext_iff, hpending, hack])

lemma makeForwarding_eq_self (h : (s.ports i).state ≠ .blocking) : s.makeForwarding i = s :=
  if_neg h

lemma makeBlocking_eq_self (h : (s.ports i).state = .blocking) : s.makeBlocking i = s := by
  simp [makeBlocking, h]

/-- A port that is in the state its role asks for is left alone. -/
lemma selectPortState_eq_self (h : s.enabled i = true → s.StateSettled i) :
    s.selectPortState i = s := by
  unfold selectPortState
  unfold StateSettled at h
  split_ifs with hdisabled hroot hdes
  · rfl
  · rw [if_pos hroot] at h
    obtain ⟨hpending, hack, hstate⟩ := h (by simpa using hdisabled)
    rw [clearPending_eq_self hpending hack, makeForwarding_eq_self hstate]
  · rw [if_neg hroot, if_pos hdes] at h
    obtain ⟨htimer, hstate⟩ := h (by simpa using hdisabled)
    rw [setPort_eq_self (by rw [StpTimer.stop, ← htimer]), makeForwarding_eq_self hstate]
  · rw [if_neg hroot, if_neg hdes] at h
    obtain ⟨hpending, hack, hstate⟩ := h (by simpa using hdisabled)
    rw [clearPending_eq_self hpending hack, makeBlocking_eq_self hstate]

end States

end Stp

/-! ## Networks -/

/-- Bridges with distinct IDs, and the LANs to which their ports are attached. -/
structure StpNetwork (B L : Type*) where
  stp : B → Stp
  lan : B → StpPortNo → L
  bridgeId_injective : Function.Injective fun b => (stp b).bridgeId

/-- The graph of bridges and LANs whose edges are the pairs in a relation. -/
def bipartite {B L : Type*} (r : B → L → Prop) : SimpleGraph (B ⊕ L) where
  Adj
    | .inl b, .inr l => r b l
    | .inr l, .inl b => r b l
    | _, _ => False
  symm := ⟨fun v w h => by cases v <;> cases w <;> exact h⟩
  loopless := ⟨fun v h => by cases v <;> exact h⟩

namespace StpNetwork

variable {B L : Type*} (N : StpNetwork B L)

/-- An enabled port of a bridge on a LAN. -/
def On (b : B) (i : StpPortNo) (l : L) : Prop := (N.stp b).enabled i = true ∧ N.lan b i = l

/-- What is connected by enabled ports. -/
def topology : SimpleGraph (B ⊕ L) := bipartite fun b l => ∃ i, N.On b i l

/-- A port that is enabled and not blocked. -/
def NonBlocking (b : B) (i : StpPortNo) (l : L) : Prop :=
  N.On b i l ∧ ((N.stp b).ports i).state ≠ .blocking

/-- What is connected by ports that are not blocked. -/
def active : SimpleGraph (B ⊕ L) := bipartite fun b l => ∃ i, N.NonBlocking b i l

/-- A quiescent state: on each LAN all enabled ports hold the same information, which is what the
designated port sends, and no bridge would change anything. -/
structure Quiescent : Prop where
  agree : ∀ {b i b' j l}, N.On b i l → N.On b' j l →
    ((N.stp b).ports i).config = ((N.stp b').ports j).config
  transmitted : ∀ {b i l}, N.On b i l →
    ∃ d j, N.On d j l ∧ (N.stp d).transmitConfig j = some ((N.stp b).ports i).config
  configuration : ∀ b, (N.stp b).configurationUpdate = N.stp b
  states : ∀ b, (N.stp b).portStateSelection = N.stp b

/-- No root port is on a LAN whose designated bridge is the bridge itself. -/
def HearsOthers : Prop :=
  ∀ {b i}, (N.stp b).rootPort = some i →
    ((N.stp b).ports i).designatedBridge ≠ (N.stp b).bridgeId

/-- The port is the designated port of the LAN. -/
def DesignatedFor (b : B) (i : StpPortNo) (l : L) : Prop :=
  N.On b i l ∧ (N.stp b).isDesignatedPort i = true

variable {N} {b b' d : B} {i j : StpPortNo} {l : L}

section Quiescent

variable (hN : N.Quiescent)
include hN

lemma Quiescent.rootChosen (b : B) : (N.stp b).RootChosen :=
  Stp.rootChosen (Stp.fixed_parts (hN.configuration b)).1

/-- In a quiescent network every attached port knows whether it is designated for its segment. -/
lemma Quiescent.designated (h : N.On b i l) : (N.stp b).Designated i :=
  Stp.designated (Stp.fixed_parts (hN.configuration b)).2 h.1

/-- **Ports that are not blocked are the root port and the designated ones.** -/
lemma Quiescent.nonBlocking_iff (h : N.On b i l) :
    N.NonBlocking b i l ↔ (N.stp b).rootPort = some i ∨ (N.stp b).isDesignatedPort i = true := by
  have hstate := foldl_selectPortState_state (finRange 255) (N.stp b) (nodup_finRange _)
    (mem_finRange i) h.1
  rw [← portStateSelection, hN.states b] at hstate
  exact (and_iff_right h).trans hstate

/-- On every LAN there is a designated port, and the ports hold what it sends. -/
lemma Quiescent.exists_designated (h : N.On b i l) :
    ∃ d j, N.DesignatedFor d j l ∧ ((N.stp b).ports i).config =
      ⟨(N.stp d).designatedRoot, (N.stp d).rootPathCost, (N.stp d).bridgeId,
        ((N.stp d).ports j).portId j⟩ := by
  obtain ⟨d, j, hj, hsent⟩ := hN.transmitted h
  have hconfig := hN.agree h hj
  unfold transmitConfig at hsent
  split at hsent
  · cases hsent
  · rw [some.injEq] at hsent
    rw [← hsent] at hconfig
    refine ⟨d, j, ⟨hj, ?_⟩, hsent.symm⟩
    have hbridge := congrArg StpConfig.bridgeId hconfig
    have hport := congrArg StpConfig.portId hconfig
    simp only [config] at hbridge hport
    simp [isDesignatedPort, ← hbridge, ← hport]

/-- There is only one. -/
lemma Quiescent.designatedFor_unique (h : N.DesignatedFor b i l) (h' : N.DesignatedFor b' j l) :
    b = b' ∧ i = j := by
  have hconfig := hN.agree h.1 h'.1
  have hbridge := congrArg StpConfig.bridgeId hconfig
  have hport := congrArg StpConfig.portId hconfig
  obtain ⟨⟨-, hdes⟩, ⟨-, hdes'⟩⟩ := And.intro h h'
  simp only [isDesignatedPort, Bool.and_eq_true, decide_eq_true_eq] at hdes hdes'
  simp only [config, hdes.1, hdes'.1] at hbridge
  simp only [config, hdes.2, hdes'.2] at hport
  exact ⟨N.bridgeId_injective hbridge, portId_injective hport⟩

end Quiescent

/-! ## The tree -/

open Classical in
/-- The bridge of the designated port of a LAN. -/
noncomputable def designatedBridge (N : StpNetwork B L) (l : L) : Option B :=
  if h : ∃ b i, N.DesignatedFor b i l then some h.choose else none

/-- The way to the root: from a bridge through its root port, from a LAN to its designated
bridge. -/
noncomputable def parent (N : StpNetwork B L) : B ⊕ L → Option (B ⊕ L)
  | .inl b => (N.stp b).rootPort.map fun i => .inr (N.lan b i)
  | .inr l => (N.designatedBridge l).map .inl

/-- What decreases on the way to the root. -/
noncomputable def rank (N : StpNetwork B L) : B ⊕ L → ℕ ×ₗ ℕ ×ₗ ℕ
  | .inl b => toLex ((N.stp b).rootPathCost, toLex ((N.stp b).bridgeId, 0))
  | .inr l =>
    match N.designatedBridge l with
    | none => toLex (0, toLex (0, 0))
    | some d => toLex ((N.stp d).rootPathCost, toLex ((N.stp d).bridgeId, 1))

section

variable (hN : N.Quiescent) {v w : B ⊕ L}
include hN

/-- The designated bridge of a segment is the one with a designated port on it. -/
lemma designatedBridge_eq_some_iff :
    N.designatedBridge l = some d ↔ ∃ j, N.DesignatedFor d j l := by
  unfold designatedBridge
  split
  · next h =>
    obtain ⟨i, hi⟩ := h.choose_spec
    rw [some.injEq]
    constructor
    · rintro rfl
      exact ⟨i, hi⟩
    · rintro ⟨j, hj⟩
      exact (hN.designatedFor_unique hi hj).1
  · next h =>
    refine iff_of_false nofun fun ⟨j, hj⟩ => h ⟨d, j, hj⟩

/-- A root port is on a LAN whose designated bridge is closer to the root, or as close and with a
smaller ID. -/
lemma Quiescent.closer (hothers : N.HearsOthers) (hr : (N.stp b).rootPort = some i) :
    ∃ d, N.designatedBridge (N.lan b i) = some d ∧
      ((N.stp d).rootPathCost < (N.stp b).rootPathCost ∨
        (N.stp d).rootPathCost = (N.stp b).rootPathCost ∧
          (N.stp d).bridgeId < (N.stp b).bridgeId) := by
  cases hN.rootChosen b with
  | root hport _ =>
    rw [hport] at hr
    cases hr
  | port r hport hcand _ hsum =>
    obtain rfl : r = i := some.inj (hport.symm.trans hr)
    have hon : N.On b r (N.lan b r) := ⟨hcand.1, rfl⟩
    obtain ⟨d, j, hj, hconfig⟩ := hN.exists_designated hon
    have hdcost : ((N.stp b).ports r).designatedCost = (N.stp d).rootPathCost :=
      congrArg StpConfig.rootPathCost hconfig
    have hdbridge : ((N.stp b).ports r).designatedBridge = (N.stp d).bridgeId :=
      congrArg StpConfig.bridgeId hconfig
    refine ⟨d, (designatedBridge_eq_some_iff hN).2 ⟨j, hj⟩, ?_⟩
    rcases Nat.eq_zero_or_pos ((N.stp b).ports r).pathCost with hzero | hpos
    · right
      have hle := (hN.designated hon).bridge hcand.2.1 (by omega)
      have hlt := lt_of_le_of_ne hle (hothers hport)
      exact ⟨by omega, hdbridge ▸ hlt⟩
    · omega

/-- A port does not block exactly when it joins a bridge or a segment to its parent. -/
lemma active_adj_iff : (∃ i, N.NonBlocking b i l) ↔
      N.parent (.inl b) = some (.inr l) ∨ N.parent (.inr l) = some (.inl b) := by
  have hlan : N.parent (.inr l) = some (.inl b) ↔ ∃ j, N.DesignatedFor b j l := by
    rw [← designatedBridge_eq_some_iff hN]
    simp [parent]
  have hbridge : N.parent (.inl b) = some (.inr l) ↔
      ∃ i, (N.stp b).rootPort = some i ∧ N.lan b i = l := by
    simp [parent]
  rw [hlan, hbridge]
  constructor
  · rintro ⟨i, hi⟩
    rcases (hN.nonBlocking_iff hi.1).1 hi with hroot | hdes
    · exact .inl ⟨i, hroot, hi.1.2⟩
    · exact .inr ⟨i, hi.1, hdes⟩
  · rintro (⟨i, hroot, hl⟩ | ⟨i, hon, hdes⟩)
    · have henabled : (N.stp b).enabled i = true := by
        cases hN.rootChosen b with
        | root hport _ => simp [hport] at hroot
        | port r hport hcand _ _ =>
          obtain rfl : r = i := some.inj (hport.symm.trans hroot)
          exact hcand.1
      exact ⟨i, (hN.nonBlocking_iff ⟨henabled, hl⟩).2 (.inl hroot)⟩
    · exact ⟨i, (hN.nonBlocking_iff hon).2 (.inr hdes)⟩

/-- **The ports that are not blocked form a forest.** -/
lemma Quiescent.forest (hothers : N.HearsOthers) : Forest N.active N.parent N.rank where
  adj_iff v w := by
    cases v <;> cases w
    case inl.inl b b' => simp [active, bipartite, parent]
    case inl.inr b l => exact active_adj_iff hN
    case inr.inl l b => exact (active_adj_iff hN).trans or_comm
    case inr.inr l l' => simp [active, bipartite, parent]
  rank_lt v w h := by
    cases v with
    | inl b =>
      simp only [parent, map_eq_some_iff] at h
      obtain ⟨i, hr, rfl⟩ := h
      obtain ⟨d, hd, hlt⟩ := hN.closer hothers hr
      simp only [rank, hd, Prod.Lex.toLex_lt_toLex]
      omega
    | inr l =>
      simp only [parent, map_eq_some_iff] at h
      obtain ⟨d, hd, rfl⟩ := h
      simp [rank, hd, Prod.Lex.toLex_lt_toLex]

/-! ## The root -/

/-- What a bridge, or the ports on a LAN, take for the root. -/
def BelievesIn (N : StpNetwork B L) (root : ℕ) : B ⊕ L → Prop
  | .inl b => (N.stp b).designatedRoot = root
  | .inr l => ∀ b i, N.On b i l → ((N.stp b).ports i).designatedRoot = root

/-- Neighbours in the topology believe in the same root. -/
lemma BelievesIn.adj {root : ℕ} (h : N.BelievesIn root v) (hadj : N.topology.Adj v w) :
    N.BelievesIn root w := by
  cases v <;> cases w
  case inl.inl b b' => cases hadj
  case inl.inr b l =>
    obtain ⟨i, hi⟩ := hadj
    intro b' j hj
    calc ((N.stp b').ports j).designatedRoot
      _ = ((N.stp b).ports i).designatedRoot := congrArg StpConfig.rootId (hN.agree hj hi)
      _ = (N.stp b).designatedRoot := (hN.designated hi).root
      _ = root := h
  case inr.inl l b =>
    obtain ⟨i, hi⟩ := hadj
    exact (hN.designated hi).root.symm.trans (h b i hi)
  case inr.inr l l' => cases hadj

/-- So a connected part of the topology agrees on its root. -/
lemma BelievesIn.reachable {root : ℕ} (h : N.BelievesIn root v)
    (hreach : N.topology.Reachable v w) : N.BelievesIn root w := by
  obtain ⟨p⟩ := hreach
  induction p with
  | nil => exact h
  | cons hadj _ ih => exact ih (h.adj hN hadj)

omit hN in
lemma active_le_topology : N.active ≤ N.topology := by
  intro v w hadj
  cases v <;> cases w
  case inl.inl b b' => cases hadj
  case inl.inr b l => exact hadj.imp fun _ hi => hi.1
  case inr.inl l b => exact hadj.imp fun _ hi => hi.1
  case inr.inr l l' => cases hadj

/-- Every bridge is connected to the bridge it takes for the root. -/
lemma Quiescent.exists_root (hothers : N.HearsOthers) (b : B) :
    ∃ r, N.active.Reachable (.inl b) (.inl r) ∧ (N.stp r).bridgeId = (N.stp b).designatedRoot := by
  obtain ⟨v, hv, hreach⟩ := (hN.forest hothers).exists_root (.inl b)
  have hbelief : N.BelievesIn (N.stp b).designatedRoot v :=
    BelievesIn.reachable hN (v := .inl b) rfl (hreach.mono active_le_topology)
  cases v with
  | inl r =>
    refine ⟨r, hreach, ?_⟩
    cases hN.rootChosen r with
    | root _ hroot => exact hroot.symm.trans hbelief
    | port i hport _ _ _ => simp [parent, hport] at hv
  | inr l =>
    -- the LAN has a bridge on it, and so a designated one
    obtain ⟨w, hadj⟩ : ∃ w, N.active.Adj w (.inr l) := by
      obtain ⟨p⟩ := hreach
      exact ⟨_, p.adj_penultimate (SimpleGraph.Walk.not_nil_of_ne (by simp))⟩
    cases w with
    | inl b' =>
      obtain ⟨i, hi⟩ := hadj
      obtain ⟨d, j, hj, -⟩ := hN.exists_designated hi.1
      have hd := (designatedBridge_eq_some_iff hN).2 ⟨j, hj⟩
      simp [parent, hd] at hv
    | inr l' => cases hadj

/-- Ports that are not blocked connect what enabled ports connect. -/
lemma Quiescent.reachable (hothers : N.HearsOthers) (h : N.topology.Reachable v w) :
    N.active.Reachable v w := by
  -- it is enough to connect a bridge to a LAN it is on: both lead to the one root
  have key : ∀ b l, (∃ i, N.On b i l) → N.active.Reachable (.inl b) (.inr l) := by
    rintro b l ⟨i, hi⟩
    -- a LAN is connected to its designated bridge
    obtain ⟨d, j, hj, -⟩ := hN.exists_designated hi
    have hd : N.active.Adj (.inr l) (.inl d) := ⟨j, (hN.nonBlocking_iff hj.1).2 (.inr hj.2)⟩
    obtain ⟨r, hr, hrid⟩ := hN.exists_root hothers b
    obtain ⟨r', hr', hrid'⟩ := hN.exists_root hothers d
    have hbd : N.BelievesIn (N.stp b).designatedRoot (.inl d) :=
      BelievesIn.adj hN (BelievesIn.adj hN (v := .inl b) (w := .inr l) rfl ⟨i, hi⟩)
        (active_le_topology hd)
    obtain rfl : r = r' := N.bridgeId_injective (by simp only [hrid, hrid']; exact hbd.symm)
    exact hr.trans (hr'.symm.trans hd.reachable.symm)
  have hstep : ∀ v w, N.topology.Adj v w → N.active.Reachable v w := by
    intro v w hadj
    cases v <;> cases w
    case inl.inl b b' => cases hadj
    case inl.inr b l => exact key b l hadj
    case inr.inl l b => exact (key b l hadj).symm
    case inr.inr l l' => cases hadj
  obtain ⟨p⟩ := h
  induction p with
  | nil => exact .refl _
  | cons hadj _ ih => exact (hstep _ _ hadj).trans ih

/-- No port leads where another port of the bridge already leads. -/
lemma Quiescent.nonBlocking_unique (hothers : N.HearsOthers) (hi : N.NonBlocking b i l)
    (hj : N.NonBlocking b j l) : i = j := by
  have hroot : ∀ {r j}, (N.stp b).rootPort = some r → N.On b r l → N.DesignatedFor b j l →
      False := by
    rintro r j hr ⟨-, rfl⟩ hj
    obtain ⟨d, hd, hlt⟩ := hN.closer hothers hr
    obtain ⟨j', hj'⟩ := (designatedBridge_eq_some_iff hN).1 hd
    obtain ⟨rfl, -⟩ := hN.designatedFor_unique hj hj'
    omega
  rcases (hN.nonBlocking_iff hi.1).1 hi with hi' | hi' <;>
    rcases (hN.nonBlocking_iff hj.1).1 hj with hj' | hj'
  · exact some.inj (hi'.symm.trans hj')
  · exact (hroot hi' hi.1 ⟨hj.1, hj'⟩).elim
  · exact (hroot hj' hj.1 ⟨hi.1, hi'⟩).elim
  · exact (hN.designatedFor_unique ⟨hi.1, hi'⟩ ⟨hj.1, hj'⟩).2

end

/-- All bridges of a component take the bridge with the least ID for the root, the ports that are
not blocked connect what the enabled ports connect, and there is no cycle: neither through several
LANs, nor through two ports of a bridge on one. -/
structure SpanningTree (N : StpNetwork B L) : Prop where
  root : ∀ b, ∃ r, N.topology.Reachable (.inl b) (.inl r) ∧
    ∀ b', N.topology.Reachable (.inl b) (.inl b') →
      (N.stp b').designatedRoot = (N.stp r).bridgeId ∧ (N.stp r).bridgeId ≤ (N.stp b').bridgeId
  connected : ∀ v w, N.topology.Reachable v w → N.active.Reachable v w
  acyclic : N.active.IsAcyclic
  simple : ∀ b i j l, N.NonBlocking b i l → N.NonBlocking b j l → i = j

/-- A bridge that hears itself on its root port has two ports on that LAN that are not blocked. -/
lemma SpanningTree.hearsOthers (h : N.SpanningTree) (hN : N.Quiescent) : N.HearsOthers := by
  intro b i hr heq
  cases hN.rootChosen b with
  | root hport _ => simp [hport] at hr
  | port r hport hcand _ _ =>
    obtain rfl : r = i := some.inj (hport.symm.trans hr)
    have hon : N.On b r (N.lan b r) := ⟨hcand.1, rfl⟩
    obtain ⟨d, j, hj, hconfig⟩ := hN.exists_designated hon
    have hbridge : ((N.stp b).ports r).designatedBridge = (N.stp d).bridgeId :=
      congrArg StpConfig.bridgeId hconfig
    obtain rfl : d = b := N.bridgeId_injective (hbridge.symm.trans heq)
    have hsame := h.simple d r j _ ((hN.nonBlocking_iff hon).2 (.inl hport))
      ((hN.nonBlocking_iff hj.1).2 (.inr hj.2))
    subst hsame
    exact absurd hj.2 (by simp [hcand.2.1])

/-- **A quiescent network is a spanning tree** if and only if no bridge hears itself on its root
port. -/
theorem quiescent_spanningTree_iff (hN : N.Quiescent) : N.SpanningTree ↔ N.HearsOthers := by
  refine ⟨fun h => h.hearsOthers hN, fun hothers => ⟨fun b => ?_, fun v w => hN.reachable hothers,
    (hN.forest hothers).isAcyclic, fun b i j l => hN.nonBlocking_unique hothers⟩⟩
  obtain ⟨r, hreach, hid⟩ := hN.exists_root hothers b
  refine ⟨r, hreach.mono active_le_topology, fun b' hb' => ?_⟩
  have hroot : (N.stp b').designatedRoot = (N.stp r).bridgeId := by
    have hbelief := BelievesIn.reachable hN (v := .inl b) rfl hb'
    exact hbelief.trans hid.symm
  refine ⟨hroot, ?_⟩
  rw [← hroot]
  cases hN.rootChosen b' with
  | root _ heq => exact heq.le
  | port i _ hcand heq _ => exact heq.trans_le hcand.2.2.le

/-! ## A port that hears its own bridge

Three bridges in a row, with the root at one end.  The bridge at the other end, whose ID is smaller
than that of the one in the middle, has two more ports that are connected with each other. -/

/-- A port with the given information. -/
def heardPort (state : StpState) (pathCost : ℕ) (c : StpConfig) : StpPort where
  priority := 0x80
  state := state
  pathCost := pathCost
  designatedRoot := c.rootId
  designatedCost := c.rootPathCost
  designatedBridge := c.bridgeId
  designatedPort := c.portId
  topologyChangeAck := false
  configPending := false
  changeDetectionEnabled := true
  messageAgeTimer := ⟨false, 0⟩
  forwardDelayTimer := ⟨false, 0⟩
  stateChanged := false

/-- A bridge that takes bridge 1 for the root and whose remaining ports are disabled. -/
def bridgeBelow (bridgeId cost : ℕ) (rootPort : Option StpPortNo) (ports : List StpPort) : Stp where
  bridgeId := bridgeId
  designatedRoot := 1
  rootPathCost := cost
  rootPort := rootPort
  topologyChangeDetected := false
  topologyChange := false
  tcnTimer := ⟨false, 0⟩
  topologyChangeTimer := ⟨false, 0⟩
  ports := fun i => ports.getD i (heardPort .disabled 19 ⟨bridgeId, 0, bridgeId, 0⟩)
  fdbNeedsFlush := false
  firstChangedPort := 255

/-- What is heard on the three LANs. -/
def loopConfig : Fin 3 → StpConfig
  | 0 => ⟨1, 0, 1, 0x8001⟩
  | 1 => ⟨1, 19, 3, 0x8002⟩
  | 2 => ⟨1, 38, 2, 0x8002⟩

/-- The last bridge: its port on the way to the root, and the two ports that are connected.  If the
way through them is free, the second of them is the root port. -/
def loopBridge (free : Bool) : Stp :=
  if free then
    bridgeBelow 2 38 (some 2) [heardPort .blocking 19 (loopConfig 1),
      heardPort .forwarding 19 (loopConfig 2), heardPort .forwarding 0 (loopConfig 2)]
  else
    bridgeBelow 2 38 (some 0) [heardPort .forwarding 19 (loopConfig 1),
      heardPort .forwarding 19 (loopConfig 2), heardPort .blocking 19 (loopConfig 2)]

/-- The bridges of the row. -/
def loopStp (free : Bool) : Fin 3 → Stp
  | 0 => bridgeBelow 1 0 none [heardPort .forwarding 19 (loopConfig 0)]
  | 1 => bridgeBelow 3 19 (some 0) [heardPort .forwarding 19 (loopConfig 0),
      heardPort .forwarding 19 (loopConfig 1)]
  | 2 => loopBridge free

/-- The LANs of the row. -/
def loopLan : Fin 3 → StpPortNo → Fin 3
  | 0, _ => 0
  | 1, i => if i = 0 then 0 else 1
  | 2, i => if i = 0 then 1 else 2

/-- The three bridges and their LANs. -/
def loopNetwork (free : Bool) : StpNetwork (Fin 3) (Fin 3) where
  stp := loopStp free
  lan := loopLan
  bridgeId_injective := by
    cases free <;> decide

lemma loopStp_rootSelection (free : Bool) (b : Fin 3) :
    (loopStp free b).rootSelection = loopStp free b := by
  have hfold : ∀ free b, (finRange 255).foldl (loopStp free b).considerRoot none =
      (loopStp free b).rootPort := by
    decide +kernel
  rw [rootSelection, hfold]
  fin_cases b <;> cases free <;> rfl

lemma loopNetwork_quiescent (free : Bool) : (loopNetwork free).Quiescent := by
  have hconfig : ∀ free b i, (loopStp free b).enabled i = true →
      ((loopStp free b).ports i).config = loopConfig (loopLan b i) := by
    decide +kernel
  have hsent : ∀ free l, ∃ j ∈ [0, 1], ((loopStp free l).enabled j = true ∧ loopLan l j = l) ∧
      (loopStp free l).transmitConfig j = some (loopConfig l) := by
    decide +kernel
  have hdesignated : ∀ free b i, (loopStp free b).enabled i = true →
      (loopStp free b).shouldBeDesignated i = true →
      (loopStp free b).becomeDesignatedPort i = (loopStp free b).ports i := by
    decide +kernel
  have hsettled : ∀ free b i, (loopStp free b).enabled i = true →
      (loopStp free b).StateSettled i := by
    decide +kernel
  constructor
  · rintro b i b' j l ⟨hi, hl⟩ ⟨hj, hl'⟩
    calc ((loopStp free b).ports i).config
      _ = loopConfig (loopLan b i) := hconfig free b i hi
      _ = loopConfig (loopLan b' j) := congrArg loopConfig (hl.trans hl'.symm)
      _ = ((loopStp free b').ports j).config := (hconfig free b' j hj).symm
  · rintro b i l ⟨hi, hl⟩
    obtain ⟨j, -, hon, hconf⟩ := hsent free l
    refine ⟨l, j, hon, hconf.trans (congrArg some ?_)⟩
    exact (congrArg loopConfig hl).symm.trans (hconfig free b i hi).symm
  · intro b
    show (loopStp free b).configurationUpdate = loopStp free b
    rw [configurationUpdate, loopStp_rootSelection, designatedPortSelection]
    refine congrArg (fun ports => { loopStp free b with ports := ports }) (funext fun i => ?_)
    split
    · next hi =>
      rw [Bool.and_eq_true] at hi
      exact hdesignated free b i hi.1 hi.2
    · rfl
  · intro b
    exact foldl_fixed' (fun i => selectPortState_eq_self (hsettled free b i)) _

/-- With path cost 19 for all ports, the network with the loop is a spanning tree. -/
theorem quiescent_spanningTree_iff_loopNetwork :
    (loopNetwork false).Quiescent ∧ (loopNetwork false).SpanningTree := by
  have hothers : ∀ b i, (loopStp false b).rootPort = some i →
      ((loopStp false b).ports i).designatedBridge ≠ (loopStp false b).bridgeId := by
    decide +kernel
  exact ⟨loopNetwork_quiescent false,
    (quiescent_spanningTree_iff (loopNetwork_quiescent false)).2 (hothers _ _)⟩

/-- **A bridge can cut itself off.**  If the second of the connected ports has path cost 0, the
message of the first one offers a way to the root that is as short as the real one and comes from a
smaller bridge ID.  The bridge takes it, and blocks the port that leads to the root. -/
theorem quiescent_cutOff :
    (loopNetwork true).Quiescent ∧
      (loopNetwork true).topology.Reachable (.inl 0) (.inl 2) ∧
      ¬ (loopNetwork true).active.Reachable (.inl 0) (.inl 2) := by
  refine ⟨loopNetwork_quiescent true, ?_, ?_⟩
  · have hadj : ∀ b i l, (loopStp true b).enabled i = true ∧ loopLan b i = l →
        (loopNetwork true).topology.Adj (.inl b) (.inr l) := fun b i l h => ⟨i, h⟩
    have h0 := hadj 0 0 0 (by decide)
    have h1 := hadj 1 0 0 (by decide)
    have h2 := hadj 1 1 1 (by decide)
    have h3 := hadj 2 0 1 (by decide)
    exact h0.reachable.trans (h1.symm.reachable.trans (h2.reachable.trans h3.symm.reachable))
  · -- no port that is not blocked leads from the last bridge to another LAN
    have hcut : ∀ b i, (loopStp true b).enabled i = true →
        ((loopStp true b).ports i).state ≠ .blocking → (b = 2 ↔ loopLan b i = 2) := by
      decide +kernel
    have hside : ∀ b l, (∃ i, (loopNetwork true).NonBlocking b i l) → (b = 2 ↔ l = 2) := by
      rintro b l ⟨i, ⟨hi, rfl⟩, hstate⟩
      exact hcut b i hi hstate
    have hwalk : ∀ v w, (loopNetwork true).active.Walk v w →
        (v.elim (· = 2) (· = 2) ↔ w.elim (· = 2) (· = 2)) := by
      intro v w p
      induction p with
      | nil => rfl
      | @cons v w _ hadj _ ih =>
        refine Iff.trans ?_ ih
        rcases v with b | l <;> rcases w with b' | l'
        · cases hadj
        · exact hside b l' hadj
        · exact (hside b' l hadj).symm
        · cases hadj
    rintro ⟨p⟩
    exact absurd ((hwalk _ _ p).2 rfl) (by simp)

end StpNetwork

end OVS
