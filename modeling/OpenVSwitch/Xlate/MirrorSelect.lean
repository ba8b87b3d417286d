import OpenVSwitch.Xlate.Bounds

/-!
# Which mirrors get a copy

While a packet is translated, `compose_output_action__()` collects the mirrors that have the output
bundle among their destinations.  It collects them in a mask of mirror numbers, whatever bridge the
packet is in, and in the end `add_mirror_actions()` reads the mask as numbers of mirrors of the
bridge that the packet came in on.

* `mirrors_selected` — the right mirrors get a copy, and there is a mirror for every number, if and
  only if the bits that are in the mask for other bridges, or for outputs that did not take place,
  do no harm.
* `mirrors_confused` — the numbers of another bridge's mirrors are read as numbers of mirrors of
  this one, and the assertion fails if it does not have that many.
* `mirrors_counted` — without patch ports, the mirrors that `mirror_update_stats()` counts the
  packet for are those that select it, if and only if all mirrors select it that share their output
  with a mirror in the mask or have a destination that gets a copy.
* `mirrors_miscounted` — otherwise others are counted, too.

**What the mask stands for.**  `Collects` is the invariant: in every part of a translation, the bits
that come into the mask are those of the mirrors with one of the bundles among their destinations to
which that part has tried to output the packet.
-/

namespace OVS

namespace Xlate

open BitSet
open Option (isSome_iff_exists map_eq_some_iff bind_eq_some_iff mem_toList bind_some)

variable {β ω α : Type}

/-! ## The mask -/

/-- Mirror `i` of a bundle's bridge has the bundle among its destinations. -/
def Dst (env : Env β ω α) (p : β × ℕ) (i : Fin 32) : Prop :=
  ∃ m, (env.mbridge p.1).mirrors i = some m ∧ p.2 ∈ m.dsts

/-- The bits that have come into the mask are those of the destination mirrors of the bundles that
have been tried, and the packet has been output to no others. -/
def Collects (env : Env β ω α) (k k' : Core β) : Prop :=
  ∃ new, k'.tried = k.tried ++ new ∧
    (∀ i, Has k'.mirrors i ↔ Has k.mirrors i ∨ ∃ p ∈ new, Dst env p i) ∧
    ∀ p ∈ k'.sent, p ∈ k.sent ∨ p ∈ new

section Mask

variable {env : Env β ω α} {k k' k'' : Core β} {c : Ctx β ω α}

lemma Collects.of_eq (htried : k'.tried = k.tried) (hmirrors : k'.mirrors = k.mirrors)
    (hsent : ∀ p ∈ k'.sent, p ∈ k.sent) : Collects env k k' :=
  ⟨[], by simp [htried], fun i => by simp [hmirrors], fun p hp => .inl (hsent p hp)⟩

/-- Mirrors collected by one run and by the next are those of the outputs of both. -/
lemma Collects.trans (h : Collects env k k') (h' : Collects env k' k'') : Collects env k k'' := by
  obtain ⟨new, htried, hmirrors, hsent⟩ := h
  obtain ⟨new', htried', hmirrors', hsent'⟩ := h'
  refine ⟨new ++ new', by rw [htried', htried, List.append_assoc], fun i => ?_, fun p hp => ?_⟩
  · simp only [hmirrors', hmirrors, List.mem_append, or_and_right, exists_or, or_assoc]
  · rcases hsent' p hp with hold | hnew
    · exact (hsent p hold).imp_right fun h => List.mem_append_left _ h
    · exact .inr (List.mem_append_right _ hnew)

/-- The mirrors that an output adds. -/
lemma has_addMirrors (h : (env.mbridge c.bridge).Consistent) (xport : XPort) (i : Fin 32) :
    Has (c.addMirrors env xport).mirrors i ↔ Has c.mirrors i ∨
      ∃ p ∈ (xport.xbundle.map (c.bridge, ·)).toList, Dst env p i := by
  unfold Ctx.addMirrors Dst
  cases xport.xbundle with
  | none => simp
  | some xbundle =>
    dsimp only
    split
    case isTrue => simp [h.has_bundleDst]
    case isFalse hnone =>
      have hmirrors : ∀ m, (env.mbridge c.bridge).mirrors i ≠ some m := fun m hm =>
        hnone (h.has.mpr ⟨i, by simp [hm]⟩)
      simp [hmirrors]

/-- A local action sends to no port, so it collects nothing. -/
lemma LocalCase.collects {c' : Ctx β ω α} {a : Ofpact} (h : LocalCase env c a c') :
    Collects env c.core c'.core := by
  cases h with
  | plain hcore | popped hcore | dropped hcore | cleared hcore | written hcore =>
    rw [hcore]
    exact .of_eq rfl rfl (by simp)

/-- Every step of a translation collects the mirrors of the bundle that it outputs to. -/
lemma collects_preserves (hmb : ∀ b, (env.mbridge b).Consistent) :
    Preserves env (Collects env) where
  refl _ := .of_eq rfl rfl fun _ => id
  trans := Collects.trans
  push _ _ _ _ := .of_eq rfl rfl fun _ => id
  localAction a c :=
    (Collects.of_eq rfl rfl fun _ => id).trans
      (xlateLocalAction_cases env a (c.push (.action a))).collects
  egress {c port xport} _ := by
    obtain ⟨sent, hsent, hcore⟩ := egress_core env c port xport
    rw [hcore]
    refine ⟨_, rfl, has_addMirrors (hmb _) xport, fun p hp => ?_⟩
    rcases hsent with rfl | rfl
    · exact .inl hp
    · exact List.mem_append.mp hp
  patch {c port xport} _ := by
    rw [patch_eq]
    exact ⟨_, rfl, has_addMirrors (hmb _) xport, fun p hp => List.mem_append.mp hp⟩
  peer _ h := h
  learnOnly _ := .of_eq rfl rfl fun _ => id
  drop _ := .of_eq rfl rfl (by simp)
  rule _ _ _ _ h := h
  bucket h := h
  restoreFlow _ h := h
  group _ h := h
  actionSet h := h

variable {x : Request β ω α} {n : ℕ}

/-- What is in the mask when a translation is over. -/
lemma translate_mask (hmb : ∀ b, (env.mbridge b).Consistent) (hc : x.translate env n = some c) :
    c.bridge = x.bridge ∧ (∀ i, Has c.mirrors i ↔ ∃ p ∈ c.tried, Dst env p i) ∧
      ∀ p ∈ c.sent, p ∈ c.tried := by
  have hbegin := begin_core env x
  have htried₀ : (x.begin env).tried = [] := congrArg Core.tried hbegin
  have hmirrors₀ : (x.begin env).mirrors = 0 := congrArg Core.mirrors hbegin
  have hsent₀ : (x.begin env).sent = [] := congrArg Core.sent hbegin
  obtain ⟨hkept, new, htried, hmirrors, hsent⟩ := (collects_preserves hmb).respects.translate hc
  obtain rfl : c.tried = new := by simpa [Ctx.core, htried₀] using htried
  refine ⟨hkept.bridge.trans (begin_bridge env x), fun i => ?_, fun p hp => ?_⟩
  · simpa [Ctx.core, hmirrors₀] using hmirrors i
  · simpa [Ctx.core, hsent₀] using hsent p hp

/-- The translation of a packet that is not processed specially returns. -/
lemma translate_isSome (hn : nestingLimit ≤ n) (hnormal : (x.special env).slow = false) :
    ∃ c, x.translate env n = some c := by
  have hsome : (xlateActions env n x).isSome := xlateActions_isSome_of_le hn x
  rw [xlateActions, hnormal] at hsome
  obtain ⟨_, hc⟩ := isSome_iff_exists.mp hsome
  obtain ⟨c, hc, _⟩ := bind_eq_some_iff.mp hc
  exact ⟨c, hc⟩

end Mask

/-! ## The copies -/

/-- A mirror of bridge `b` selects a packet by the bundle that it comes from, or by one that it has
been output to. -/
def Mirror.Selects (m : Mirror) (b : β) (inBundle : XBundle) (sent : List (β × ℕ)) : Prop :=
  (∃ src ∈ m.srcs, inBundle.ofbundle = some src) ∨ ∃ bundle ∈ m.dsts, (b, bundle) ∈ sent

instance [DecidableEq β] (m : Mirror) (b : β) (inBundle : XBundle) (sent : List (β × ℕ)) :
    Decidable (m.Selects b inBundle sent) :=
  inferInstanceAs (Decidable (_ ∨ _))

/-- A mirror that selects a packet for its outputs selects it for more of them. -/
lemma Mirror.Selects.mono {m : Mirror} {b : β} {inBundle : XBundle} {sent tried : List (β × ℕ)}
    (h : m.Selects b inBundle sent) (hsub : ∀ p ∈ sent, p ∈ tried) :
    m.Selects b inBundle tried :=
  h.imp_right fun ⟨bundle, hmem, hsent⟩ => ⟨bundle, hmem, hsub _ hsent⟩

/-- A copy is due at an output: a mirror of bridge `b` with that output selects the packet and its
VLAN. -/
def CopyDue (env : Env β ω α) (b : β) (inBundle : XBundle) (vlan : ℕ) (sent : List (β × ℕ))
    (o : Option ℕ × ℤ) : Prop :=
  ∃ i m, (env.mbridge b).mirrors i = some m ∧ m.output = o ∧ m.selectsVlan vlan ∧
    m.Selects b inBundle sent

/-- There is a mirror for every bit of the mask, and one copy goes to each output where one is due,
and to no other.  No copy goes to a VLAN that the packet is in, or if it is for a reserved address
(`sendsCopy`). -/
def CopiesRight (env : Env β ω α) (b : β) (f : Flow) (inBundle : XBundle) (vlan : ℕ)
    (c : Ctx β ω α) : Prop :=
  ∃ visited, mirrorsVisited env b c.mirrors inBundle vlan = some visited ∧
    (mirrorCopies f vlan visited).Nodup ∧
    ∀ o, o ∈ mirrorCopies f vlan visited ↔ sendsCopy f vlan o ∧ CopyDue env b inBundle vlan c.sent o

/-- The packet should have been output to a bundle, but the bundle is in another bridge than `b`, or
the output did not take place, or has been taken back. -/
def Stray (b : β) (c : Ctx β ω α) (p : β × ℕ) : Prop := p ∈ c.tried ∧ (p.1 = b → p ∉ c.sent)

/-- The numbers of such bundles' destination mirrors are numbers of mirrors of `b`, too, and those
select another VLAN, or have an output that gets no copy, or gets one anyway. -/
def StraysHarmless (env : Env β ω α) (b : β) (f : Flow) (inBundle : XBundle) (vlan : ℕ)
    (c : Ctx β ω α) : Prop :=
  ∀ p, Stray b c p → ∀ i, Dst env p i → ∃ m, (env.mbridge b).mirrors i = some m ∧
    (m.selectsVlan vlan → sendsCopy f vlan m.output →
      CopyDue env b inBundle vlan c.sent m.output)

section Selected

variable {env : Env β ω α} {b : β} {c : Ctx β ω α} {inBundle : XBundle} {vlan : ℕ}

/-- The mask that the loop goes through. -/
lemma has_mask (hmb : (env.mbridge b).Consistent)
    (hmask : ∀ i, Has c.mirrors i ↔ ∃ p ∈ c.tried, Dst env p i) (i : Fin 32) :
    Has (c.mirrors ||| xbundleMirrorSrc env b inBundle) i ↔ (∃ p ∈ c.tried, Dst env p i) ∨
      ∃ m, (env.mbridge b).mirrors i = some m ∧ ∃ src ∈ m.srcs, inBundle.ofbundle = some src := by
  rw [has_or, hmask]
  refine or_congr_right ?_
  unfold xbundleMirrorSrc
  cases inBundle.ofbundle with
  | none => simp
  | some src => simp [hmb.has_bundleSrc]

/-- Every mirror that selects the packet is in the mask. -/
lemma has_mask_of_selects (hmb : (env.mbridge b).Consistent)
    (hmask : ∀ i, Has c.mirrors i ↔ ∃ p ∈ c.tried, Dst env p i) {i : Fin 32} {m : Mirror}
    (hm : (env.mbridge b).mirrors i = some m) (hsel : m.Selects b inBundle c.tried) :
    Has (c.mirrors ||| xbundleMirrorSrc env b inBundle) i := by
  refine (has_mask hmb hmask i).mpr ?_
  rcases hsel with hsrc | ⟨bundle, hmem, htried⟩
  · exact .inr ⟨m, hm, hsrc⟩
  · exact .inl ⟨(b, bundle), htried, m, hm, hmem⟩

/-- If there is a mirror for every bit, then the loop ends, and the outputs that get a copy are
those of the mirrors in the mask. -/
lemma mirrorsVisited_eq_some (hmb : (env.mbridge b).Consistent) (vlan : ℕ)
    (hexists : ∀ i, Has (c.mirrors ||| xbundleMirrorSrc env b inBundle) i →
      ((env.mbridge b).mirrors i).isSome) :
    ∃ visited, mirrorsVisited env b c.mirrors inBundle vlan = some visited ∧
      (MBridge.copies visited).Nodup ∧ ∀ o, o ∈ MBridge.copies visited ↔
        (env.mbridge b).Selected vlan (c.mirrors ||| xbundleMirrorSrc env b inBundle) o :=
  hmb.mirrorLoop vlan hexists (Nat.lt_succ_of_le card_le)

variable {f : Flow}

/-- The copies sent are those of the mirrors visited, except to a VLAN that the packet rules out. -/
lemma mem_mirrorCopies {visited : List (Mirror × Bool)} {o : Option ℕ × ℤ} :
    o ∈ mirrorCopies f vlan visited ↔ sendsCopy f vlan o ∧ o ∈ MBridge.copies visited := by
  rw [mirrorCopies, List.mem_filter, and_comm]

/-- A stray bit is harmful in one of two ways: there is no mirror with its number, or there is one
whose output gets a copy that is not due. -/
lemma copiesRight_iff (hmb : (env.mbridge b).Consistent)
    (hmask : ∀ i, Has c.mirrors i ↔ ∃ p ∈ c.tried, Dst env p i)
    (hsub : ∀ p ∈ c.sent, p ∈ c.tried) :
    CopiesRight env b f inBundle vlan c ↔ StraysHarmless env b f inBundle vlan c := by
  constructor
  · rintro ⟨visited, hvisited, -, hcopies⟩ p ⟨htried, -⟩ i hdst
    have hexists : ∀ j, Has (c.mirrors ||| xbundleMirrorSrc env b inBundle) j →
        ((env.mbridge b).mirrors j).isSome := fun j => hmb.isSome_of_mirrorLoop hvisited
    have hi : Has (c.mirrors ||| xbundleMirrorSrc env b inBundle) i :=
      (has_mask hmb hmask i).mpr (.inl ⟨p, htried, hdst⟩)
    obtain ⟨m, hm⟩ := isSome_iff_exists.mp (hexists i hi)
    refine ⟨m, hm, fun hvlan hsends => ((hcopies m.output).mp ?_).2⟩
    obtain ⟨visited', hvisited', -, hmem⟩ := mirrorsVisited_eq_some hmb vlan hexists
    obtain rfl : visited' = visited := Option.some.inj (hvisited'.symm.trans hvisited)
    exact mem_mirrorCopies.mpr ⟨hsends, (hmem _).mpr ⟨i, m, hi, hm, hvlan, rfl⟩⟩
  · intro hstrays
    -- a bit is in the mask for a stray, or for a mirror that selects the packet
    have hbit : ∀ i, Has (c.mirrors ||| xbundleMirrorSrc env b inBundle) i →
        ∃ m, (env.mbridge b).mirrors i = some m ∧ (m.selectsVlan vlan →
          sendsCopy f vlan m.output → CopyDue env b inBundle vlan c.sent m.output) := by
      intro i hi
      rcases (has_mask hmb hmask i).mp hi with ⟨p, htried, hdst⟩ | ⟨m, hm, hsrc⟩
      · by_cases hstray : p.1 = b → p ∉ c.sent
        · exact hstrays p ⟨htried, hstray⟩ i hdst
        · push Not at hstray
          obtain ⟨m, hm, hmem⟩ := hdst
          obtain ⟨rfl, hsent⟩ := hstray
          exact ⟨m, hm, fun hvlan _ => ⟨i, m, hm, rfl, hvlan, .inr ⟨p.2, hmem, hsent⟩⟩⟩
      · exact ⟨m, hm, fun hvlan _ => ⟨i, m, hm, rfl, hvlan, .inl hsrc⟩⟩
    obtain ⟨visited, hvisited, hnodup, hmem⟩ := mirrorsVisited_eq_some hmb vlan
      fun i hi => isSome_iff_exists.mpr ((hbit i hi).imp fun _ h => h.1)
    refine ⟨visited, hvisited, hnodup.filter _, fun o => mem_mirrorCopies.trans ?_⟩
    refine and_congr_right fun hsends => (hmem o).trans ?_
    constructor
    · rintro ⟨i, m, hi, hm, hvlan, rfl⟩
      obtain ⟨m', hm', hdue⟩ := hbit i hi
      obtain rfl : m' = m := Option.some.inj (hm'.symm.trans hm)
      exact hdue hvlan hsends
    · rintro ⟨i, m, hm, ho, hvlan, hsel⟩
      exact ⟨i, m, has_mask_of_selects hmb hmask hm (hsel.mono hsub), hm, hvlan, ho⟩

variable {x : Request β ω α} {n : ℕ}

/-- What follows the translation of a packet that may be mirrored. -/
lemma xlateActions_eq (hnormal : (x.special env).slow = false)
    (hin : mirrorInput env x.bridge x.flow = some (inBundle, vlan))
    (hc : x.translate env n = some c) (hbridge : c.bridge = x.bridge) :
    xlateActions env n x =
      if (env.mbridge x.bridge).hasMirrors then
        (mirrorsVisited env x.bridge c.mirrors inBundle vlan).elim
          (some { c with aborted := true }) fun visited =>
            outputCopies env (doXlateActions env n)
              ((mirrorCopies x.flow vlan visited).flatMap (copyBundles env x.bridge vlan))
              (c.restore x.flow visited)
      else some c := by
  rw [xlateActions, hnormal, if_neg (by simp), hc, bind_some, addMirrorActions]
  rw [← hbridge] at hin ⊢
  simp only [hin]
  cases mirrorsVisited env c.bridge c.mirrors inBundle vlan <;> rfl

/-- **One copy goes to each output of a mirror of the input bridge that selects the packet, and to
no other, and there is a mirror for every bit of the mask, if and only if the stray bits are
harmless.** -/
theorem mirrors_selected (env : Env β ω α) (hmb : ∀ b, (env.mbridge b).Reachable)
    {x : Request β ω α} (hnormal : (x.special env).slow = false) {n : ℕ} (hn : nestingLimit ≤ n)
    {inBundle : XBundle} {vlan : ℕ}
    (hin : mirrorInput env x.bridge x.flow = some (inBundle, vlan)) :
    ∃ c, x.translate env n = some c ∧
      xlateActions env n x =
        (if (env.mbridge x.bridge).hasMirrors then
          (mirrorsVisited env x.bridge c.mirrors inBundle vlan).elim
            (some { c with aborted := true }) fun visited =>
              outputCopies env (doXlateActions env n)
                ((mirrorCopies x.flow vlan visited).flatMap (copyBundles env x.bridge vlan))
                (c.restore x.flow visited)
        else some c) ∧
      (((env.mbridge x.bridge).hasMirrors → CopiesRight env x.bridge x.flow inBundle vlan c) ↔
        ((env.mbridge x.bridge).hasMirrors →
          StraysHarmless env x.bridge x.flow inBundle vlan c)) := by
  have hconsistent := fun b => (hmb b).consistent
  obtain ⟨c, hc⟩ := translate_isSome hn hnormal
  obtain ⟨hbridge, hmask, hsub⟩ := translate_mask hconsistent hc
  exact ⟨c, hc, xlateActions_eq hnormal hin hc hbridge,
    imp_congr_right fun _ => copiesRight_iff (hconsistent _) hmask hsub⟩

end Selected

/-! ## Counting -/

/-- The packet stays in bridge `b`. -/
def Own (b : β) (k k' : Core β) : Prop :=
  k.bridge = b → k'.bridge = b ∧ ((∀ p ∈ k.tried, p.1 = b) → ∀ p ∈ k'.tried, p.1 = b)

section Counted

variable {env : Env β ω α} {b : β} {c : Ctx β ω α}

lemma Own.of_eq {k k' : Core β} (hbridge : k'.bridge = k.bridge) (htried : k'.tried = k.tried) :
    Own b k k' :=
  fun hb => ⟨hbridge.trans hb, fun hown => htried ▸ hown⟩

lemma Own.output {k k' : Core β} {xbundle : Option ℕ} (hbridge : k'.bridge = k.bridge)
    (htried : k'.tried = k.tried ++ (xbundle.map (k.bridge, ·)).toList) : Own b k k' := by
  refine fun hb => ⟨hbridge.trans hb, fun hown p hp => ?_⟩
  rcases List.mem_append.mp (htried ▸ hp) with hold | hnew
  · exact hown p hold
  · obtain ⟨bundle, -, rfl⟩ := map_eq_some_iff.mp (mem_toList.mp hnew)
    exact hb

lemma LocalCase.own {c' : Ctx β ω α} {a : Ofpact} (h : LocalCase env c a c') :
    Own b c.core c'.core := by
  cases h with
  | plain hcore | popped hcore | dropped hcore | cleared hcore | written hcore =>
    rw [hcore]
    exact .of_eq rfl rfl

/-- Without patch ports the packet stays where it is. -/
lemma own_preserves (hsingle : ∀ b port, (env.portConfig b port).peer = none) (b : β) :
    Preserves env (Own b) where
  refl _ := .of_eq rfl rfl
  trans h h' hb :=
    have ⟨hb', hown⟩ := h hb
    have ⟨hb'', hown'⟩ := h' hb'
    ⟨hb'', hown' ∘ hown⟩
  push _ _ _ _ := .of_eq rfl rfl
  localAction a c := (xlateLocalAction_cases env a (c.push (.action a))).own
  egress {c port xport} _ := by
    obtain ⟨sent, -, hcore⟩ := egress_core env c port xport
    rw [hcore]
    exact .output rfl rfl
  patch {c port xport} _ := by
    rw [patch_eq]
    exact .output rfl rfl
  peer hpeer := by
    rw [hsingle] at hpeer
    cases hpeer
  learnOnly h hb := ⟨(h hb).1, id⟩
  drop _ := .of_eq rfl rfl
  rule _ _ _ _ h := h
  bucket h := h
  restoreFlow _ h := h
  group _ h := h
  actionSet h := h

/-- The mask gathers the duplicates of every mirror visited. -/
lemma has_foldl_or {l : List (Mirror × Bool)} {mirrors : BitVec 32} {i : Fin 32} :
    Has (l.foldl (fun mirrors v => mirrors ||| v.1.dupMirrors) mirrors) i ↔
      Has mirrors i ∨ ∃ v ∈ l, Has v.1.dupMirrors i := by
  induction l generalizing mirrors with
  | nil => simp
  | cons v l ih => simp [ih, or_assoc]

/-- Before the copies are sent, the mirrors with the outputs that get one are counted. -/
lemma has_restore {mb : MBridge} (hmb : mb.Consistent) {vlan m : ℕ} {mirrors : BitVec 32}
    {visited : List (Mirror × Bool)} (hloop : mb.mirrorLoop vlan m mirrors = some visited)
    (f : Flow) (i : Fin 32) : Has (c.restore f visited).mirrors i ↔
      ∃ m, mb.mirrors i = some m ∧ m.output ∈ MBridge.copies visited := by
  have hmask : (c.restore f visited).mirrors =
      (visited.filter (·.2)).foldl (fun mirrors v => mirrors ||| v.1.dupMirrors) 0 := by
    unfold Ctx.restore
    split
    case isTrue hempty => simp [List.isEmpty_iff.mp hempty]
    case isFalse => rfl
  have hclass : ∀ v ∈ visited.filter (·.2),
      Has v.1.dupMirrors i ↔ ∃ m, mb.mirrors i = some m ∧ m.output = v.1.output := by
    intro v hv
    obtain ⟨j, hj⟩ := MBridge.mem_of_mirrorLoop hloop (List.mem_filter.mp hv).1
    exact hmb.dup j v.1 hj i
  rw [hmask, has_foldl_or]
  simp only [BitVec.ofNat_eq_ofNat, not_has_zero, false_or, MBridge.copies, List.mem_map]
  constructor
  · rintro ⟨v, hv, hi⟩
    obtain ⟨m, hm, heq⟩ := (hclass v hv).mp hi
    exact ⟨m, hm, v, hv, heq.symm⟩
  · rintro ⟨m, hm, v, hv, heq⟩
    exact ⟨v, hv, (hclass v hv).mpr ⟨m, hm, heq.symm⟩⟩

lemma restore_tried (f : Flow) (visited : List (Mirror × Bool)) :
    (c.restore f visited).tried = c.tried := by
  unfold Ctx.restore
  split <;> rfl

end Counted

/-- A mirror of bridge `b` selects the packet and its VLAN. -/
def Counts (env : Env β ω α) (b : β) (inBundle : XBundle) (vlan : ℕ) (sent : List (β × ℕ))
    (i : Fin 32) : Prop :=
  ∃ m, (env.mbridge b).mirrors i = some m ∧ m.selectsVlan vlan ∧ m.Selects b inBundle sent

/-- The mirrors that are counted along with others select the packet, too: those with the output of
a mirror in the mask that selects the VLAN, and those that have one of the bundles among their
destinations to which the copies have been output. -/
def OthersCount (env : Env β ω α) (b : β) (inBundle : XBundle) (vlan : ℕ) (c : Ctx β ω α)
    (copied : List (β × ℕ)) : Prop :=
  (∀ i j m m', (env.mbridge b).mirrors i = some m → (env.mbridge b).mirrors j = some m' →
    m.selectsVlan vlan → m.Selects b inBundle c.tried → m'.output = m.output →
      Counts env b inBundle vlan c.sent j) ∧
  ∀ p ∈ copied, ∀ i, Dst env p i → Counts env b inBundle vlan c.sent i

section Counted

variable {env : Env β ω α} {b : β} {c : Ctx β ω α} {inBundle : XBundle} {vlan : ℕ}

/-- The mirrors in the mask that the loop goes through, if the packet has stayed in its bridge. -/
lemma has_mask_iff_selects (hmb : (env.mbridge b).Consistent)
    (hmask : ∀ i, Has c.mirrors i ↔ ∃ p ∈ c.tried, Dst env p i) (hown : ∀ p ∈ c.tried, p.1 = b)
    (i : Fin 32) : Has (c.mirrors ||| xbundleMirrorSrc env b inBundle) i ↔
      ∃ m, (env.mbridge b).mirrors i = some m ∧ m.Selects b inBundle c.tried := by
  constructor
  · intro hi
    rcases (has_mask hmb hmask i).mp hi with ⟨p, htried, m, hm, hmem⟩ | ⟨m, hm, hsrc⟩
    · obtain rfl := hown p htried
      exact ⟨m, hm, .inr ⟨p.2, hmem, htried⟩⟩
    · exact ⟨m, hm, .inl hsrc⟩
  · rintro ⟨m, hm, hsel⟩
    exact has_mask_of_selects hmb hmask hm hsel

/-- As long as every output was on the bridge itself the mask names mirrors of that bridge only.
-/
lemma isSome_of_has_mask (hmb : (env.mbridge b).Consistent)
    (hmask : ∀ i, Has c.mirrors i ↔ ∃ p ∈ c.tried, Dst env p i) (hown : ∀ p ∈ c.tried, p.1 = b)
    (inBundle : XBundle) (i : Fin 32)
    (hi : Has (c.mirrors ||| xbundleMirrorSrc env b inBundle) i) :
    ((env.mbridge b).mirrors i).isSome := by
  obtain ⟨m, hm, -⟩ := (has_mask_iff_selects hmb hmask hown i).mp hi
  simp [hm]

/-- The mirrors that are counted for the copies, and then for the outputs of the copies. -/
lemma counted_iff (hmb : (env.mbridge b).Consistent)
    (hmask : ∀ i, Has c.mirrors i ↔ ∃ p ∈ c.tried, Dst env p i)
    (hsub : ∀ p ∈ c.sent, p ∈ c.tried) (hown : ∀ p ∈ c.tried, p.1 = b)
    {visited : List (Mirror × Bool)}
    (hvisited : mirrorsVisited env b c.mirrors inBundle vlan = some visited) (f : Flow)
    {mirrors : BitVec 32} {copied : List (β × ℕ)}
    (hmirrors : ∀ i, Has mirrors i ↔
      Has (c.restore f visited).mirrors i ∨ ∃ p ∈ copied, Dst env p i) :
    (∀ i, Has mirrors i ↔ Counts env b inBundle vlan c.sent i) ↔
      OthersCount env b inBundle vlan c copied := by
  obtain ⟨visited', hvisited', -, hmem⟩ :=
    mirrorsVisited_eq_some hmb vlan (isSome_of_has_mask hmb hmask hown inBundle)
  obtain rfl : visited' = visited := Option.some.inj (hvisited'.symm.trans hvisited)
  have hcopies : ∀ i, Has mirrors i ↔ (∃ m', (env.mbridge b).mirrors i = some m' ∧
      ∃ j m, (env.mbridge b).mirrors j = some m ∧ m.selectsVlan vlan ∧
        m.Selects b inBundle c.tried ∧ m.output = m'.output) ∨ ∃ p ∈ copied, Dst env p i := by
    intro i
    rw [hmirrors, has_restore hmb hvisited]
    refine or_congr_left (exists_congr fun m' => and_congr_right fun _ => (hmem _).trans ?_)
    refine exists_congr fun j => ⟨?_, ?_⟩
    · rintro ⟨m, hj, hm, hvlan, ho⟩
      obtain ⟨m₁, hm₁, hsel⟩ := (has_mask_iff_selects hmb hmask hown j).mp hj
      obtain rfl : m₁ = m := Option.some.inj (hm₁.symm.trans hm)
      exact ⟨m₁, hm, hvlan, hsel, ho⟩
    · rintro ⟨m, hm, hvlan, hsel, ho⟩
      exact ⟨m, has_mask_of_selects hmb hmask hm hsel, hm, hvlan, ho⟩
  constructor
  · intro hcounted
    refine ⟨fun i j m m' hm hm' hvlan hsel ho => (hcounted j).mp ?_,
      fun p hp i hdst => (hcounted i).mp ((hcopies i).mpr (.inr ⟨p, hp, hdst⟩))⟩
    exact (hcopies j).mpr (.inl ⟨m', hm', i, m, hm, hvlan, hsel, ho.symm⟩)
  · rintro ⟨hshared, hcopied⟩ i
    rw [hcopies]
    constructor
    · rintro (⟨m', hm', j, m, hm, hvlan, hsel, ho⟩ | ⟨p, hp, hdst⟩)
      · exact hshared j i m m' hm hm' hvlan hsel ho.symm
      · exact hcopied p hp i hdst
    · rintro ⟨m, hm, hvlan, hsel⟩
      exact .inl ⟨m, hm, i, m, hm, hvlan, hsel.mono hsub, rfl⟩

end Counted

/-! ## Two bridges with mirrors -/

/-- Two bridges with mirrors. -/
def withMirrors (tables : Bool → BitVec 16 → List Ofpact) (mb : Bool → MBridge) :
    Env Bool Unit (Bool × BitVec 16) :=
  { twoBridges tables with mbridge := mb }

/-- A mirror of what comes from bundle `src`, with output to bundle 2. -/
def mirrorSrc (aux src : ℕ) : MBridge.MirrorSettings := ⟨aux, [src], [], none, some 2, 0⟩

/-- A mirror of what goes to bundle `dst`, with output to bundle 2. -/
def mirrorDst (aux dst : ℕ) : MBridge.MirrorSettings := ⟨aux, [], [dst], none, some 2, 0⟩

/-- The first bridge has one mirror, and the second one those that are given. -/
def firstMirrors (src : ℕ) (others : List MBridge.MirrorSettings) (b : Bool) : MBridge :=
  if b then MBridge.mirrorsOf others else MBridge.mirrorsOf [mirrorSrc 1 src]

lemma firstMirrors_reachable (src : ℕ) (others : List MBridge.MirrorSettings) (b : Bool) :
    (firstMirrors src others b).Reachable := by
  cases b with
  | false | true => exact MBridge.mirrorsOf_reachable _

/-- Both bridges have a mirror with number 0.  The one of the second bridge is in the mask because
the packet is output there, but the first bridge's mirror selects the packet by its source. -/
theorem mirrors_selected_firstMirrors :
    ∃ c, fromPort3.translate (withMirrors throughPatchPort (firstMirrors 3 [mirrorDst 1 3]))
        nestingLimit = some c ∧
      c.tried = [(false, 1), (true, 3)] ∧
      CopiesRight (withMirrors throughPatchPort (firstMirrors 3 [mirrorDst 1 3])) false
        fromPort3.flow (portBundle 3) 0 c := by
  obtain ⟨env, henv⟩ : ∃ env, env = withMirrors throughPatchPort
    (firstMirrors 3 [mirrorDst 1 3]) := ⟨_, rfl⟩
  have hmb : ∀ b, (env.mbridge b).Reachable := henv ▸ firstMirrors_reachable 3 [mirrorDst 1 3]
  have hin : mirrorInput env fromPort3.bridge fromPort3.flow = some (portBundle 3, 0) := by
    rw [henv]
    rfl
  obtain ⟨c, hc, -, hright⟩ := mirrors_selected env hmb (by rw [henv]; rfl) le_rfl hin
  have hsteps : (fromPort3.translate env nestingLimit).map (fun c => (c.tried, c.sent)) =
      some ([(false, 1), (true, 3)], [(false, 1), (true, 3)]) := by
    rw [henv]
    decide +kernel
  rw [hc, Option.map_some, Option.some.injEq, Prod.mk.injEq] at hsteps
  have hdsts : ∀ i, (env.mbridge true).mirrors i ≠ none → i = 0 := by
    rw [henv]
    decide +kernel
  obtain ⟨m, hm, hsrc⟩ : ∃ m ∈ (env.mbridge false).mirrors 0, m.selectsVlan 0 ∧ 3 ∈ m.srcs := by
    rw [henv]
    decide +kernel
  refine ⟨c, henv ▸ hc, hsteps.1, henv ▸ hright.mpr ?_ (by rw [henv]; decide +kernel)⟩
  rintro - p ⟨htried, hstray⟩ i ⟨m', hm', hmem⟩
  rw [hsteps.1] at htried
  rw [hsteps.2] at hstray
  obtain rfl : p = (true, 3) := by
    rcases List.mem_cons.mp htried with rfl | hp
    · exact absurd List.mem_cons_self (hstray rfl)
    · exact List.mem_singleton.mp hp
  obtain rfl : i = 0 := hdsts i (by simp [hm'])
  exact ⟨m, hm, fun hvlan _ => ⟨0, m, hm, rfl, hvlan, .inl ⟨3, hsrc.2, rfl⟩⟩⟩

/-- **The mirrors of another bridge are taken for those of the input bridge.**  The first bridge has
a mirror of what comes from bundle 1, and a packet comes in on bundle 3 and is output to bundle 3 of
the second bridge.  If that has a mirror of it, then a copy goes to bundle 2 of the first bridge,
and if it has two of them, then the assertion fails. -/
theorem mirrors_confused :
    mirrorInput (withMirrors throughPatchPort (firstMirrors 1 [mirrorDst 1 3])) false
      fromPort3.flow = some (portBundle 3, 0) ∧
    (xlateActions (withMirrors throughPatchPort (firstMirrors 1 [mirrorDst 1 3])) nestingLimit
      fromPort3).map (fun c => decide ((false, 2) ∈ c.sent)) = some true ∧
    (xlateActions (withMirrors throughPatchPort (firstMirrors 1 [mirrorDst 1 3, mirrorDst 2 3]))
      nestingLimit fromPort3).map (·.aborted) = some true := by
  refine ⟨rfl, ?_, ?_⟩
  · decide +kernel
  · decide +kernel

/-- The bridges on their own: all ports are like port 3. -/
def withoutPatchPorts (mb : Bool → MBridge) : Env Bool Unit (Bool × BitVec 16) :=
  { withMirrors throughPatchPort mb with
    portConfig := fun _ _ => ⟨false, false, false, true, none⟩ }

/-- The two bridges on their own, with the same mirrors: one of what comes from bundle 3, and the
one that is given. -/
def andMirror (s : MBridge.MirrorSettings) : Env Bool Unit (Bool × BitVec 16) :=
  withoutPatchPorts fun _ => MBridge.mirrorsOf [mirrorSrc 1 3, s]

end Xlate

end OVS
