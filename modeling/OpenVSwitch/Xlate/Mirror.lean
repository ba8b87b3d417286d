import OpenVSwitch.Lib.BitSet

/-!
# Port mirrors

A bridge has up to 32 mirrors.  A mirror selects packets by the bundles that they come from, the
bundles that they are sent to and their VLAN, and it has an output: a bundle, or a VLAN.  Everything
that the translation needs to know about mirrors it reads from masks of mirror numbers:

* `srcMirrors` and `dstMirrors` of a bundle say which mirrors have it among their sources and
  destinations, and `mirrorOut` which of them output to it.
* `dupMirrors` of a mirror says which mirrors have the same output.  `mirror_update_dups()` computes
  it with two nested loops over all mirrors.

`Consistent` says that the masks are what they should be, and `Reachable.consistent` that they are
after every sequence of calls that register and unregister bundles, and set and destroy mirrors.

**What is left out.**  `mirror_set()` destroys a mirror whose output is not registered.  If it has
just created the mirror this reads from sets that have not been initialized, so that there is no
result.  `mbridge_unregister_bundle()` takes a bundle from the sources of a mirror or from its
destinations, but not from both, so that a pointer to it can be left behind (`Single`).
-/

namespace OVS

namespace Xlate

open BitSet List Function Option

/-- `struct mirror`.  `srcs`, `dsts` and `out` are bundles of the bridge. -/
structure Mirror where
  aux : ℕ
  srcs : Finset ℕ
  dsts : Finset ℕ
  vlans : Option (Finset ℕ)
  out : Option ℕ
  outVlan : ℤ
  dupMirrors : BitVec 32

structure MBundle where
  ofbundle : ℕ
  srcMirrors : BitVec 32
  dstMirrors : BitVec 32
  mirrorOut : BitVec 32

structure MBridge where
  mirrors : Fin 32 → Option Mirror
  mbundles : List MBundle
  hasMirrors : Bool

/-- Where a mirror outputs to. -/
def Mirror.output (m : Mirror) : Option ℕ × ℤ := (m.out, m.outVlan)

lemma output_dupMirrors (m : Mirror) (d : BitVec 32) :
    ({ m with dupMirrors := d } : Mirror).output = m.output := rfl

/-- The bundles of a mirror. -/
def Mirror.Mentions (m : Mirror) (b : ℕ) : Prop := b ∈ m.srcs ∨ b ∈ m.dsts ∨ m.out = some b

lemma mentions_dupMirrors (m : Mirror) (d : BitVec 32) (b : ℕ) :
    ({ m with dupMirrors := d } : Mirror).Mentions b ↔ m.Mentions b := Iff.rfl

/-- If a mirror selects the packets of a VLAN. -/
def Mirror.selectsVlan (m : Mirror) (vlan : ℕ) : Bool :=
  m.vlans.elim true fun bitmap => vlan ∈ bitmap

/-! ## Mirrors with the same output -/

/-- The test in `mirror_update_dups()`. -/
def sameOutput (mirrors : Fin 32 → Option Mirror) (i j : Fin 32) : Bool :=
  match mirrors i, mirrors j with
  | some m₁, some m₂ => m₁.output = m₂.output
  | _, _ => false

/-- One round of the loops of `mirror_update_dups()`. -/
def dupStep (mirrors : Fin 32 → Option Mirror) (d : Fin 32 → BitVec 32) (p : Fin 32 × Fin 32) :
    Fin 32 → BitVec 32 :=
  if sameOutput mirrors p.1 p.2 then
    let d := update d p.1 (d p.1 ||| bit p.2)
    update d p.2 (d p.2 ||| d p.1)
  else d

/-- The pairs `i < j` in the order of the loops. -/
def mirrorPairs : List (Fin 32 × Fin 32) :=
  (finRange 32).flatMap fun i => ((finRange 32).filter (i < ·)).map (i, ·)

/-- The values of `dup_mirrors` that `mirror_update_dups()` computes. -/
def dups (mirrors : Fin 32 → Option Mirror) : Fin 32 → BitVec 32 :=
  mirrorPairs.foldl (dupStep mirrors) bit

def mirrorUpdateDups (mirrors : Fin 32 → Option Mirror) : Fin 32 → Option Mirror :=
  fun i => (mirrors i).map fun m => { m with dupMirrors := dups mirrors i }

/-- The double loop of `mirror_update_dups` visits each pair of indices once, the smaller one
first. -/
lemma mem_mirrorPairs {i j : Fin 32} : (i, j) ∈ mirrorPairs ↔ i < j := by
  simp [mirrorPairs]

section Dups

variable {mirrors : Fin 32 → Option Mirror} {i j k : Fin 32}

/-- Two indices have the same output when both are in use and their mirrors send copies to one
place. -/
lemma sameOutput_iff : sameOutput mirrors i j ↔
    ∃ m1 m2, mirrors i = some m1 ∧ mirrors j = some m2 ∧ m1.output = m2.output := by
  unfold sameOutput
  cases hi : mirrors i <;> cases hj : mirrors j <;> simp

lemma sameOutput_symm (h : sameOutput mirrors i j) : sameOutput mirrors j i := by
  obtain ⟨m1, m2, h1, h2, heq⟩ := sameOutput_iff.mp h
  exact sameOutput_iff.mpr ⟨m2, m1, h2, h1, heq.symm⟩

lemma sameOutput_trans (hij : sameOutput mirrors i j) (hjk : sameOutput mirrors j k) :
    sameOutput mirrors i k := by
  obtain ⟨m1, m2, h1, h2, h12⟩ := sameOutput_iff.mp hij
  obtain ⟨m2', m3, h2', h3, h23⟩ := sameOutput_iff.mp hjk
  obtain rfl : m2 = m2' := some.inj (h2.symm.trans h2')
  exact sameOutput_iff.mpr ⟨m1, m3, h1, h3, h12.trans h23⟩

variable {d : Fin 32 → BitVec 32} {x : Fin 32}

/-- What a round can have added to `d k`. -/
lemma has_dupStep {p : Fin 32 × Fin 32} (h : Has (dupStep mirrors d p k) x) :
    Has (d k) x ∨ sameOutput mirrors p.1 p.2 ∧
      (k = p.1 ∧ x = p.2 ∨ k = p.2 ∧ (Has (d p.1) x ∨ x = p.2)) := by
  unfold dupStep at h
  split at h
  case isFalse => exact .inl h
  case isTrue hs =>
    grind [has_or, has_bit]

/-- A round takes nothing away. -/
lemma dupStep_mono (p : Fin 32 × Fin 32) (h : Has (d k) x) : Has (dupStep mirrors d p k) x := by
  unfold dupStep
  split
  case isFalse => exact h
  case isTrue =>
    grind [has_or]

/-- In the loops every mirror is in its own class, and a class has no other members than those with
the same output. -/
def DupsSound (mirrors : Fin 32 → Option Mirror) (d : Fin 32 → BitVec 32) : Prop :=
  ∀ k, Has (d k) k ∧ ∀ x, Has (d k) x → x = k ∨ sameOutput mirrors k x

/-- A pair visited adds only bits between mirrors with one output. -/
lemma DupsSound.step (h : DupsSound mirrors d) (p : Fin 32 × Fin 32) :
    DupsSound mirrors (dupStep mirrors d p) := by
  intro k
  refine ⟨dupStep_mono p (h k).1, fun x hx => ?_⟩
  rcases has_dupStep hx with hx | ⟨hs, ⟨rfl, rfl⟩ | ⟨rfl, hx | rfl⟩⟩
  · exact (h k).2 x hx
  · exact .inr hs
  · -- The bits of `p.1` are those of mirrors with its output, which is that of `p.2`.
    rcases (h p.1).2 x hx with rfl | hx
    · exact .inr (sameOutput_symm hs)
    · exact .inr (sameOutput_trans (sameOutput_symm hs) hx)
  · exact .inl rfl

/-- No visit takes a bit away again. -/
lemma foldl_dupStep_mono (l : List (Fin 32 × Fin 32)) (h : Has (d k) x) :
    Has (l.foldl (dupStep mirrors) d k) x := by
  induction l generalizing d with
  | nil => exact h
  | cons p l ih => exact ih (dupStep_mono p h)

lemma DupsSound.foldl (h : DupsSound mirrors d) (l : List (Fin 32 × Fin 32)) :
    DupsSound mirrors (l.foldl (dupStep mirrors) d) := by
  induction l generalizing d with
  | nil => exact h
  | cons p l ih => exact ih (h.step p)

/-- Once a pair with one output has been visited, each of the two has the bit of the other. -/
lemma foldl_dupStep_pair {l : List (Fin 32 × Fin 32)} (h : DupsSound mirrors d) (hmem : (i, j) ∈ l)
    (hij : i ≠ j) (hs : sameOutput mirrors i j) :
    Has (l.foldl (dupStep mirrors) d i) j ∧ Has (l.foldl (dupStep mirrors) d j) i := by
  induction l generalizing d with
  | nil => cases hmem
  | cons p l ih =>
    rcases mem_cons.mp hmem with rfl | hmem
    · have hpair : Has (dupStep mirrors d (i, j) i) j ∧ Has (dupStep mirrors d (i, j) j) i := by
        rw [dupStep, if_pos hs]
        simp [hij, (h i).1]
      exact ⟨foldl_dupStep_mono l hpair.1, foldl_dupStep_mono l hpair.2⟩
    · exact ih (h.step p) hmem

/-- The loops find all mirrors with the same output, and no others. -/
lemma has_dups : Has (dups mirrors k) x ↔ x = k ∨ sameOutput mirrors k x := by
  have hinit : DupsSound mirrors bit :=
    fun k => ⟨has_bit.mpr rfl, fun x hx => .inl (has_bit.mp hx).symm⟩
  have hsound : DupsSound mirrors (dups mirrors) := hinit.foldl mirrorPairs
  refine ⟨(hsound k).2 x, ?_⟩
  rintro (rfl | hs)
  · exact (hsound x).1
  rcases lt_trichotomy k x with hlt | rfl | hlt
  · exact (foldl_dupStep_pair hinit (mem_mirrorPairs.mpr hlt) hlt.ne hs).1
  · exact (hsound k).1
  · exact (foldl_dupStep_pair hinit (mem_mirrorPairs.mpr hlt) hlt.ne (sameOutput_symm hs)).2

end Dups

/-! ## Operations -/

namespace MBridge

def create : MBridge := { mirrors := fun _ => none, mbundles := [], hasMirrors := false }

def registerBundle (mb : MBridge) (ofbundle : ℕ) : MBridge :=
  { mb with mbundles := ⟨ofbundle, 0, 0, 0⟩ :: mb.mbundles }

/-- `mbundle_lookup()`. -/
def bundleLookup (mb : MBridge) (ofbundle : ℕ) : Option MBundle :=
  mb.mbundles.find? fun b => b.ofbundle = ofbundle

/-- `mbundle_lookup_multiple()`. -/
def bundleLookupMultiple (mb : MBridge) (ofbundles : List ℕ) : Finset ℕ :=
  (ofbundles.filter fun b => (mb.bundleLookup b).isSome).toFinset

/-- `mirror_bundle_src()`. -/
def bundleSrc (mb : MBridge) (ofbundle : ℕ) : BitVec 32 :=
  ((mb.bundleLookup ofbundle).map (·.srcMirrors)).getD 0

/-- `mirror_bundle_dst()`. -/
def bundleDst (mb : MBridge) (ofbundle : ℕ) : BitVec 32 :=
  ((mb.bundleLookup ofbundle).map (·.dstMirrors)).getD 0

/-- `mirror_bundle_out()`. -/
def bundleOut (mb : MBridge) (ofbundle : ℕ) : BitVec 32 :=
  ((mb.bundleLookup ofbundle).map (·.mirrorOut)).getD 0

def mirrorLookup (mb : MBridge) (aux : ℕ) : Option (Fin 32) :=
  (finRange 32).find? fun i => (mb.mirrors i).any fun m => m.aux = aux

def mirrorScan (mb : MBridge) : Option (Fin 32) :=
  (finRange 32).find? fun i => (mb.mirrors i).isNone

/-- Sets or clears a bit. -/
def assignBit (x : BitVec 32) (i : Fin 32) (b : Bool) : BitVec 32 :=
  if b then x ||| bit i else x &&& ~~~bit i

/-- Writes the masks of the bundles for the mirror `i`. -/
def updateBundles (mb : MBridge) (i : Fin 32) (srcs dsts : Finset ℕ) (out : Option ℕ) :
    List MBundle :=
  mb.mbundles.map fun b =>
    { b with
      srcMirrors := assignBit b.srcMirrors i (b.ofbundle ∈ srcs)
      dstMirrors := assignBit b.dstMirrors i (b.ofbundle ∈ dsts)
      mirrorOut := assignBit b.mirrorOut i (out = some b.ofbundle) }

/-- The rest of `mirror_destroy()`, with the number of the mirror. -/
def destroyAt (mb : MBridge) (i : Fin 32) : MBridge :=
  let mirrors := mirrorUpdateDups (update mb.mirrors i none)
  { mirrors := mirrors
    mbundles := mb.updateBundles i ∅ ∅ none
    hasMirrors := (finRange 32).any fun j => (mirrors j).isSome }

def mirrorDestroy (mb : MBridge) (aux : ℕ) : MBridge :=
  match mb.mirrorLookup aux with
  | none => mb
  | some i => mb.destroyAt i

/-- The errors of `mirror_set()`. -/
inductive MirrorError where
  | efbig
  | einval

/-- The arguments of `mirror_set()`. -/
structure MirrorSettings where
  aux : ℕ
  srcs : List ℕ
  dsts : List ℕ
  srcVlans : Option (Finset ℕ)
  outBundle : Option ℕ
  outVlan : BitVec 16

/-- The mirror that `mirror_set()` starts with. -/
def freshMirror (aux : ℕ) : Mirror :=
  { aux := aux, srcs := ∅, dsts := ∅, vlans := none, out := none, outVlan := -1, dupMirrors := 0 }

/-- The configuration that `mirror_set()` gives to a mirror.  `out_vlan` has 16 bits, so `-1`
becomes 65535. -/
def MirrorSettings.apply (s : MirrorSettings) (mb : MBridge) (m : Mirror) : Mirror :=
  { m with
    srcs := mb.bundleLookupMultiple s.srcs
    dsts := mb.bundleLookupMultiple s.dsts
    vlans := s.srcVlans
    out := s.outBundle
    outVlan := if s.outBundle.isSome then 65535 else s.outVlan.toNat }

/-- `vlan_bitmap_equal()` and the other comparisons. -/
def sameConfig (m m' : Mirror) : Bool :=
  m.srcs = m'.srcs ∧ m.dsts = m'.dsts ∧ m.vlans = m'.vlans ∧ m.output = m'.output

/-- The part of `mirror_set()` that writes the configuration. -/
def configure (mb : MBridge) (i : Fin 32) (m : Mirror) : MBridge :=
  { mirrors := mirrorUpdateDups (update mb.mirrors i (some m))
    mbundles := mb.updateBundles i m.srcs m.dsts m.out
    hasMirrors := true }

/-- If the output of the settings is a bundle that is not registered. -/
def MirrorSettings.outUnknown (s : MirrorSettings) (mb : MBridge) : Bool :=
  s.outBundle.any fun b => (mb.bundleLookup b).isNone

/-- `mirror_set()` with the mirror that is there or has been created. -/
def mirrorSetAt (mb : MBridge) (s : MirrorSettings) (i : Fin 32) (m : Mirror) :
    MBridge × Option MirrorError :=
  if s.outUnknown mb then (mb.destroyAt i, some .einval)
  else if sameConfig (s.apply mb m) m then (mb, none)
  else (mb.configure i (s.apply mb m), none)

/-- `mirror_set()`.  There is no result if it destroys a mirror that it has just created. -/
def mirrorSet (mb : MBridge) (s : MirrorSettings) : Option (MBridge × Option MirrorError) :=
  match mb.mirrorLookup s.aux with
  | some i => some (mb.mirrorSetAt s i ((mb.mirrors i).getD (freshMirror s.aux)))
  | none =>
    match mb.mirrorScan with
    | none => some (mb, some .efbig)
    | some i =>
      if s.outUnknown mb then none
      else some (mirrorSetAt
        { mb with mirrors := update mb.mirrors i (some (freshMirror s.aux)) } s i
        (freshMirror s.aux))

/-- One round of the loop of `mbridge_unregister_bundle()`. -/
def unregisterStep (ofbundle : ℕ) (mb : MBridge) (i : Fin 32) : MBridge :=
  match mb.mirrors i with
  | none => mb
  | some m =>
    if m.out = some ofbundle then mb.mirrorDestroy m.aux
    else if ofbundle ∈ m.srcs then
      { mb with mirrors := update mb.mirrors i (some { m with srcs := m.srcs.erase ofbundle }) }
    else if ofbundle ∈ m.dsts then
      { mb with mirrors := update mb.mirrors i (some { m with dsts := m.dsts.erase ofbundle }) }
    else mb

def eraseBundle (mb : MBridge) (ofbundle : ℕ) : MBridge :=
  { mb with mbundles := mb.mbundles.eraseP fun b => b.ofbundle = ofbundle }

def unregisterBundle (mb : MBridge) (ofbundle : ℕ) : MBridge :=
  if (mb.bundleLookup ofbundle).isNone then mb
  else ((finRange 32).foldl (unregisterStep ofbundle) mb).eraseBundle ofbundle

/-- A bundle is a source or a destination of a mirror, but not both, unless it is its output. -/
def Single (mb : MBridge) (ofbundle : ℕ) : Prop := ∀ i, ∀ m ∈ mb.mirrors i,
  ofbundle ∈ m.srcs → ofbundle ∈ m.dsts → m.out = some ofbundle

instance (mb : MBridge) (ofbundle : ℕ) : Decidable (mb.Single ofbundle) := by
  unfold Single
  infer_instance

/-- The states that the operations lead to.  A bundle is registered once, and is not the source and
the destination of one mirror when it is unregistered. -/
inductive Reachable : MBridge → Prop where
  | create : Reachable create
  | registerBundle {mb : MBridge} {ofbundle : ℕ} (h : Reachable mb)
      (hnew : ofbundle ∉ mb.mbundles.map (·.ofbundle)) : Reachable (mb.registerBundle ofbundle)
  | unregisterBundle {mb : MBridge} {ofbundle : ℕ} (h : Reachable mb)
      (hsingle : mb.Single ofbundle) : Reachable (mb.unregisterBundle ofbundle)
  | mirrorSet {mb mb' : MBridge} {error : Option MirrorError} (s : MirrorSettings)
      (h : Reachable mb) (hset : mb.mirrorSet s = some (mb', error)) : Reachable mb'
  | mirrorDestroy {mb : MBridge} (aux : ℕ) (h : Reachable mb) : Reachable (mb.mirrorDestroy aux)

/-! ## The masks are right -/

/-- The bits of the bundles for the mirror `i`. -/
def MasksAt (mb : MBridge) (i : Fin 32) : Prop := ∀ b ∈ mb.mbundles,
  (Has b.srcMirrors i ↔ ∃ m, mb.mirrors i = some m ∧ b.ofbundle ∈ m.srcs) ∧
  (Has b.dstMirrors i ↔ ∃ m, mb.mirrors i = some m ∧ b.ofbundle ∈ m.dsts) ∧
  (Has b.mirrorOut i ↔ ∃ m, mb.mirrors i = some m ∧ m.out = some b.ofbundle)

/-- The bundles of a mirror are registered. -/
def Known (mb : MBridge) (m : Mirror) : Prop :=
  ∀ b, m.Mentions b → b ∈ mb.mbundles.map (·.ofbundle)

/-- Mirrors are told apart by `aux`. -/
def AuxDistinct (mirrors : Fin 32 → Option Mirror) : Prop :=
  ∀ i j m m', mirrors i = some m → mirrors j = some m' → m.aux = m'.aux → i = j

/-- The masks say what they should. -/
structure MasksOk (mb : MBridge) : Prop where
  masks : ∀ i, mb.MasksAt i
  dup : ∀ i m, mb.mirrors i = some m → ∀ j,
    Has m.dupMirrors j ↔ ∃ m', mb.mirrors j = some m' ∧ m'.output = m.output
  has : mb.hasMirrors ↔ ∃ i, (mb.mirrors i).isSome
  names : (mb.mbundles.map (·.ofbundle)).Nodup
  aux : AuxDistinct mb.mirrors

/-- The masks say what they should, and all bundles of mirrors are there. -/
structure Consistent (mb : MBridge) : Prop extends MasksOk mb where
  known : ∀ i m, mb.mirrors i = some m → mb.Known m

variable {i : Fin 32} {mb : MBridge} {m : Mirror}

/-- Assigning one bit of a mask changes membership at that index alone. -/
lemma has_assignBit {x : BitVec 32} {j : Fin 32} {b : Bool} :
    Has (assignBit x i b) j ↔ if i = j then b = true else Has x j := by
  unfold assignBit
  cases b <;> by_cases hij : i = j <;> simp [hij]

/-- Recomputing the duplicates changes no field of a mirror other than `dup_mirrors`. -/
lemma mirrorUpdateDups_eq_some {mirrors : Fin 32 → Option Mirror} :
    mirrorUpdateDups mirrors i = some m ↔
      ∃ m', mirrors i = some m' ∧ m = { m' with dupMirrors := dups mirrors i } := by
  simp [mirrorUpdateDups, eq_comm]

/-- Writing the masks of the bundles neither adds a bundle nor removes or reorders one. -/
lemma map_updateBundles (mb : MBridge) (i : Fin 32) (srcs dsts : Finset ℕ) (out : Option ℕ) :
    (mb.updateBundles i srcs dsts out).map (·.ofbundle) = mb.mbundles.map (·.ofbundle) := by
  simp [updateBundles]

/-- When a mirror, or its absence, has been written into the bundles and into the array, and the
duplicates are up to date, then the masks are right. -/
lemma masksOk_store (h : ∀ j ≠ i, mb.MasksAt j) (hnames : (mb.mbundles.map (·.ofbundle)).Nodup)
    (m? : Option Mirror) (haux : AuxDistinct (update mb.mirrors i m?)) {has : Bool}
    (hhas : has ↔ ∃ j, (update mb.mirrors i m? j).isSome) : MasksOk
      { mirrors := mirrorUpdateDups (update mb.mirrors i m?)
        mbundles := mb.updateBundles i (m?.elim ∅ (·.srcs)) (m?.elim ∅ (·.dsts)) (m?.bind (·.out))
        hasMirrors := has } := by
  refine ⟨fun j => ?_, fun j m hm k => ?_, ?_, ?_, fun j k m m' hm hm' heq => ?_⟩
  case refine_1 =>
    intro b hb
    obtain ⟨b, hmem, rfl⟩ := mem_map.mp hb
    simp only [has_assignBit, mirrorUpdateDups_eq_some]
    by_cases hij : i = j
    · subst hij
      cases m? with
      | none => simp
      | some m => simpa using ⟨decide_eq_true_iff, decide_eq_true_iff⟩
    · have hold := h j (Ne.symm hij) b hmem
      simp only [if_neg hij, update_of_ne (Ne.symm hij)]
      refine ⟨hold.1.trans ?_, hold.2.1.trans ?_, hold.2.2.trans ?_⟩ <;> simp
  case refine_2 =>
    obtain ⟨m', hm', rfl⟩ := mirrorUpdateDups_eq_some.mp hm
    have hclass : (∃ m, mirrorUpdateDups (update mb.mirrors i m?) k = some m ∧
        m.output = m'.output) ↔
        ∃ m, update mb.mirrors i m? k = some m ∧ m.output = m'.output := by
      simp [mirrorUpdateDups, output_dupMirrors]
    rw [has_dups, sameOutput_iff, output_dupMirrors, hclass]
    constructor
    · rintro (rfl | ⟨m1, m2, h1, h2, heq⟩)
      · exact ⟨m', hm', rfl⟩
      · obtain rfl : m' = m1 := some.inj (hm'.symm.trans h1)
        exact ⟨m2, h2, heq.symm⟩
    · rintro ⟨m2, h2, heq⟩
      exact .inr ⟨m', m2, hm', h2, heq.symm⟩
  case refine_3 =>
    simpa [mirrorUpdateDups] using hhas
  case refine_4 =>
    rwa [map_updateBundles]
  case refine_5 =>
    obtain ⟨n, hn, rfl⟩ := mirrorUpdateDups_eq_some.mp hm
    obtain ⟨n', hn', rfl⟩ := mirrorUpdateDups_eq_some.mp hm'
    exact haux j k n n' hn hn' heq

/-- Everything but the mirror `i` is right. -/
structure ConsistentBut (mb : MBridge) (i : Fin 32) : Prop where
  masks : ∀ j ≠ i, mb.MasksAt j
  known : ∀ j ≠ i, ∀ m, mb.mirrors j = some m → mb.Known m
  names : (mb.mbundles.map (·.ofbundle)).Nodup
  aux : AuxDistinct mb.mirrors

lemma Consistent.but (h : mb.Consistent) (i : Fin 32) : mb.ConsistentBut i :=
  ⟨fun j _ => h.masks j, fun j _ => h.known j, h.names, h.aux⟩

lemma AuxDistinct.update_none {mirrors : Fin 32 → Option Mirror} (h : AuxDistinct mirrors)
    (i : Fin 32) : AuxDistinct (update mirrors i none) := by
  intro j k m m' hm hm' heq
  have hj : j ≠ i := by
    rintro rfl
    simp at hm
  have hk : k ≠ i := by
    rintro rfl
    simp at hm'
  rw [update_of_ne hj] at hm
  rw [update_of_ne hk] at hm'
  exact h j k m m' hm hm' heq

/-- A mirror may be stored at an index when no other index holds a mirror of its owner. -/
lemma AuxDistinct.update_some {mirrors : Fin 32 → Option Mirror} (h : AuxDistinct mirrors)
    (hm : ∀ j m', mirrors j = some m' → m'.aux = m.aux → j = i) :
    AuxDistinct (update mirrors i (some m)) := by
  intro j k n n' hn hn' heq
  by_cases hj : j = i <;> by_cases hk : k = i
  · rw [hj, hk]
  · subst hj
    rw [update_self, some.injEq] at hn
    rw [update_of_ne hk] at hn'
    exact (hm k n' hn' (by rw [← heq, hn])).symm
  · subst hk
    rw [update_self, some.injEq] at hn'
    rw [update_of_ne hj] at hn
    exact hm j n hn (by rw [heq, hn'])
  · rw [update_of_ne hj] at hn
    rw [update_of_ne hk] at hn'
    exact h j k n n' hn hn' heq

lemma MasksOk.destroyAt (h : ∀ j ≠ i, mb.MasksAt j) (hnames : (mb.mbundles.map (·.ofbundle)).Nodup)
    (haux : AuxDistinct mb.mirrors) : (mb.destroyAt i).MasksOk :=
  masksOk_store h hnames none (haux.update_none i) (by simp [mirrorUpdateDups])

/-- Destroying the mirror at the one index that may be inconsistent makes the whole bridge
consistent. -/
lemma ConsistentBut.destroyAt (h : mb.ConsistentBut i) : (mb.destroyAt i).Consistent where
  toMasksOk := .destroyAt h.masks h.names h.aux
  known := by
    intro j m hm b hb
    obtain ⟨m', hm', rfl⟩ := mirrorUpdateDups_eq_some.mp hm
    have hj : j ≠ i := by
      rintro rfl
      simp at hm'
    rw [update_of_ne hj] at hm'
    show b ∈ (mb.updateBundles i ∅ ∅ none).map (·.ofbundle)
    rw [map_updateBundles]
    exact h.known j hj m' hm' b ((mentions_dupMirrors ..).mp hb)

/-- So does configuring it, with bundles the bridge knows and an owner nobody else has. -/
lemma ConsistentBut.configure (h : mb.ConsistentBut i) (hknown : mb.Known m)
    (haux : ∀ j m', mb.mirrors j = some m' → m'.aux = m.aux → j = i) :
    (mb.configure i m).Consistent where
  toMasksOk := masksOk_store h.masks h.names (some m) (h.aux.update_some haux)
    (by simpa using ⟨i, by simp⟩)
  known := by
    intro j n hn b hb
    obtain ⟨n', hn', rfl⟩ := mirrorUpdateDups_eq_some.mp hn
    show b ∈ (mb.updateBundles i m.srcs m.dsts m.out).map (·.ofbundle)
    rw [map_updateBundles]
    rw [mentions_dupMirrors] at hb
    by_cases hj : j = i
    · subst hj
      rw [update_self, some.injEq] at hn'
      exact hknown b (hn' ▸ hb)
    · rw [update_of_ne hj] at hn'
      exact h.known j hj n' hn' b hb

/-- A lookup of several bundles returns registered ones only. -/
lemma mem_bundleLookupMultiple {ofbundles : List ℕ} {b : ℕ}
    (h : b ∈ mb.bundleLookupMultiple ofbundles) : b ∈ mb.mbundles.map (·.ofbundle) := by
  simp only [bundleLookupMultiple, List.mem_toFinset, mem_filter, bundleLookup, find?_isSome] at h
  obtain ⟨b', hb', heq⟩ := h.2
  exact mem_map.mpr ⟨b', hb', by simpa using heq⟩

/-- A mirror that has never been configured is not like any configuration: its `out_vlan` is `-1`.
-/
lemma ConsistentBut.mirrorSetAt (h : mb.ConsistentBut i) (s : MirrorSettings)
    (hi : mb.mirrors i = some m) (hm : mb.Consistent ∨ m.outVlan = -1) :
    (mb.mirrorSetAt s i m).1.Consistent := by
  unfold MBridge.mirrorSetAt
  split_ifs with hout hsame
  · exact h.destroyAt
  · refine hm.resolve_right fun hneg => ?_
    have hvlan : (s.apply mb m).outVlan = m.outVlan := by
      simp only [sameConfig, Mirror.output, decide_eq_true_eq, Prod.mk.injEq] at hsame
      exact hsame.2.2.2.2
    simp only [MirrorSettings.apply] at hvlan
    split at hvlan <;> omega
  · refine h.configure (fun b hb => ?_) fun j m' hm' heq => h.aux j i m' m hm' hi heq
    rcases hb with hb | hb | hb
    · exact mem_bundleLookupMultiple hb
    · exact mem_bundleLookupMultiple hb
    · have hsome : (mb.bundleLookup b).isSome := by
        have hb' : s.outBundle = some b := hb
        simpa [MirrorSettings.outUnknown, hb', isSome_iff_ne_none] using hout
      rw [bundleLookup, find?_isSome] at hsome
      obtain ⟨b', hb', heq⟩ := hsome
      exact mem_map.mpr ⟨b', hb', by simpa using heq⟩

/-- The mirror that `mirror_lookup()` finds. -/
lemma mirrorLookup_eq_some {aux : ℕ} (h : mb.mirrorLookup aux = some i) :
    ∃ m, mb.mirrors i = some m ∧ m.aux = aux := by
  simpa [Option.any_eq_true] using find?_some h

/-- With distinct owners the search for an owner finds the very index that holds its mirror. -/
lemma AuxDistinct.mirrorLookup (h : AuxDistinct mb.mirrors) (hm : mb.mirrors i = some m) :
    mb.mirrorLookup m.aux = some i := by
  cases hlook : mb.mirrorLookup m.aux with
  | none =>
    have := find?_eq_none.mp hlook i (mem_finRange i)
    simp [hm] at this
  | some j =>
    obtain ⟨m', hm', heq⟩ := mirrorLookup_eq_some hlook
    rw [h j i m' m hm' hm heq]

/-! ## Unregistering a bundle

The loop does not read the masks of the bundle that goes, so that it might as well go first. -/

/-- A step of the loop over the mirrors does not look at the bundle about to be freed, so it may
be freed first. -/
lemma eraseBundle_unregisterStep (ofbundle : ℕ) (mb : MBridge) (i : Fin 32) :
    (unregisterStep ofbundle mb i).eraseBundle ofbundle =
      unregisterStep ofbundle (mb.eraseBundle ofbundle) i := by
  have hdestroy : ∀ aux, (mb.mirrorDestroy aux).eraseBundle ofbundle =
      (mb.eraseBundle ofbundle).mirrorDestroy aux := by
    intro aux
    have hlook : (mb.eraseBundle ofbundle).mirrorLookup aux = mb.mirrorLookup aux := rfl
    unfold MBridge.mirrorDestroy
    rw [hlook]
    cases mb.mirrorLookup aux with
    | none => rfl
    | some j =>
      simp only [MBridge.destroyAt, eraseBundle, updateBundles, eraseP_map]
      rfl
  have hmirrors : (mb.eraseBundle ofbundle).mirrors = mb.mirrors := rfl
  unfold unregisterStep
  rw [hmirrors]
  cases mb.mirrors i with
  | none => rfl
  | some m =>
    simp only
    split_ifs
    · exact hdestroy m.aux
    all_goals rfl

/-- The same for the whole loop. -/
lemma eraseBundle_foldl (ofbundle : ℕ) (mb : MBridge) (is : List (Fin 32)) :
    (is.foldl (unregisterStep ofbundle) mb).eraseBundle ofbundle =
      is.foldl (unregisterStep ofbundle) (mb.eraseBundle ofbundle) := by
  induction is generalizing mb with
  | nil => rfl
  | cons i is ih => rw [foldl_cons, foldl_cons, ih, eraseBundle_unregisterStep]

/-- Sources and destinations that are not registered do not matter for the masks. -/
lemma MasksOk.modify {m' : Mirror} (h : mb.MasksOk) (hm : mb.mirrors i = some m)
    (haux : m'.aux = m.aux) (hdup : m'.dupMirrors = m.dupMirrors) (hout : m'.output = m.output)
    (hsrcs : ∀ b ∈ mb.mbundles.map (·.ofbundle), b ∈ m'.srcs ↔ b ∈ m.srcs)
    (hdsts : ∀ b ∈ mb.mbundles.map (·.ofbundle), b ∈ m'.dsts ↔ b ∈ m.dsts) :
    MasksOk { mb with mirrors := update mb.mirrors i (some m') } := by
  have hclass : ∀ j (P : Mirror → Prop), (∀ n, mb.mirrors j = some n → j = i → (P m' ↔ P n)) →
      ((∃ n, update mb.mirrors i (some m') j = some n ∧ P n) ↔
        ∃ n, mb.mirrors j = some n ∧ P n) := by
    intro j P hP
    by_cases hj : j = i
    · subst hj
      simpa [hm] using hP m hm rfl
    · rw [update_of_ne hj]
  have hsame : ∀ {j n}, mb.mirrors j = some n → j = i → n = m := by
    rintro j n hn rfl
    exact some.inj (hn.symm.trans hm)
  refine ⟨fun j b hb => ?_, fun j n (hn : update mb.mirrors i (some m') j = some n) k => ?_,
    h.has.trans (exists_congr fun j => ?_), h.names, ?_⟩
  · have hold := h.masks j b hb
    have hname := mem_map_of_mem (f := MBundle.ofbundle) hb
    refine ⟨hold.1.trans (hclass j (b.ofbundle ∈ ·.srcs) fun n hn hj => ?_).symm,
      hold.2.1.trans (hclass j (b.ofbundle ∈ ·.dsts) fun n hn hj => ?_).symm,
      hold.2.2.trans (hclass j (·.out = some b.ofbundle) fun n hn hj => ?_).symm⟩
    · rw [hsame hn hj, hsrcs _ hname]
    · rw [hsame hn hj, hdsts _ hname]
    · rw [hsame hn hj, (Prod.mk.inj hout).1]
  · have hold : ∃ n', mb.mirrors j = some n' ∧ n.dupMirrors = n'.dupMirrors ∧
        n.output = n'.output := by
      by_cases hj : j = i
      · subst hj
        rw [update_self, some.injEq] at hn
        exact ⟨m, hm, hn ▸ hdup, hn ▸ hout⟩
      · rw [update_of_ne hj] at hn
        exact ⟨n, hn, rfl, rfl⟩
    obtain ⟨n', hn', hd, ho⟩ := hold
    rw [hd, ho, h.dup j n' hn' k]
    refine (hclass k (·.output = n'.output) fun n hn hk => ?_).symm
    rw [hsame hn hk, hout]
  · show (mb.mirrors j).isSome ↔ (update mb.mirrors i (some m') j).isSome
    by_cases hj : j = i
    · subst hj
      simp [hm]
    · rw [update_of_ne hj]
  · exact h.aux.update_some fun j n hn heq => h.aux j i n m hn hm (heq.trans haux)

/-- What the loop leaves of a mirror. -/
structure Kept (m m' : Mirror) : Prop where
  out : m'.out = m.out
  srcs : m'.srcs ⊆ m.srcs
  dsts : m'.dsts ⊆ m.dsts

lemma Kept.trans {m' m'' : Mirror} (h : Kept m m') (h' : Kept m' m'') : Kept m m'' :=
  ⟨h'.out.trans h.out, h'.srcs.trans h.srcs, h'.dsts.trans h.dsts⟩

/-- A mirror that was kept, its sets perhaps smaller, mentions no bundle it did not mention
before. -/
lemma Kept.mentions {b : ℕ} {m' : Mirror} (h : Kept m m') (hb : m'.Mentions b) : m.Mentions b :=
  hb.imp (h.srcs ·) fun hb => hb.imp (h.dsts ·) fun hb => h.out ▸ hb

/-- What the loop has done so far, with the mirrors `is`: the masks are right, and the bundle is not
in these mirrors any more. -/
structure Unregistered (ofbundle : ℕ) (is : List (Fin 32)) (mb mb' : MBridge) : Prop where
  ok : mb'.MasksOk
  names : mb'.mbundles.map (·.ofbundle) = mb.mbundles.map (·.ofbundle)
  kept : ∀ j m', mb'.mirrors j = some m' → ∃ m, mb.mirrors j = some m ∧ Kept m m'
  gone : ∀ j ∈ is, ∀ m', mb'.mirrors j = some m' → ¬ m'.Mentions ofbundle

section

variable {ofbundle : ℕ} (hgone : ofbundle ∉ mb.mbundles.map (·.ofbundle))
include hgone

/-- A round that takes the bundle from the mirror `i`. -/
lemma MasksOk.unregistered_modify {m' : Mirror} (h : mb.MasksOk) (hm : mb.mirrors i = some m)
    (haux : m'.aux = m.aux) (hdup : m'.dupMirrors = m.dupMirrors) (hout : m'.output = m.output)
    (hsrcs : m'.srcs = m.srcs ∨ m'.srcs = m.srcs.erase ofbundle)
    (hdsts : m'.dsts = m.dsts ∨ m'.dsts = m.dsts.erase ofbundle)
    (hno : ¬ m'.Mentions ofbundle) :
    Unregistered ofbundle [i] mb { mb with mirrors := update mb.mirrors i (some m') } := by
  have hmem : ∀ {s s' : Finset ℕ}, s' = s ∨ s' = s.erase ofbundle →
      s' ⊆ s ∧ ∀ b ∈ mb.mbundles.map (·.ofbundle), b ∈ s' ↔ b ∈ s := by
    rintro s s' (rfl | rfl)
    · exact ⟨subset_rfl, fun _ _ => Iff.rfl⟩
    · refine ⟨s.erase_subset ofbundle, fun b hb => ?_⟩
      rw [Finset.mem_erase, and_iff_right (ne_of_mem_of_not_mem hb hgone)]
  refine ⟨h.modify hm haux hdup hout (hmem hsrcs).2 (hmem hdsts).2, rfl,
    fun j n (hn : update mb.mirrors i (some m') j = some n) => ?_,
    fun j hj n (hn : update mb.mirrors i (some m') j = some n) => ?_⟩
  · by_cases hj : j = i
    · subst hj
      rw [update_self, some.injEq] at hn
      exact ⟨m, hm, hn ▸ ⟨(Prod.mk.inj hout).1, (hmem hsrcs).1, (hmem hdsts).1⟩⟩
    · rw [update_of_ne hj] at hn
      exact ⟨n, hn, rfl, subset_rfl, subset_rfl⟩
  · rw [mem_singleton.mp hj, update_self, some.injEq] at hn
    exact hn ▸ hno

/-- **One round of the loop.** -/
lemma MasksOk.unregisterStep (h : mb.MasksOk) (hsingle : mb.Single ofbundle) (i : Fin 32) :
    Unregistered ofbundle [i] mb (unregisterStep ofbundle mb i) := by
  unfold MBridge.unregisterStep
  cases hm : mb.mirrors i with
  | none =>
    refine ⟨h, rfl, fun j m hm => ⟨m, hm, rfl, subset_rfl, subset_rfl⟩, fun j hj m hm' => ?_⟩
    rw [mem_singleton.mp hj, hm] at hm'
    cases hm'
  | some m =>
    have hboth := hsingle i m hm
    simp only
    split_ifs with hout hsrc hdst
    · unfold MBridge.mirrorDestroy
      rw [h.aux.mirrorLookup hm]
      refine ⟨.destroyAt (fun j _ => h.masks j) h.names h.aux, map_updateBundles .., ?_, ?_⟩
      · intro j n hn
        obtain ⟨n', hn', rfl⟩ := mirrorUpdateDups_eq_some.mp hn
        have hj : j ≠ i := by
          rintro rfl
          simp at hn'
        rw [update_of_ne hj] at hn'
        exact ⟨n', hn', rfl, subset_rfl, subset_rfl⟩
      · intro j hj n hn
        obtain ⟨n', hn', rfl⟩ := mirrorUpdateDups_eq_some.mp hn
        simp [mem_singleton.mp hj] at hn'
    · refine h.unregistered_modify hgone hm rfl rfl rfl (.inr rfl) (.inl rfl) ?_
      rintro (hb | hb | hb)
      · exact Finset.notMem_erase _ _ hb
      · exact hout (hboth hsrc hb)
      · exact hout hb
    · refine h.unregistered_modify hgone hm rfl rfl rfl (.inl rfl) (.inr rfl) ?_
      rintro (hb | hb | hb)
      · exact hsrc hb
      · exact Finset.notMem_erase _ _ hb
      · exact hout hb
    · refine ⟨h, rfl, fun j m hm => ⟨m, hm, rfl, subset_rfl, subset_rfl⟩, fun j hj m' hm' => ?_⟩
      rw [mem_singleton.mp hj, hm, some.injEq] at hm'
      rw [← hm']
      rintro (hb | hb | hb)
      exacts [hsrc hb, hdst hb, hout hb]

/-- **The loop.** -/
lemma MasksOk.foldl_unregisterStep (h : mb.MasksOk) (hsingle : mb.Single ofbundle)
    (is : List (Fin 32)) :
    Unregistered ofbundle is mb (is.foldl (MBridge.unregisterStep ofbundle) mb) := by
  induction is generalizing mb with
  | nil => exact ⟨h, rfl, fun j m hm => ⟨m, hm, rfl, subset_rfl, subset_rfl⟩, nofun⟩
  | cons i is ih =>
    have h₁ := h.unregisterStep hgone hsingle i
    have hsingle₁ : (MBridge.unregisterStep ofbundle mb i).Single ofbundle := by
      intro j m' hm' hs hd
      obtain ⟨m, hm, hkept⟩ := h₁.kept j m' hm'
      exact hkept.out.trans (hsingle j m hm (hkept.srcs hs) (hkept.dsts hd))
    have h₂ := ih (h₁.names ▸ hgone) h₁.ok hsingle₁
    refine ⟨h₂.ok, h₂.names.trans h₁.names, fun j m'' hm'' => ?_, fun j hj m'' hm'' hb => ?_⟩
    · obtain ⟨m', hm', hkept'⟩ := h₂.kept j m'' hm''
      obtain ⟨m, hm, hkept⟩ := h₁.kept j m' hm'
      exact ⟨m, hm, hkept.trans hkept'⟩
    · obtain rfl | hj := mem_cons.mp hj
      · obtain ⟨m', hm', hkept'⟩ := h₂.kept j m'' hm''
        exact h₁.gone j (mem_singleton_self j) m' hm' (hkept'.mentions hb)
      · exact h₂.gone j hj m'' hm'' hb

end

section

variable (h : mb.Consistent)
include h

/-- Configuring a mirror keeps the bridge consistent, whether it succeeds or reports an error. -/
lemma Consistent.mirrorSet {s : MirrorSettings} {mb' : MBridge} {error : Option MirrorError}
    (hset : mb.mirrorSet s = some (mb', error)) : mb'.Consistent := by
  unfold MBridge.mirrorSet at hset
  split at hset
  · rename_i i hlook
    obtain ⟨m, hm, -⟩ := mirrorLookup_eq_some hlook
    have hok := (h.but i).mirrorSetAt s hm (.inl h)
    rw [some.injEq, hm, getD_some] at hset
    rwa [hset] at hok
  · rename_i hlook
    split at hset
    · rw [some.injEq, Prod.mk.injEq] at hset
      exact hset.1 ▸ h
    · rename_i i hscan
      split at hset
      · cases hset
      have hnew : ∀ j m, mb.mirrors j = some m → m.aux ≠ s.aux := by
        intro j m hm heq
        have := find?_eq_none.mp hlook j (mem_finRange j)
        simp [hm, heq] at this
      have hbut : ConsistentBut
          { mb with mirrors := update mb.mirrors i (some (freshMirror s.aux)) } i := by
        refine ⟨fun j hj b hb => ?_, fun j hj m hm => ?_, h.names,
          h.aux.update_some fun j m hm heq => absurd heq (hnew j m hm)⟩
        · simpa only [update_of_ne hj] using h.masks j b hb
        · exact h.known j m (by simpa [update_of_ne hj] using hm)
      have hok := hbut.mirrorSetAt s (update_self ..) (.inr rfl)
      rw [some.injEq] at hset
      rwa [hset] at hok

/-- Destroying a mirror by its owner keeps the bridge consistent, also when there is none. -/
lemma Consistent.mirrorDestroy (aux : ℕ) : (mb.mirrorDestroy aux).Consistent := by
  unfold MBridge.mirrorDestroy
  split
  · exact h
  · exact (h.but _).destroyAt

/-- A bundle registered anew has empty masks, and no mirror can mention it yet. -/
lemma Consistent.registerBundle {ofbundle : ℕ} (hnew : ofbundle ∉ mb.mbundles.map (·.ofbundle)) :
    (mb.registerBundle ofbundle).Consistent := by
  refine ⟨⟨fun i b hb => ?_, h.dup, h.has, nodup_cons.mpr ⟨hnew, h.names⟩, h.aux⟩,
    fun i m hm b hb => ?_⟩
  · rcases mem_cons.mp hb with rfl | hb
    · have hnone : ∀ m, mb.mirrors i = some m → ofbundle ∉ m.srcs ∧ ofbundle ∉ m.dsts ∧
          m.out ≠ some ofbundle := by
        intro m hm
        have := h.known i m hm ofbundle
        exact ⟨fun hs => hnew (this (.inl hs)), fun hs => hnew (this (.inr (.inl hs))),
          fun hs => hnew (this (.inr (.inr hs)))⟩
      simp only [BitVec.ofNat_eq_ofNat, not_has_zero, false_iff, not_exists, not_and]
      exact ⟨fun m hm => (hnone m hm).1, fun m hm => (hnone m hm).2.1, fun m hm => (hnone m hm).2.2⟩
    · exact h.masks i b hb
  · exact mem_cons_of_mem _ (h.known i m hm b hb)

/-- A bundle may be unregistered if no mirror has it as a source and as a destination, or else as
its output too. -/
lemma Consistent.unregisterBundle {ofbundle : ℕ} (hsingle : mb.Single ofbundle) :
    (mb.unregisterBundle ofbundle).Consistent := by
  unfold MBridge.unregisterBundle
  split
  · exact h
  rw [eraseBundle_foldl]
  have hnames : (mb.eraseBundle ofbundle).mbundles.map (·.ofbundle) =
      (mb.mbundles.map (·.ofbundle)).erase ofbundle := by
    rw [erase_eq_eraseP', eraseP_map]
    rfl
  have hok : (mb.eraseBundle ofbundle).MasksOk :=
    ⟨fun i b hb => h.masks i b (mem_of_mem_eraseP hb), h.dup, h.has, hnames ▸ h.names.erase _,
      h.aux⟩
  have hgone : ofbundle ∉ (mb.eraseBundle ofbundle).mbundles.map (·.ofbundle) :=
    hnames ▸ h.names.not_mem_erase
  have hloop := hok.foldl_unregisterStep hgone hsingle (finRange 32)
  refine ⟨hloop.ok, fun j m' hm' b hb => ?_⟩
  obtain ⟨m, hm, hkept⟩ := hloop.kept j m' hm'
  rw [hloop.names, hnames, h.names.mem_erase_iff]
  refine ⟨?_, h.known j m hm b (hkept.mentions hb)⟩
  rintro rfl
  exact hloop.gone j (mem_finRange j) m' hm' hb

omit h in
/-- **After any calls the masks are right.** -/
theorem Reachable.consistent (h : mb.Reachable) : mb.Consistent := by
  induction h with
  | create => exact ⟨⟨fun _ => nofun, nofun, by simp [MBridge.create], nodup_nil, nofun⟩, nofun⟩
  | registerBundle _ hnew ih => exact ih.registerBundle hnew
  | unregisterBundle _ hsingle ih => exact ih.unregisterBundle hsingle
  | mirrorSet s _ hset ih => exact ih.mirrorSet hset
  | mirrorDestroy aux _ ih => exact ih.mirrorDestroy aux

/-! ## What the translation reads -/

/-- What a mask of a bundle says of an index, read back as what the mirror there selects. -/
lemma Consistent.mem_bundle {mask : MBundle → BitVec 32} {sel : Mirror → ℕ → Prop}
    (hmask : ∀ b ∈ mb.mbundles, Has (mask b) i ↔ ∃ m, mb.mirrors i = some m ∧ sel m b.ofbundle)
    (hsel : ∀ m b, sel m b → b ∈ m.srcs ∨ b ∈ m.dsts ∨ m.out = some b) (ofbundle : ℕ) :
    Has (((mb.bundleLookup ofbundle).map mask).getD 0) i ↔
      ∃ m, mb.mirrors i = some m ∧ sel m ofbundle := by
  cases hlook : mb.bundleLookup ofbundle with
  | some b =>
    have hname : b.ofbundle = ofbundle := by simpa using find?_some hlook
    simpa [hname] using hmask b (mem_of_find?_eq_some hlook)
  | none =>
    simp only [map_none, getD_none, BitVec.ofNat_eq_ofNat, not_has_zero, false_iff,
      not_exists, not_and]
    intro m hm hs
    obtain ⟨b, hb, rfl⟩ := mem_map.mp (h.known i m hm ofbundle (hsel m ofbundle hs))
    simpa using find?_eq_none.mp hlook b hb

lemma Consistent.has_bundleSrc (ofbundle : ℕ) (i : Fin 32) :
    Has (mb.bundleSrc ofbundle) i ↔ ∃ m, mb.mirrors i = some m ∧ ofbundle ∈ m.srcs :=
  h.mem_bundle (fun b hb => (h.masks i b hb).1) (fun _ _ => .inl) ofbundle

lemma Consistent.has_bundleDst (ofbundle : ℕ) (i : Fin 32) :
    Has (mb.bundleDst ofbundle) i ↔ ∃ m, mb.mirrors i = some m ∧ ofbundle ∈ m.dsts :=
  h.mem_bundle (fun b hb => (h.masks i b hb).2.1) (fun _ _ hb => .inr (.inl hb)) ofbundle

/-! ## The loop of `add_mirror_actions()` -/

/-- The mirrors that the loop looks at, and for each of them if it selects the VLAN; nothing if the
assertion fails that there is a mirror for every bit, or if the loop has not ended after `n`
rounds. -/
def mirrorLoop (mb : MBridge) (vlan : ℕ) : ℕ → BitVec 32 → Option (List (Mirror × Bool))
  | 0, _ => none
  | n + 1, mirrors =>
    match lowest mirrors with
    | none => some []
    | some i =>
      match mb.mirrors i with
      | none => none
      | some m =>
        if m.selectsVlan vlan then
          (mb.mirrorLoop vlan n (mirrors &&& ~~~m.dupMirrors)).map ((m, true) :: ·)
        else
          (mb.mirrorLoop vlan n (mirrors &&& ~~~bit i)).map ((m, false) :: ·)

/-- The outputs that get a copy. -/
def copies (visited : List (Mirror × Bool)) : List (Option ℕ × ℤ) :=
  (visited.filter (·.2)).map fun v => v.1.output

/-- The outputs of the mirrors in a mask that select a VLAN. -/
def Selected (mb : MBridge) (vlan : ℕ) (mirrors : BitVec 32) (o : Option ℕ × ℤ) : Prop :=
  ∃ i m, Has mirrors i ∧ mb.mirrors i = some m ∧ m.selectsVlan vlan ∧ m.output = o

/-- **The loop sends one copy to every output of a mirror that selects the packet.** -/
theorem Consistent.mirrorLoop (vlan : ℕ) {n : ℕ} {mirrors : BitVec 32}
    (hex : ∀ i, Has mirrors i → (mb.mirrors i).isSome) (hn : card mirrors < n) :
    ∃ visited, mb.mirrorLoop vlan n mirrors = some visited ∧ (copies visited).Nodup ∧
      ∀ o, o ∈ copies visited ↔ mb.Selected vlan mirrors o := by
  induction n generalizing mirrors with
  | zero => omega
  | succ n ih =>
    rw [MBridge.mirrorLoop]
    cases hi : lowest mirrors with
    | none =>
      refine ⟨[], rfl, nodup_nil, fun o => ⟨nofun, ?_⟩⟩
      rintro ⟨j, _, hj, _⟩
      exact absurd hj (not_has_of_lowest hi j)
    | some i =>
      have hhas : Has mirrors i := has_of_lowest hi
      obtain ⟨m, hm⟩ := isSome_iff_exists.mp (hex i hhas)
      have hsub : ∀ {y : BitVec 32} j, Has (mirrors &&& ~~~y) j → (mb.mirrors j).isSome :=
        fun j hj => hex j (has_diff.mp hj).1
      simp only [hm]
      split
      case isTrue hsel =>
        have hown : Has m.dupMirrors i := (h.dup i m hm i).mpr ⟨m, hm, rfl⟩
        obtain ⟨visited, hloop, hnodup, hmem⟩ :=
          ih hsub (lt_of_lt_of_le (card_diff_lt hhas hown) (by omega))
        refine ⟨(m, true) :: visited, by rw [hloop]; rfl, ?_, fun o => ?_⟩
        · -- The mirrors that are left have other outputs.
          refine nodup_cons.mpr ⟨fun hmem' => ?_, hnodup⟩
          obtain ⟨j, m', hj, hm', _, heq⟩ := (hmem m.output).mp hmem'
          exact (has_diff.mp hj).2 ((h.dup i m hm j).mpr ⟨m', hm', heq⟩)
        · rw [copies, filter_cons_of_pos rfl, map_cons, mem_cons, ← copies, hmem o]
          constructor
          · rintro (rfl | ⟨j, m', hj, hrest⟩)
            · exact ⟨i, m, hhas, hm, hsel, rfl⟩
            · exact ⟨j, m', (has_diff.mp hj).1, hrest⟩
          · rintro ⟨j, m', hj, hm', hsel', rfl⟩
            by_cases hdup : Has m.dupMirrors j
            · obtain ⟨m'', hm'', heq⟩ := (h.dup i m hm j).mp hdup
              obtain rfl : m' = m'' := some.inj (hm'.symm.trans hm'')
              exact .inl heq
            · exact .inr ⟨j, m', has_diff.mpr ⟨hj, hdup⟩, hm', hsel', rfl⟩
      case isFalse hsel =>
        obtain ⟨visited, hloop, hnodup, hmem⟩ :=
          ih hsub (lt_of_lt_of_le (card_diff_lt hhas (has_bit.mpr rfl)) (by omega))
        refine ⟨(m, false) :: visited, by rw [hloop]; rfl, hnodup, fun o => (hmem o).trans ?_⟩
        constructor
        · rintro ⟨j, m', hj, hrest⟩
          exact ⟨j, m', (has_diff.mp hj).1, hrest⟩
        · rintro ⟨j, m', hj, hm', hsel', heq⟩
          refine ⟨j, m', has_diff.mpr ⟨hj, fun hij => ?_⟩, hm', hsel', heq⟩
          obtain rfl : i = j := has_bit.mp hij
          obtain rfl : m = m' := some.inj (hm.symm.trans hm')
          exact hsel hsel'

/-- The loop only ends if there is a mirror for every bit of the mask, since those that it leaves
out have the output of one that it has found. -/
lemma Consistent.isSome_of_mirrorLoop {vlan n : ℕ} {mirrors : BitVec 32}
    {visited : List (Mirror × Bool)} (hloop : mb.mirrorLoop vlan n mirrors = some visited)
    {j : Fin 32} (hj : Has mirrors j) : (mb.mirrors j).isSome := by
  fun_induction MBridge.mirrorLoop mb vlan n mirrors generalizing visited with
  | case1 => cases hloop
  | case2 _ _ hi => exact absurd hj (not_has_of_lowest hi j)
  | case3 _ _ i _ hm => cases hloop
  | case4 n mirrors i _ m hm _ ih =>
    obtain ⟨rest, hrest, -⟩ := map_eq_some_iff.mp hloop
    by_cases hdup : Has m.dupMirrors j
    · obtain ⟨m', hm', -⟩ := (h.dup i m hm j).mp hdup
      simp [hm']
    · exact ih hrest (has_diff.mpr ⟨hj, hdup⟩)
  | case5 n mirrors i _ m hm _ ih =>
    obtain ⟨rest, hrest, -⟩ := map_eq_some_iff.mp hloop
    by_cases hij : i = j
    · simp [← hij, hm]
    · exact ih hrest (has_diff.mpr ⟨hj, fun hbit => hij (has_bit.mp hbit)⟩)

omit h in
/-- Every mirror the loop visits is configured on the bridge. -/
lemma mem_of_mirrorLoop {vlan n : ℕ} {mirrors : BitVec 32} {visited : List (Mirror × Bool)}
    (h : mb.mirrorLoop vlan n mirrors = some visited) {v : Mirror × Bool} (hv : v ∈ visited) :
    ∃ i, mb.mirrors i = some v.1 := by
  fun_induction MBridge.mirrorLoop mb vlan n mirrors generalizing visited with
    grind [map_eq_some_iff]

end

/-- **The masks say what is mirrored where**, whatever has been configured before. -/
theorem masks_exact (h : mb.Reachable) (hm : mb.mirrors i = some m) :
    mb.hasMirrors ∧
    (∀ b ∈ mb.mbundles, (Has b.srcMirrors i ↔ b.ofbundle ∈ m.srcs) ∧
      (Has b.dstMirrors i ↔ b.ofbundle ∈ m.dsts) ∧
      (Has b.mirrorOut i ↔ m.out = some b.ofbundle)) ∧
    ∀ j, Has m.dupMirrors j ↔ ∃ m', mb.mirrors j = some m' ∧ m'.output = m.output := by
  have hc := h.consistent
  exact ⟨hc.has.2 ⟨i, hm ▸ rfl⟩, by simpa [MasksAt, hm] using hc.masks i, hc.dup i m hm⟩

/-- Mirrors for a bridge with the bundles 1, 2 and 3. -/
def mirrorsOf (settings : List MirrorSettings) : MBridge :=
  settings.foldl (fun mb s => ((mb.mirrorSet s).map Prod.fst).getD mb)
    (((create.registerBundle 1).registerBundle 2).registerBundle 3)

lemma mirrorsOf_reachable (settings : List MirrorSettings) : (mirrorsOf settings).Reachable := by
  refine foldlRecOn settings _ ?_ fun mb h s _ => ?_
  · exact .registerBundle (.registerBundle (.registerBundle .create (by decide)) (by decide))
      (by decide)
  · cases hset : mb.mirrorSet s with
    | none => exact h
    | some res => exact .mirrorSet s h hset

/-- Two mirrors that output to the bundle 3.  The first one gets another source, which then goes. -/
theorem masks_exact_twoMirrors :
    ∃ (mb : MBridge) (m : Mirror), mb.mirrors 0 = some m ∧ m.srcs = {1} ∧
      mb.mbundles.map (·.ofbundle) = [3, 1] ∧
      (∀ b ∈ mb.mbundles, Has b.srcMirrors 0 ↔ b.ofbundle = 1) ∧
      Has m.dupMirrors 1 := by
  obtain ⟨mb, hmb⟩ : ∃ mb, mb = (mirrorsOf [⟨10, [1], [2], none, some 3, 0⟩,
    ⟨20, [2], [], some {5}, some 3, 0⟩, ⟨10, [1, 2], [], none, some 3, 0⟩]).unregisterBundle 2 :=
    ⟨_, rfl⟩
  have hreach : mb.Reachable := hmb ▸ .unregisterBundle (mirrorsOf_reachable _) (by decide +kernel)
  have hnames : mb.mbundles.map (·.ofbundle) = [3, 1] := by
    subst hmb
    decide +kernel
  obtain ⟨m, hm, hsrcs, hout⟩ :
      ∃ m ∈ mb.mirrors 0, m.srcs = {1} ∧ m.output = (some 3, 65535) := by
    subst hmb
    decide +kernel
  obtain ⟨m', hm', hout'⟩ : ∃ m' ∈ mb.mirrors 1, m'.output = (some 3, 65535) := by
    subst hmb
    decide +kernel
  obtain ⟨-, hmasks, hdup⟩ := masks_exact hreach hm
  refine ⟨mb, m, hm, hsrcs, hnames, fun b hb => ?_,
    (hdup 1).mpr ⟨m', hm', hout'.trans hout.symm⟩⟩
  rw [(hmasks b hb).1, hsrcs, Finset.mem_singleton]

end MBridge

end Xlate

end OVS
