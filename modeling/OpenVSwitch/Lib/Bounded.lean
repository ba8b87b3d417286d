import Mathlib.Data.Nat.Basic

/-!
# Recursion with a limit

A recursive procedure is given by its body `F`, which has the procedure itself as an argument, so
that every call in it is visible.  `iterate F n` is the procedure when at most `n` calls of it may
be active at the same time, and the result is `none` if that is not enough.

**Two runs.**  What has to be known of such procedures is mostly about two runs: of one procedure
with different limits, or in states that differ.  `Sim total P good R` says that `P` is true of the
result of the first run, that the second run follows the first one if that has a good result, and if
`total` is true, then also that the first one has a result.

What is good is only known in the end, but the two runs go side by side.  So the rule for programs
that are run one after the other asks that a good result comes from good states only.
-/

namespace OVS

namespace Bounded

variable {A S T U V : Type}

/-- The procedure with body `F` when at most `n` calls of it may be active. -/
def iterate (F : (A → S → Option S) → A → S → Option S) : ℕ → A → S → Option S
  | 0 => fun _ _ => none
  | n + 1 => F (iterate F n)

/-- `P` is true of the result of the first program, and if the result is good, then the second
program has one, too, and they are related. -/
structure Sim (total : Prop) (P good : S → Prop) (R : S → T → Prop) (x : Option S)
    (y : Option T) : Prop where
  holds : ∀ s, x = some s → P s
  follow : ∀ s, x = some s → good s → ∃ t, y = some t ∧ R s t
  isSome : total → x.isSome

variable {total : Prop} {P good : S → Prop} {P' good' : U → Prop} {R : S → T → Prop}
  {R' : U → V → Prop} {x : Option S} {y : Option T}

lemma Sim.ret {s : S} {t : T} (hP : P s) (hR : good s → R s t) :
    Sim total P good R (some s) (some t) :=
  ⟨fun _ hs => Option.some.inj hs ▸ hP, fun _ hs hgood => by
    obtain rfl := Option.some.inj hs
    exact ⟨t, rfl, hR hgood⟩, fun _ => rfl⟩

/-- Programs that are run one after the other. -/
lemma Sim.bind (h : Sim total P good R x y) (hrefl : ∀ s, ∃ t, R s t) {f : S → Option U}
    {g : T → Option V} (hfg : ∀ s t, P s → R s t →
      Sim total (fun u => P' u ∧ (good' u → good s)) good' R' (f s) (g t)) :
    Sim total P' good' R' (x.bind f) (y.bind g) := by
  -- What is true of the first program is true of it next to any other one.
  have hfirst : ∀ s, x = some s → ∃ t,
      Sim total (fun u => P' u ∧ (good' u → good s)) good' R' (f s) (g t) := by
    intro s hs
    obtain ⟨t, ht⟩ := hrefl s
    exact ⟨t, hfg s t (h.holds s hs) ht⟩
  constructor
  · intro u hu
    obtain ⟨s, hs, hu⟩ := Option.bind_eq_some_iff.mp hu
    obtain ⟨_, hsim⟩ := hfirst s hs
    exact (hsim.holds u hu).1
  · intro u hu hgood
    obtain ⟨s, rfl, hu⟩ := Option.bind_eq_some_iff.mp hu
    obtain ⟨_, hsim⟩ := hfirst s rfl
    obtain ⟨t, rfl, hst⟩ := h.follow s rfl ((hsim.holds u hu).2 hgood)
    exact (hfg s t (h.holds s rfl) hst).follow u hu hgood
  · intro htotal
    obtain ⟨s, rfl⟩ := Option.isSome_iff_exists.mp (h.isSome htotal)
    obtain ⟨_, hsim⟩ := hfirst s rfl
    exact hsim.isSome htotal

/-- Programs with something simple after them. -/
lemma Sim.map (h : Sim total P good R x y) {f : S → U} {g : T → V} (hP : ∀ s, P s → P' (f s))
    (hgood : ∀ s, good' (f s) → good s) (hR : ∀ s t, P s → R s t → R' (f s) (g t)) :
    Sim total P' good' R' (x.map f) (y.map g) := by
  constructor
  · intro u hu
    obtain ⟨s, hs, rfl⟩ := Option.map_eq_some_iff.mp hu
    exact hP s (h.holds s hs)
  · intro u hu hu'
    obtain ⟨s, hs, rfl⟩ := Option.map_eq_some_iff.mp hu
    obtain ⟨t, rfl, hst⟩ := h.follow s hs (hgood s hu')
    exact ⟨g t, rfl, hR s t (h.holds s hs) hst⟩
  · intro htotal
    rw [Option.isSome_map]
    exact h.isSome htotal

lemma Sim.mono (h : Sim total P good R x y) {P' : S → Prop} (hP : ∀ s, P s → P' s) :
    Sim total P' good R x y :=
  ⟨fun s hs => hP s (h.holds s hs), h.follow, h.isSome⟩

end Bounded

end OVS
