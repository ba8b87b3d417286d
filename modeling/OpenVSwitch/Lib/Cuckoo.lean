import Mathlib.Algebra.Order.BigOperators.Group.Finset
import Mathlib.Data.Fintype.Basic
import Mathlib.Data.Fintype.Prod
import Mathlib.Data.List.Nodup
import Mathlib.Data.Fin.Basic
import Mathlib.Logic.Function.Basic

/-!
# Cuckoo hash tables

A table has buckets of `K` slots.  A slot holds a hash and a node; a slot without a node is
*dead*, but it keeps the hash that was last stored in it.  Every hash has two candidate buckets,
`c₁ h` and `c₂ h`, and a lookup stops in a bucket at the first slot with the hash it looks for,
whether the slot is dead or not.

`Placed` is what makes such a lookup correct in spite of the dead slots:

* a hash has at most one live slot, in one of its candidate buckets;
* in its bucket, that slot is the first one with the hash;
* if the bucket is not the first candidate, no slot of the first candidate has the hash.

It is stated for tables with *holes*, slots that count as absent, because rearranging a table
moves a hole along a path.  The rules are `Placed.mono` (a slot may be dropped), `Placed.put` (a
hash may be stored) and `Placed.moveBack` (nodes may be moved back along a path of full buckets
whose last bucket has a dead slot).  `Placed.lookup_eq_some_iff` is the use of the invariant.
-/

namespace OVS

namespace Cuckoo

open List Function
open Finset hiding mem_singleton

variable {β η ν : Type} {K : ℕ}

/-- A slot of a bucket. -/
structure Slot (η ν : Type) where
  hash : η
  node : Option ν
deriving DecidableEq

/-- Buckets of `K` slots. -/
abbrev Table (β η ν : Type) (K : ℕ) := β → Fin K → Slot η ν

/-- A table in which slots may count as absent. -/
abbrev View (β η ν : Type) (K : ℕ) := β → Fin K → Option (Slot η ν)

/-- A table without holes. -/
def Table.view (T : Table β η ν K) : View β η ν K := fun b i => some (T b i)

/-- The placement invariant. -/
structure Placed (c₁ c₂ : η → β) (V : View β η ν K) : Prop where
  /-- A hash has at most one live slot. -/
  unique : ∀ {b i b' i' h x y}, V b i = some ⟨h, some x⟩ → V b' i' = some ⟨h, some y⟩ →
    b = b' ∧ i = i'
  /-- A live slot is in a candidate bucket. -/
  candidate : ∀ {b i h x}, V b i = some ⟨h, some x⟩ → b = c₁ h ∨ b = c₂ h
  /-- A live slot is the first with its hash in its bucket. -/
  first : ∀ {b i h x}, V b i = some ⟨h, some x⟩ → ∀ j < i, ∀ n, V b j ≠ some ⟨h, n⟩
  /-- A hash that is live outside its first candidate does not occur there. -/
  exclusive : ∀ {b i h x}, V b i = some ⟨h, some x⟩ → b ≠ c₁ h → ∀ j n, V (c₁ h) j ≠ some ⟨h, n⟩

variable {c₁ c₂ : η → β} {V V' : View β η ν K} {h : η} {i : Fin K} {x : ν}

/-- Slots may be dropped. -/
lemma Placed.mono (hp : Placed c₁ c₂ V) (h : ∀ b i s, V' b i = some s → V b i = some s) :
    Placed c₁ c₂ V' where
  unique h1 h2 := hp.unique (h _ _ _ h1) (h _ _ _ h2)
  candidate h1 := hp.candidate (h _ _ _ h1)
  first h1 j hj n h2 := hp.first (h _ _ _ h1) j hj n (h _ _ _ h2)
  exclusive h1 hb j n h2 := hp.exclusive (h _ _ _ h1) hb j n (h _ _ _ h2)

section Update

variable [DecidableEq β] {σ : Type} {s : Slot η ν}

/-- Another value for one slot. -/
def set {σ : Type} (V : β → Fin K → σ) (b : β) (i : Fin K) (s : σ) : β → Fin K → σ :=
  update V b (update (V b) i s)

lemma set_apply (V : β → Fin K → σ) (b : β) (i : Fin K) (s : σ) (b' : β) (i' : Fin K) :
    set V b i s b' i' = if b' = b ∧ i' = i then s else V b' i' := by
  unfold set
  by_cases hb : b' = b
  · subst hb
    simp [update_apply]
  · simp [hb]

@[simp] lemma set_self (V : β → Fin K → σ) (b : β) (i : Fin K) (s : σ) : set V b i s b i = s := by
  simp [set_apply]

lemma set_of_ne (V : β → Fin K → σ) {b b' : β} {i i' : Fin K} (s : σ) (h : ¬ (b' = b ∧ i' = i)) :
    set V b i s b' i' = V b' i' := by
  rw [set_apply, if_neg h]

/-- **Storing a hash.**  A hash that is not live elsewhere may be stored in a candidate bucket, in
front of which no slot of that bucket, and none of the first candidate, has the hash. -/
lemma Placed.put (hp : Placed c₁ c₂ V) {b : β} (x : ν)
    (hlive : ∀ b' i' y, V b' i' = some ⟨h, some y⟩ → b' = b ∧ i' = i) (hc : b = c₁ h ∨ b = c₂ h)
    (hfirst : ∀ j < i, ∀ n, V b j ≠ some ⟨h, n⟩)
    (hexcl : b ≠ c₁ h → ∀ j n, V (c₁ h) j ≠ some ⟨h, n⟩) :
    Placed c₁ c₂ (set V b i (some ⟨h, some x⟩)) := by
  refine ⟨?_, ?_, ?_, ?_⟩
  · intro b1 i1 b2 i2 g y z h1 h2
    rw [set_apply] at h1 h2
    split_ifs at h1 h2 with n1 n2 n2
    · exact ⟨n1.1.trans n2.1.symm, n1.2.trans n2.2.symm⟩
    · cases h1
      exact absurd (hlive _ _ _ h2) n2
    · cases h2
      exact absurd (hlive _ _ _ h1) n1
    · exact hp.unique h1 h2
  · intro b1 i1 g y h1
    rw [set_apply] at h1
    split_ifs at h1 with n1
    · cases h1
      exact n1.1 ▸ hc
    · exact hp.candidate h1
  · intro b1 i1 g y h1 j hj n h2
    rw [set_apply] at h1 h2
    split_ifs at h1 h2 with n1 n2 n2
    · exact hj.ne (n2.2.trans n1.2.symm)
    · cases h1
      exact hfirst j (n1.2 ▸ hj) n (n1.1 ▸ h2)
    · cases h2
      exact n1 (hlive _ _ _ h1)
    · exact hp.first h1 j hj n h2
  · intro b1 i1 g y h1 hb j n h2
    rw [set_apply] at h1 h2
    split_ifs at h1 h2 with n1 n2 n2
    · exact hb (n1.1.trans n2.1.symm)
    · cases h1
      exact hexcl (n1.1 ▸ hb) j n h2
    · cases h2
      exact n1 (hlive _ _ _ h1)
    · exact hp.exclusive h1 hb j n h2

/-- **Removing the node of a slot** leaves its hash behind. -/
lemma Placed.kill (hp : Placed c₁ c₂ V) {b : β} (hs : V b i = some ⟨h, some x⟩) :
    Placed c₁ c₂ (set V b i (some ⟨h, none⟩)) := by
  -- a live slot was live before, and every slot had its hash before
  have hlive : ∀ {b' i' g y}, set V b i (some ⟨h, none⟩) b' i' = some ⟨g, some y⟩ →
      V b' i' = some ⟨g, some y⟩ := by
    intro b' i' g y hs'
    rw [set_apply] at hs'
    split_ifs at hs'
    · simp at hs'
    · exact hs'
  have hhash : ∀ {b' i' g n}, set V b i (some ⟨h, none⟩) b' i' = some ⟨g, n⟩ →
      ∃ n', V b' i' = some ⟨g, n'⟩ := by
    intro b' i' g n hs'
    rw [set_apply] at hs'
    split_ifs at hs' with hbi
    · cases hs'
      exact ⟨_, by rw [hbi.1, hbi.2, hs]⟩
    · exact ⟨_, hs'⟩
  refine ⟨fun h1 h2 => hp.unique (hlive h1) (hlive h2), fun h1 => hp.candidate (hlive h1), ?_, ?_⟩
  · intro b' i' g y h1 j hj n h2
    obtain ⟨n', h2⟩ := hhash h2
    exact hp.first (hlive h1) j hj n' h2
  · intro b' i' g y h1 hb j n h2
    obtain ⟨n', h2⟩ := hhash h2
    exact hp.exclusive (hlive h1) hb j n' h2

lemma view_set (T : Table β η ν K) (b : β) :
    Table.view (set T b i s) = set T.view b i (some s) := by
  funext b' i'
  rw [set_apply, Table.view, set_apply, apply_ite some, Table.view]

/-! ## Moving nodes back along a path -/

/-- The table with one slot regarded as absent. -/
def withHole (T : Table β η ν K) (p : β × Fin K) : View β η ν K := set T.view p.1 p.2 none

/-- Stores into every position but the first what its predecessor held, last position first. -/
def moveBack : List (β × Fin K) → Table β η ν K → Table β η ν K
  | p :: q :: rest, T =>
    let T' := moveBack (q :: rest) T
    set T' q.1 q.2 (T' p.1 p.2)
  | _, T => T

/-- A path along which nodes can be moved back: full buckets, each next bucket being the other
candidate of the hash at the position before it, no bucket twice, and at the end a dead slot
behind live ones. -/
inductive Movable (c₁ c₂ : η → β) (T : Table β η ν K) : List (β × Fin K) → Prop
  | last {b i} (hdead : (T b i).node = none) (hbefore : ∀ j < i, (T b j).node.isSome) :
      Movable c₁ c₂ T [(b, i)]
  | step {b i b' j rest} (hfull : ∀ k, (T b k).node.isSome)
      (hother : b = c₁ (T b i).hash ∧ b' = c₂ (T b i).hash ∨
        b = c₂ (T b i).hash ∧ b' = c₁ (T b i).hash)
      (hnew : ∀ q ∈ (b', j) :: rest, q.1 ≠ b) (hrest : Movable c₁ c₂ T ((b', j) :: rest)) :
      Movable c₁ c₂ T ((b, i) :: (b', j) :: rest)

variable {T : Table β η ν K} {b : β} {p : β × Fin K} {ps : List (β × Fin K)}

/-- Moving back writes only behind the first position. -/
lemma moveBack_of_not_mem (h : ∀ q ∈ ps, q.1 ≠ b) (i : Fin K) :
    moveBack (p :: ps) T b i = T b i := by
  induction ps generalizing p with
  | nil => rfl
  | cons q rest ih =>
    have hq : q.1 ≠ b := h q mem_cons_self
    simp only [moveBack]
    rw [set_of_ne _ _ fun hb => hq hb.1.symm]
    exact ih fun r hr => h r (mem_cons_of_mem _ hr)

/-- One more position in front: the step is what the first position held at the start. -/
lemma moveBack_cons {b' : β} {j : Fin K} (h : ∀ q ∈ (b', j) :: ps, q.1 ≠ b) :
    moveBack ((b, i) :: (b', j) :: ps) T = set (moveBack ((b', j) :: ps) T) b' j (T b i) := by
  rw [moveBack, moveBack_of_not_mem fun r hr => h r (mem_cons_of_mem _ hr)]

/-- Storing into the hole closes it. -/
lemma set_withHole : set (withHole T (b, i)) b i (some s) = Table.view (set T b i s) := by
  funext b' i'
  simp only [view_set, withHole, set_apply]
  split_ifs <;> rfl

lemma withHole_eq_some_iff : withHole T p b i = some s ↔ ¬ (b = p.1 ∧ i = p.2) ∧ T b i = s := by
  rw [withHole, set_apply]
  split_ifs with h <;> simp [h, Table.view]

omit [DecidableEq β] in
/-- Everything in the first bucket of a path in front of its position is live. -/
lemma Movable.head_live (h : Movable c₁ c₂ T (p :: ps)) : ∀ j < p.2, (T p.1 j).node.isSome := by
  cases h with
  | last _ hbefore => exact hbefore
  | step hfull _ _ _ => exact fun j _ => hfull j

omit [DecidableEq β] in
/-- The first bucket of a path does not occur again. -/
lemma Movable.head_new (h : Movable c₁ c₂ T (p :: ps)) : ∀ q ∈ ps, q.1 ≠ p.1 := by
  cases h with
  | last _ _ => simp
  | step _ _ hnew _ => exact hnew

/-- **One move.**  The node of a live slot fills the hole in its other candidate bucket and leaves
a hole behind. -/
lemma Placed.move {b b' : β} {i j : Fin K} (hp : Placed c₁ c₂ (withHole T (b', j)))
    (hslot : T b i = ⟨h, some x⟩) (hne : b' ≠ b)
    (hother : b = c₁ h ∧ b' = c₂ h ∨ b = c₂ h ∧ b' = c₁ h) (hbefore : ∀ k < j, ∀ n, T b' k ≠ ⟨h, n⟩)
    (honly : ∀ k, k ≠ i → ∀ n, T b k ≠ ⟨h, n⟩) :
    Placed c₁ c₂ (withHole (set T b' j (T b i)) (b, i)) ∧
      ∀ g y, (∃ b2 i2, withHole (set T b' j (T b i)) (b, i) b2 i2 = some ⟨g, some y⟩) ↔
        ∃ b2 i2, withHole T (b', j) b2 i2 = some ⟨g, some y⟩ := by
  have hmoved : withHole T (b', j) b i = some ⟨h, some x⟩ :=
    withHole_eq_some_iff.2 ⟨fun hbi => hne hbi.1.symm, hslot⟩
  constructor
  · -- drop the slot that is moved, then store its node in the hole
    have hdrop : ∀ b2 i2 s, set (withHole T (b', j)) b i none b2 i2 = some s →
        ¬ (b2 = b ∧ i2 = i) ∧ withHole T (b', j) b2 i2 = some s := by
      intro b2 i2 s hs
      rw [set_apply] at hs
      split_ifs at hs with hne2
      exact ⟨hne2, hs⟩
    have hplaced := hp.mono fun b2 i2 s hs => (hdrop b2 i2 s hs).2
    refine (hplaced.put (b := b') (i := j) (h := h) x ?_ ?_ ?_ ?_).mono fun b2 i2 s hs => ?_
    · intro b2 i2 y hs
      obtain ⟨hne2, hs⟩ := hdrop _ _ _ hs
      exact absurd (hp.unique hs hmoved) hne2
    · exact hother.elim (fun ho => .inr ho.2) fun ho => .inl ho.2
    · intro k hk n hs
      exact hbefore k hk n (withHole_eq_some_iff.1 (hdrop _ _ _ hs).2).2
    · intro hb' k n hs
      have hb : c₁ h = b := hother.elim (fun ho => ho.1.symm) fun ho => absurd ho.2 hb'
      rw [hb] at hs
      obtain ⟨hne2, hs⟩ := hdrop _ _ _ hs
      exact honly k (fun hk => hne2 ⟨rfl, hk⟩) n (withHole_eq_some_iff.1 hs).2
    · obtain ⟨hne2, hs⟩ := withHole_eq_some_iff.1 hs
      rw [set_apply] at hs ⊢
      split_ifs at hs ⊢ with hne3
      · rw [← hslot, hs]
      · rw [set_of_ne _ _ hne2]
        exact withHole_eq_some_iff.2 ⟨hne3, hs⟩
  · intro g y
    simp only [withHole_eq_some_iff]
    constructor
    · rintro ⟨b2, i2, hne2, hs⟩
      rw [set_apply] at hs
      split_ifs at hs with hne3
      · exact ⟨b, i, fun hbi => hne hbi.1.symm, hs⟩
      · exact ⟨b2, i2, hne3, hs⟩
    · rintro ⟨b2, i2, hne2, hs⟩
      by_cases hbi : b2 = b ∧ i2 = i
      · obtain ⟨rfl, rfl⟩ := hbi
        exact ⟨b', j, fun hbi => hne hbi.1, by rw [set_self, hs]⟩
      · exact ⟨b2, i2, hbi, by rw [set_of_ne _ _ hne2, hs]⟩

/-- **Moving back along a path** leaves a hole at its first position, keeps the placement
invariant around it, and loses and invents no live slot. -/
lemma Placed.moveBack (hp : Placed c₁ c₂ T.view) (hm : Movable c₁ c₂ T (p :: ps)) :
    Placed c₁ c₂ (withHole (moveBack (p :: ps) T) p) ∧
      ∀ h x, (∃ b i, withHole (moveBack (p :: ps) T) p b i = some ⟨h, some x⟩) ↔
        ∃ b i, T b i = ⟨h, some x⟩ := by
  induction ps generalizing p with
  | nil =>
    cases hm with
    | @last b i hdead _ =>
      refine ⟨hp.mono fun b' i' s hs => ?_, fun h x => ?_⟩
      · rw [withHole_eq_some_iff] at hs
        exact congrArg some hs.2
      · simp only [withHole_eq_some_iff]
        refine exists₂_congr fun b' i' => ⟨And.right, fun hs => ⟨?_, hs⟩⟩
        rintro ⟨rfl, rfl⟩
        simp [hs] at hdead
  | cons q rest ih =>
    obtain ⟨b, i⟩ := p
    obtain ⟨b', j⟩ := q
    cases hm with
    | step hfull hother hnew hrest =>
      obtain ⟨hp', hpairs⟩ := ih hrest
      -- the moves so far have touched neither of the two buckets
      have hb : ∀ k, moveBack ((b', j) :: rest) T b k = T b k :=
        moveBack_of_not_mem fun r hr => hnew r (mem_cons_of_mem _ hr)
      have hb' : ∀ k, moveBack ((b', j) :: rest) T b' k = T b' k :=
        moveBack_of_not_mem hrest.head_new
      have hne : b' ≠ b := hnew (b', j) (by simp)
      obtain ⟨x, hx⟩ := Option.isSome_iff_exists.1 (hfull i)
      have hslot : T b i = ⟨(T b i).hash, some x⟩ := by rw [← hx]
      have huniq : ∀ b2 k n, (T b2 k).node.isSome → T b2 k = ⟨(T b i).hash, n⟩ →
          b2 = b ∧ k = i := by
        intro b2 k n hlive hk
        rw [hk, Option.isSome_iff_exists] at hlive
        obtain ⟨y, rfl⟩ := hlive
        exact hp.unique (congrArg some hk) (congrArg some hslot)
      obtain ⟨hplaced, hsame⟩ := hp'.move ((hb i).trans hslot) hne hother
        (fun k hk n hs => hne (huniq b' k n (hrest.head_live k hk) (hb' k ▸ hs)).1)
        (fun k hk n hs => hk (huniq b k n (hfull k) (hb k ▸ hs)).2)
      exact ⟨hplaced, fun h y => (hsame h y).trans (hpairs h y)⟩

/-- The tables that moving back goes through, one for each store. -/
def moveBackSteps : List (β × Fin K) → Table β η ν K → List (Table β η ν K)
  | p :: q :: rest, T => moveBackSteps (q :: rest) T ++ [moveBack (p :: q :: rest) T]
  | _, _ => []

/-- Each of them is what moving back along the rest of the path leaves. -/
lemma mem_moveBackSteps {T' : Table β η ν K} (h : T' ∈ moveBackSteps ps T) :
    ∃ q rest, q :: rest <:+ ps ∧ T' = moveBack (q :: rest) T := by
  induction ps with
  | nil => cases h
  | cons p ps ih =>
    cases ps with
    | nil => cases h
    | cons q rest =>
      rcases mem_append.1 h with h | h
      · obtain ⟨q', rest', hsuffix, rfl⟩ := ih h
        exact ⟨q', rest', hsuffix.trans (suffix_cons _ _), rfl⟩
      · exact ⟨p, q :: rest, suffix_rfl, mem_singleton.1 h⟩

omit [DecidableEq β] in
/-- The rest of a path is a path. -/
lemma Movable.of_suffix {q : β × Fin K} {rest : List (β × Fin K)} (hm : Movable c₁ c₂ T ps)
    (hsuffix : q :: rest <:+ ps) : Movable c₁ c₂ T (q :: rest) := by
  induction hm with
  | last hdead hbefore =>
    rcases suffix_cons_iff.1 hsuffix with heq | hnil
    · rw [heq]
      exact .last hdead hbefore
    · cases suffix_nil.1 hnil
  | step hfull hother hnew hrest ih =>
    rcases suffix_cons_iff.1 hsuffix with heq | hsuffix
    · rw [heq]
      exact .step hfull hother hnew hrest
    · exact ih hsuffix

omit [DecidableEq β] in
/-- No bucket is on the path twice. -/
lemma Movable.nodup (hm : Movable c₁ c₂ T ps) : (ps.map Prod.fst).Nodup := by
  induction hm with
  | last _ _ => exact nodup_singleton _
  | step _ _ hnew _ ih =>
    refine nodup_cons.2 ⟨fun hmem => ?_, ih⟩
    obtain ⟨q, hq, he⟩ := mem_map.1 hmem
    exact hnew q hq he

/-- Moving back keeps chains in candidate buckets. -/
lemma Movable.candidate (hm : Movable c₁ c₂ T ps)
    (hc : ∀ {b i h x}, T b i = ⟨h, some x⟩ → b = c₁ h ∨ b = c₂ h)
    (hs : moveBack ps T b i = ⟨h, some x⟩) : b = c₁ h ∨ b = c₂ h := by
  induction hm with
  | last _ _ => exact hc hs
  | step _ hother hnew _ ih =>
    rw [moveBack_cons hnew, set_apply] at hs
    split_ifs at hs with hb
    · rw [hs, ← hb.1] at hother
      exact hother.elim (fun ho => .inr ho.2) fun ho => .inl ho.2
    · exact ih hs

section Count

variable [Fintype β] [DecidableEq η] [DecidableEq ν]

/-- How often a hash is stored with a node. -/
def count (T : Table β η ν K) (h : η) (x : ν) : ℕ :=
  ∑ p : β × Fin K, if T p.1 p.2 = ⟨h, some x⟩ then 1 else 0

variable {T : Table β η ν K}

omit [DecidableEq β] in
lemma exists_of_count_pos (hpos : 0 < count T h x) : ∃ b i, T b i = ⟨h, some x⟩ := by
  obtain ⟨p, -, hp⟩ := exists_ne_zero_of_sum_ne_zero hpos.ne'
  exact ⟨p.1, p.2, by simpa using hp⟩

omit [DecidableEq β] in
lemma count_pos_of_eq (hs : T b i = ⟨h, some x⟩) : 0 < count T h x :=
  sum_pos' (fun _ _ => Nat.zero_le _) ⟨(b, i), mem_univ _, by simp [hs]⟩

/-- **One store** replaces one slot. -/
lemma count_set (T : Table β η ν K) (b : β) (i : Fin K) (s : Slot η ν) (h : η) (x : ν) :
    count (set T b i s) h x + (if T b i = ⟨h, some x⟩ then 1 else 0) =
      count T h x + if s = ⟨h, some x⟩ then 1 else 0 := by
  have hrest : ∑ p ∈ univ.erase (b, i),
      (if set T b i s p.1 p.2 = ⟨h, some x⟩ then 1 else 0) =
      ∑ p ∈ univ.erase (b, i), if T p.1 p.2 = ⟨h, some x⟩ then 1 else 0 := by
    refine sum_congr rfl fun p hp => ?_
    rw [set_of_ne _ _ fun he => ne_of_mem_erase hp (Prod.ext he.1 he.2)]
  unfold count
  rw [← add_sum_erase _ _ (mem_univ (b, i)),
    ← add_sum_erase _ (fun p : β × Fin K => if T p.1 p.2 = ⟨h, some x⟩ then 1 else 0)
      (mem_univ (b, i))]
  dsimp only
  rw [set_self]
  omega

/-- **Moving back** duplicates what the first position holds, and loses nothing. -/
lemma Movable.count_moveBack (hm : Movable c₁ c₂ T (p :: ps)) (h : η) (x : ν) :
    count (moveBack (p :: ps) T) h x =
      count T h x + if T p.1 p.2 = ⟨h, some x⟩ then 1 else 0 := by
  induction ps generalizing p with
  | nil =>
    cases hm with
    | last hdead _ =>
      rw [if_neg fun hs => by simp [hs] at hdead]
      rfl
  | cons q rest ih =>
    obtain ⟨b, i⟩ := p
    obtain ⟨b', j⟩ := q
    cases hm with
    | step hfull hother hnew hrest =>
      have hcount := ih hrest
      have hset := count_set (moveBack ((b', j) :: rest) T) b' j (T b i) h x
      rw [moveBack_of_not_mem hrest.head_new] at hset
      rw [moveBack_cons hnew]
      dsimp only at hcount hset ⊢
      omega

end Count

/-- A slot that moving back has written to is live. -/
lemma Movable.moveBack_cases (hm : Movable c₁ c₂ T ps) (b : β) (i : Fin K) :
    moveBack ps T b i = T b i ∨ (moveBack ps T b i).node.isSome := by
  induction hm with
  | last _ _ => exact .inl rfl
  | step hfull _ hnew _ ih =>
    rw [moveBack_cons hnew, set_apply]
    split_ifs
    · exact .inr (hfull _)
    · exact ih

end Update

/-! ## Lookup -/

section Lookup

variable [DecidableEq η]

/-- The node of the first slot with the given hash. -/
def findInBucket (bucket : Fin K → Slot η ν) (h : η) : Option ν :=
  match Fin.find? fun i => decide ((bucket i).hash = h) with
  | some i => (bucket i).node
  | none => none

/-- A lookup in the first candidate and, if it finds nothing, in the second. -/
def lookup (c₁ c₂ : η → β) (T : Table β η ν K) (h : η) : Option ν :=
  match findInBucket (T (c₁ h)) h with
  | some x => some x
  | none => findInBucket (T (c₂ h)) h

variable {bucket : Fin K → Slot η ν} {T : Table β η ν K}

lemma exists_of_findInBucket (hx : findInBucket bucket h = some x) :
    ∃ i, bucket i = ⟨h, some x⟩ := by
  unfold findInBucket at hx
  split at hx
  · next i hi =>
    rw [Fin.find?_eq_some_iff, decide_eq_true_eq] at hi
    exact ⟨i, by rw [← hi.1, ← hx]⟩
  · simp at hx

/-- **A lookup finds exactly the live slots.** -/
lemma Placed.lookup_eq_some_iff (hp : Placed c₁ c₂ T.view) :
    lookup c₁ c₂ T h = some x ↔ ∃ b i, T b i = ⟨h, some x⟩ := by
  constructor
  · intro hx
    unfold lookup at hx
    split at hx
    · next y hy =>
      cases hx
      exact ⟨_, exists_of_findInBucket hy⟩
    · exact ⟨_, exists_of_findInBucket hx⟩
  · rintro ⟨b, i, hs⟩
    have hv : T.view b i = some ⟨h, some x⟩ := congrArg some hs
    have hne : ∀ {b' j}, (T b' j).hash = h → T.view b' j = some ⟨h, (T b' j).node⟩ := by
      intro b' j hj
      rw [Table.view, ← hj]
    have hin : findInBucket (T b) h = some x := by
      have hfind : Fin.find? (fun i => decide ((T b i).hash = h)) = some i := by
        rw [Fin.find?_eq_some_iff]
        exact ⟨by simp [hs], fun j hj => decide_eq_false fun hjh => hp.first hv j hj _ (hne hjh)⟩
      simp [findInBucket, hfind, hs]
    by_cases hb : b = c₁ h
    · rw [hb] at hin
      simp [lookup, hin]
    · have hb2 : b = c₂ h := (hp.candidate hv).resolve_left hb
      have hout : findInBucket (T (c₁ h)) h = none := by
        have hfind : Fin.find? (fun i => decide ((T (c₁ h) i).hash = h)) = none := by
          rw [Fin.find?_eq_none_iff]
          exact fun j => decide_eq_false fun hjh => hp.exclusive hv hb j _ (hne hjh)
        simp [findInBucket, hfind]
      rw [hb2] at hin
      simp [lookup, hout, hin]

section LookupUpdate

variable [DecidableEq β]

/-- A lookup after a node was stored, in terms of the live slots elsewhere. -/
lemma Placed.lookup_set {b : β} (hp : Placed c₁ c₂ (Table.view (set T b i ⟨h, some x⟩)))
    {L : η → Option ν}
    (hL : ∀ g, g ≠ h → ∀ y, L g = some y ↔ ∃ b' i', withHole T (b, i) b' i' = some ⟨g, some y⟩)
    (g : η) : lookup c₁ c₂ (set T b i ⟨h, some x⟩) g = if g = h then some x else L g := by
  split
  · next hg =>
    rw [hp.lookup_eq_some_iff]
    exact ⟨b, i, by rw [set_self, hg]⟩
  · next hg =>
    refine Option.ext fun y => ?_
    rw [hp.lookup_eq_some_iff, hL g hg]
    refine exists₂_congr fun b' i' => ?_
    rw [withHole_eq_some_iff]
    rw [set_apply]
    split_ifs with hbi <;> simp [hbi, Ne.symm hg]

/-- A lookup after the node of a live slot was removed. -/
lemma Placed.lookup_kill (hp : Placed c₁ c₂ T.view) {b : β} (hs : T b i = ⟨h, some x⟩) (g : η) :
    lookup c₁ c₂ (set T b i ⟨h, none⟩) g = if g = h then none else lookup c₁ c₂ T g := by
  have hp' := hp.kill (congrArg some hs)
  rw [← view_set] at hp'
  refine Option.ext fun y => ?_
  rw [hp'.lookup_eq_some_iff]
  split
  · next hg =>
    simp only [reduceCtorEq, iff_false]
    rintro ⟨b', i', hs'⟩
    rw [set_apply] at hs'
    split_ifs at hs' with hne
    · simp at hs'
    · rw [hg] at hs'
      exact hne (hp.unique (congrArg some hs') (congrArg some hs))
  · next hg =>
    rw [hp.lookup_eq_some_iff]
    refine exists₂_congr fun b' i' => ?_
    rw [set_apply]
    split_ifs with hbi
    · simp [hbi, hs, Ne.symm hg]
    · rfl

end LookupUpdate

end Lookup

end Cuckoo

end OVS
