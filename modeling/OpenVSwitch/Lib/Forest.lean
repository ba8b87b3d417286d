import Mathlib.Combinatorics.SimpleGraph.Acyclic

/-!
# Forests given by parents

A graph in which every edge leads from a vertex to its parent is a forest, provided that the way
from a vertex to its parent goes down in some order.

* `Forest.isAcyclic` — there is no cycle: at its highest vertex, both neighbours would be the
  parent.
* `Forest.exists_root` — every vertex is connected to one without a parent.
-/

namespace OVS

variable {V α : Type*} [LinearOrder α]

/-- The edges of a graph lead from vertices to their parents, and parents have a lower rank. -/
structure Forest (G : SimpleGraph V) (parent : V → Option V) (rank : V → α) : Prop where
  adj_iff : ∀ v w, G.Adj v w ↔ parent v = some w ∨ parent w = some v
  rank_lt : ∀ v w, parent v = some w → rank w < rank v

namespace Forest

variable {G : SimpleGraph V} {parent : V → Option V} {rank : V → α}

/-- A neighbour that is not higher is the parent. -/
lemma parent_eq (h : Forest G parent rank) {v w : V} (hadj : G.Adj v w) (hle : rank w ≤ rank v) :
    parent v = some w := by
  rcases (h.adj_iff v w).1 hadj with hparent | hparent
  · exact hparent
  · exact absurd (h.rank_lt w v hparent) (not_lt.2 hle)

/-- **There is no cycle.** -/
theorem isAcyclic (h : Forest G parent rank) : G.IsAcyclic := by
  classical
  intro v c hc
  obtain ⟨u, hu, hmax⟩ := c.support.toFinset.exists_max_image rank
    ⟨v, List.mem_toFinset.2 c.start_mem_support⟩
  simp only [List.mem_toFinset] at hu hmax
  -- both neighbours of a highest vertex are its parent
  have hcycle := hc.rotate hu
  have hsupport : ∀ w ∈ (c.rotate u hu).support, rank w ≤ rank u := by
    intro w hw
    exact hmax w ((c.mem_support_rotate_iff u hu).1 hw)
  have hsnd := h.parent_eq ((c.rotate u hu).adj_snd hcycle.not_nil)
    (hsupport _ (SimpleGraph.Walk.getVert_mem_support _ _))
  have hpen := h.parent_eq ((c.rotate u hu).adj_penultimate hcycle.not_nil).symm
    (hsupport _ (SimpleGraph.Walk.getVert_mem_support _ _))
  rw [hsnd, Option.some.injEq] at hpen
  exact hcycle.snd_ne_penultimate hpen

/-- **Every vertex is connected to a root.** -/
theorem exists_root [WellFoundedLT α] (h : Forest G parent rank) (v : V) :
    ∃ r, parent r = none ∧ G.Reachable v r := by
  induction hrank : rank v using WellFoundedLT.induction generalizing v with
  | ind a ih =>
    cases hparent : parent v with
    | none => exact ⟨v, hparent, .refl v⟩
    | some w =>
      obtain ⟨r, hr, hreach⟩ := ih (rank w) (hrank ▸ h.rank_lt v w hparent) w rfl
      exact ⟨r, hr, ((h.adj_iff v w).2 (.inl hparent)).reachable.trans hreach⟩

end Forest

end OVS
