import Mathlib.Algebra.Order.BigOperators.Group.Finset
import Mathlib.Algebra.Order.Ring.Int
import Mathlib.Data.List.Count
import Mathlib.Tactic.Abel

/-!
# In-degrees of a finite multigraph

A multigraph is given by the list `out k` of the targets of every node `k`; the nodes with an edge
are in a finite set `K`.  `inDegree K out x` is the number of edges that end in `x`.  Reference
counters are in-degrees that a program maintains: `inDegree_update` says what happens to them when
the edges of one node are replaced, and `inDegree_pos_iff` that a counter is positive exactly when
somebody refers to the node.
-/

namespace OVS

open Function Finset

variable {α : Type} [BEq α]

/-- The number of edges that end in `x`. -/
def inDegree (K : Finset α) (out : α → List α) (x : α) : ℤ := ∑ k ∈ K, ((out k).count x : ℤ)

variable {K K' : Finset α} {out : α → List α} {x : α}

lemma inDegree_nonneg : 0 ≤ inDegree K out x :=
  sum_nonneg fun _ _ => Int.natCast_nonneg _

/-- A node has a positive in-degree exactly if there is an edge to it. -/
lemma inDegree_pos_iff [LawfulBEq α] : 0 < inDegree K out x ↔ ∃ k ∈ K, x ∈ out k := by
  rw [inDegree, sum_pos_iff_of_nonneg fun _ _ => Int.natCast_nonneg _]
  simp only [Int.natCast_pos, List.count_pos_iff]

/-- The edges of one node are replaced. -/
lemma inDegree_update [DecidableEq α] {k : α} (hk : k ∈ K) (l : List α) :
    inDegree K (update out k l) x = inDegree K out x - (out k).count x + l.count x := by
  rw [inDegree, inDegree, ← add_sum_erase K _ hk, ← add_sum_erase K _ hk, update_self]
  have hrest : ∑ k' ∈ K.erase k, ((update out k l k').count x : ℤ) =
      ∑ k' ∈ K.erase k, ((out k').count x : ℤ) := by
    refine sum_congr rfl fun k' hk' => ?_
    rw [update_of_ne (ne_of_mem_erase hk')]
  rw [hrest]
  abel

end OVS
