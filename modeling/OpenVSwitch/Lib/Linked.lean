import Mathlib.Data.List.Nodup
import Mathlib.Logic.Function.Basic

/-!
# Singly linked chains in a heap

A heap of nodes is a function `next` from a node to its successor.  `Chain next start l` says
that following `next` from `start` visits exactly the nodes of `l`, in that order, and then
reaches the null pointer.  A chain is determined by its start (`Chain.unique`) and so visits no
node twice (`Chain.nodup`).

Updates are covered by two rules: `Chain.congr`, for writes to nodes outside the chain, and
`Chain.relink`, for redirecting the link in front of a node.
-/

namespace OVS

open List Function

variable {α : Type}

/-- Following `next` from `start` visits exactly `l`. -/
def Chain (next : α → Option α) : Option α → List α → Prop
  | none, [] => True
  | some x, y :: l => x = y ∧ Chain next (next x) l
  | _, _ => False

variable {next next' : α → Option α} {start : Option α} {l l' : List α} {x : α}

@[simp] lemma chain_none : Chain next none l ↔ l = [] := by
  cases l <;> simp [Chain]

@[simp] lemma chain_some_cons {x y : α} :
    Chain next (some x) (y :: l) ↔ x = y ∧ Chain next (next x) l := Iff.rfl

@[simp] lemma not_chain_some_nil : ¬ Chain next (some x) [] := id

lemma chain_cons {y : α} : Chain next start (y :: l) ↔ start = some y ∧ Chain next (next y) l := by
  cases start with
  | none => simp
  | some x =>
    simp only [Option.some.injEq]
    exact and_congr_right fun h => by rw [h]

lemma chain_nil : Chain next start [] ↔ start = none := by
  cases start <;> simp

/-- A chain is determined by where it starts. -/
lemma Chain.unique (h : Chain next start l) (h' : Chain next start l') : l = l' := by
  induction l generalizing start l' with
  | nil =>
    rw [chain_nil.1 h, chain_none] at h'
    exact h'.symm
  | cons x l ih =>
    obtain ⟨rfl, htail⟩ := chain_cons.1 h
    cases l' with
    | nil => exact absurd h' not_chain_some_nil
    | cons y l' =>
      obtain ⟨rfl, htail'⟩ := h'
      rw [ih htail htail']

/-- The rest of a chain, from any of its nodes. -/
lemma Chain.suffix {pre post : List α} (h : Chain next start (pre ++ x :: post)) :
    Chain next (next x) post := by
  induction pre generalizing start with
  | nil => exact (chain_cons.1 h).2
  | cons y pre ih => exact ih (chain_cons.1 h).2

/-- **A chain visits no node twice**: it would start over from there and never end. -/
lemma Chain.nodup (h : Chain next start l) : l.Nodup := by
  induction l generalizing start with
  | nil => exact nodup_nil
  | cons x l ih =>
    have hl := (chain_cons.1 h).2
    refine nodup_cons.2 ⟨fun hx => ?_, ih hl⟩
    obtain ⟨pre, post, rfl⟩ := append_of_mem hx
    have hlen := congrArg length (hl.suffix.unique hl)
    simp at hlen
    omega

/-- Writes to nodes outside a chain do not change it. -/
lemma Chain.congr (h : Chain next start l) (heq : ∀ x ∈ l, next' x = next x) :
    Chain next' start l := by
  induction l generalizing start with
  | nil => rwa [chain_nil] at h ⊢
  | cons x l ih =>
    rw [chain_cons] at h ⊢
    refine ⟨h.1, ?_⟩
    rw [heq x (by simp)]
    exact ih h.2 fun y hy => heq y (by simp [hy])

section Update

variable [DecidableEq α]

lemma Chain.update_of_not_mem (h : Chain next start l) (hx : x ∉ l) (v : Option α) :
    Chain (update next x v) start l :=
  h.congr fun _ hy => update_of_ne (ne_of_mem_of_not_mem hy hx) v next

/-- A new node in front of a chain. -/
lemma Chain.cons_update (h : Chain next start l) (hx : x ∉ l) :
    Chain (update next x start) (some x) (x :: l) :=
  ⟨rfl, by rw [update_self]; exact h.update_of_not_mem hx start⟩

/-- **Redirecting a link.**  If the node behind `pre` and `p` is cut off and the link of `p`
points to the start of another chain, the nodes up to `p` are followed by that chain. -/
lemma Chain.relink {pre post : List α} {p : α} {target : Option α}
    (h : Chain next start (pre ++ p :: post)) (ht : Chain next target l)
    (hdisj : ∀ x ∈ pre ++ [p], x ∉ l) :
    Chain (update next p target) start (pre ++ p :: l) := by
  have hnd := h.nodup
  induction pre generalizing start with
  | nil =>
    obtain ⟨rfl, -⟩ := chain_cons.1 h
    exact ht.cons_update (hdisj p (by simp))
  | cons x pre ih =>
    rw [cons_append, chain_cons] at h ⊢
    rw [cons_append, nodup_cons] at hnd
    have hxp : x ≠ p := fun he => hnd.1 (by simp [he])
    refine ⟨h.1, ?_⟩
    rw [update_of_ne hxp]
    exact ih h.2 (fun y hy => hdisj y (by simp at hy ⊢; tauto)) hnd.2

end Update

end OVS
