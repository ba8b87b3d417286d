import Mathlib.Order.Basic

/-!
# Programs that fail without losing their state

A `Prog σ ε α` reads and writes a state of type `σ` and either returns an `α` or stops with an
`ε`.  Unlike in an exception monad over states, a failure keeps the state that the program has
reached: that is what a C function leaves behind when it returns an error half way through.

`Spec P m Q E` is the triple: from a state in which `P` holds, `m` either returns `a` in a state
in which `Q a` holds, or stops with `e` in a state in which `E e` holds.  The rules follow the
constructions of programs: `Spec.bind` for sequences, `Spec.each` for a loop over a list, with an
invariant indexed by the part of the list already processed.
-/

namespace OVS

/-- A program with state `σ` that returns an `α` or stops with an `ε`. -/
def Prog (σ ε α : Type) := σ → Except ε α × σ

namespace Prog

variable {σ ε α β : Type}

instance : Monad (Prog σ ε) where
  pure a s := (.ok a, s)
  bind m f s :=
    match m s with
    | (.ok a, s') => f a s'
    | (.error e, s') => (.error e, s')

/-- The current state. -/
def get : Prog σ ε σ := fun s => (.ok s, s)

/-- Changes the state. -/
def modify (f : σ → σ) : Prog σ ε Unit := fun s => (.ok (), f s)

/-- Stops. -/
def throw (e : ε) : Prog σ ε α := fun s => (.error e, s)

/-- Runs `f` on a value that may be missing. -/
def ifSome (x : Option α) (f : α → Prog σ ε Unit) : Prog σ ε Unit :=
  match x with
  | none => pure ()
  | some a => f a

/-- Runs `f` on the elements of a list, one after the other. -/
def each (f : α → Prog σ ε Unit) : List α → Prog σ ε Unit
  | [] => pure ()
  | x :: xs => do
    f x
    each f xs

/-- What holds of the result of a program. -/
def Outcome (Q : α → σ → Prop) (E : ε → σ → Prop) : Except ε α × σ → Prop
  | (.ok a, s) => Q a s
  | (.error e, s) => E e s

/-- The triple. -/
def Spec (P : σ → Prop) (m : Prog σ ε α) (Q : α → σ → Prop) (E : ε → σ → Prop) : Prop :=
  ∀ s, P s → Outcome Q E (m s)

variable {P P' : σ → Prop} {m : Prog σ ε α} {Q Q' : α → σ → Prop} {E E' : ε → σ → Prop}
  {R : β → σ → Prop}

lemma Outcome.imp {r : Except ε α × σ} (h : Outcome Q E r) (hQ : ∀ a s, Q a s → Q' a s)
    (hE : ∀ e s, E e s → E' e s) : Outcome Q' E' r := by
  rcases r with ⟨_ | _, s⟩
  · exact hE _ _ h
  · exact hQ _ _ h

section

variable (h : Spec P m Q E)
include h

lemma Spec.ok {s s' : σ} {a : α} (hs : P s) (hm : m s = (.ok a, s')) : Q a s' := by
  have := h s hs
  rwa [hm] at this

lemma Spec.error {s s' : σ} {e : ε} (hs : P s) (hm : m s = (.error e, s')) : E e s' := by
  have := h s hs
  rwa [hm] at this

omit h in
/-- A program that cannot fail returns. -/
lemma Spec.returns (h : Spec P m Q fun _ _ => False) {s : σ} (hs : P s) :
    ∃ a s', m s = (.ok a, s') ∧ Q a s' := by
  have hout := h s hs
  cases hm : m s with
  | mk r s' =>
    rw [hm] at hout
    cases r with
    | ok a => exact ⟨a, s', rfl, hout⟩
    | error e => exact hout.elim

/-- The rule of consequence. -/
lemma Spec.conseq (hP : ∀ s, P' s → P s) (hQ : ∀ a s, Q a s → Q' a s) (hE : ∀ e s, E e s → E' e s) :
    Spec P' m Q' E' :=
  fun s hs => (h s (hP s hs)).imp hQ hE

lemma Spec.pre (hP : ∀ s, P' s → P s) : Spec P' m Q E :=
  fun s hs => h s (hP s hs)

lemma Spec.post (hQ : ∀ a s, Q a s → Q' a s) : Spec P m Q' E :=
  fun s hs => (h s hs).imp hQ fun _ _ he => he

lemma Spec.and (h' : Spec P m Q' E') :
    Spec P m (fun a s => Q a s ∧ Q' a s) (fun e s => E e s ∧ E' e s) := by
  intro s hs
  have hout := h s hs
  have hout' := h' s hs
  cases hm : m s with
  | mk r s' =>
    rw [hm] at hout hout'
    cases r <;> exact ⟨hout, hout'⟩

end

/-- Reasoning from a fixed initial state. -/
lemma Spec.intro (h : ∀ s0, P s0 → Spec (· = s0) m Q E) : Spec P m Q E :=
  fun s hs => h s hs s rfl

lemma Spec.pure {a : α} (h : ∀ s, P s → Q a s) : Spec P (Pure.pure a : Prog σ ε α) Q E := h

lemma Spec.throw {e : ε} (h : ∀ s, P s → E e s) : Spec P (throw e : Prog σ ε α) Q E := h

lemma Spec.modify {f : σ → σ} {Q : Unit → σ → Prop} (h : ∀ s, P s → Q () (f s)) :
    Spec P (modify f : Prog σ ε Unit) Q E := h

lemma Spec.bind {f : α → Prog σ ε β} (hm : Spec P m Q E) (hf : ∀ a, Spec (Q a) (f a) R E) :
    Spec P (m >>= f) R E := by
  intro s hs
  have hout := hm s hs
  change Outcome R E (match m s with
    | (.ok a, s') => f a s'
    | (.error e, s') => (.error e, s'))
  cases hm' : m s with
  | mk r s' =>
    rw [hm'] at hout
    cases r with
    | ok a => exact hf a s' hout
    | error e => exact hout

/-- Reading the state, then going on with a program that depends on it. -/
lemma Spec.get_bind {f : σ → Prog σ ε β} (h : ∀ s0, P s0 → Spec (· = s0) (f s0) R E) :
    Spec P (get >>= f) R E :=
  fun s hs => h s hs s rfl

lemma Spec.ite {c : Prop} [Decidable c] {m1 m2 : Prog σ ε α} (h1 : c → Spec P m1 Q E)
    (h2 : ¬ c → Spec P m2 Q E) : Spec P (if c then m1 else m2) Q E := by
  split
  · exact h1 ‹_›
  · exact h2 ‹_›

variable {f : α → Prog σ ε Unit}

lemma Spec.ifSome {x : Option α} {Q : Unit → σ → Prop} (hnone : x = none → ∀ s, P s → Q () s)
    (hsome : ∀ a, x = some a → Spec P (f a) Q E) : Spec P (Prog.ifSome x f) Q E := by
  cases x with
  | none => exact Spec.pure (hnone rfl)
  | some a => exact hsome a rfl

/-- A change of the state that depends on a value that may be missing. -/
lemma Spec.ifSome_modify (x : Option α) (f : α → σ → σ) (s : σ) :
    Spec (· = s) (Prog.ifSome x fun a => Prog.modify (f a) : Prog σ ε Unit)
      (fun _ s' => s' = x.elim s fun a => f a s) E := by
  cases x with
  | none => exact Spec.pure fun _ hs => hs
  | some a => exact Spec.modify fun _ hs => by rw [hs]; rfl

/-- **A loop over a list**, with an invariant indexed by the part already processed. -/
lemma Spec.each {xs : List α} (I : List α → σ → Prop) (h : ∀ pre x post, xs = pre ++ x :: post →
      Spec (I pre) (f x) (fun _ => I (pre ++ [x])) E) :
    Spec (I []) (Prog.each f xs) (fun _ => I xs) E := by
  have key : ∀ pre post, xs = pre ++ post →
      Spec (I pre) (Prog.each f post) (fun _ => I xs) E := by
    intro pre post hxs
    induction post generalizing pre with
    | nil =>
      rw [List.append_nil] at hxs
      subst hxs
      exact Spec.pure fun _ hs => hs
    | cons x post ih =>
      refine Spec.bind (h pre x post hxs) fun _ => ih (pre ++ [x]) ?_
      rw [hxs, List.append_assoc, List.singleton_append]
  exact key [] xs rfl

/-- A loop that keeps an invariant. -/
lemma Spec.each_inv {xs : List α} {I : σ → Prop} (h : ∀ x ∈ xs, Spec I (f x) (fun _ => I) E) :
    Spec I (Prog.each f xs) (fun _ => I) E :=
  Spec.each (fun _ => I) fun pre x post hxs => h x (by simp [hxs])

end Prog

end OVS
