import Mathlib.Data.List.Basic
import Mathlib.Logic.Function.Basic

/-!
# Prefix tries with compressed paths

A multiset of bit strings, kept so that all stored prefixes of a value are found in one walk.  A
node has the bits that all strings below it share, at most `c` of them, how many times the string
that ends at the node is stored, and an edge for each next bit.

`Trie.count` says how often a string is stored.  `insert` and `remove` are described by it
(`count_insert`, `count_remove`), and so is a lookup:

* `mem_lookup` — the lengths that it returns are those of the stored prefixes of the value.
* `lookupFrom_depth` — as many bits as it returns decide which stored strings are not prefixes.

How many nodes there are on the way to a string depends on what has been stored before, too.
`depth_le` and `length_le_depth` are bounds for it that do not.
-/

namespace OVS

open List Function

/-- How many bits two strings have in common at the front. -/
def commonLength : List Bool → List Bool → ℕ
  | a :: as, b :: bs => if a = b then commonLength as bs + 1 else 0
  | _, _ => 0

lemma commonLength_append (q r : List Bool) : commonLength q (q ++ r) = q.length := by
  induction q with
  | nil => simp [commonLength]
  | cons a q ih => simp [commonLength, ih]

@[simp] lemma commonLength_self (q : List Bool) : commonLength q q = q.length := by
  simpa using commonLength_append q []

lemma commonLength_append_append (d q p : List Bool) :
    commonLength (d ++ q) (d ++ p) = d.length + commonLength q p := by
  induction d with
  | nil => simp
  | cons a d ih =>
    simp only [cons_append, commonLength, if_true, ih, length_cons]
    omega

lemma commonLength_short (p r : List Bool) : commonLength (p ++ r) p = p.length := by
  induction p with
  | nil => cases r <;> rfl
  | cons a p ih => simp [commonLength, ih]

lemma commonLength_diverge (d : List Bool) (b : Bool) (q r : List Bool) :
    commonLength (d ++ b :: q) (d ++ (!b) :: r) = d.length := by
  induction d with
  | nil => cases b <;> rfl
  | cons a d ih => simp [commonLength, ih]

/-- The second string has all of the first, or the first goes on where the second ends, or they
part. -/
lemma prefix_cases (q p : List Bool) :
    (∃ r, p = q ++ r) ∨ (∃ b q', q = p ++ b :: q') ∨
      ∃ d b q' r, q = d ++ b :: q' ∧ p = d ++ (!b) :: r := by
  induction q generalizing p with
  | nil => exact .inl ⟨p, rfl⟩
  | cons a q ih =>
    cases p with
    | nil => exact .inr (.inl ⟨a, q, rfl⟩)
    | cons b p =>
      by_cases hab : b = a
      · subst hab
        obtain ⟨r, rfl⟩ | ⟨a, q', rfl⟩ | ⟨d, a, q', r, rfl, rfl⟩ := ih p
        · exact .inl ⟨r, rfl⟩
        · exact .inr (.inl ⟨a, q', rfl⟩)
        · exact .inr (.inr ⟨b :: d, a, q', r, rfl, rfl⟩)
      · refine .inr (.inr ⟨[], a, q, p, rfl, ?_⟩)
        rw [Bool.eq_not_of_ne hab]
        rfl

/-- A trie of bit strings. -/
inductive Trie where
  | nil
  | node (bits : List Bool) (nRules : ℕ) (edges : Bool → Trie)

namespace Trie

/-- There is no trie. -/
def isNil : Trie → Bool
  | nil => true
  | node _ _ _ => false

/-- How many times a string is stored. -/
def count : Trie → List Bool → ℕ
  | nil, _ => 0
  | node bits n edges, p =>
    if bits.isPrefixOf p then
      match p.drop bits.length with
      | [] => n
      | b :: r => count (edges b) (b :: r)
    else 0

/-- The strings of a trie begin with `b`. -/
def StartsWith (b : Bool) : Trie → Prop
  | nil => True
  | node bits _ _ => bits.head? = some b

/-- Edges lead to strings that begin with their bit, and no node is in vain. -/
def Wf : Trie → Prop
  | nil => True
  | node _ n edges =>
    (0 < n ∨ ∃ b, edges b ≠ nil) ∧ (∀ b, StartsWith b (edges b)) ∧ ∀ b, Wf (edges b)

/-- A chain of nodes for a new string, by the number of its bits. -/
def branchFuel (c : ℕ) : ℕ → List Bool → ℕ → Trie
  | 0, p, n => node p n fun _ => nil
  | fuel + 1, p, n =>
    if p.length ≤ c then node p n fun _ => nil
    else node (p.take c) 0
      (update (fun _ => nil) (p.getD c false) (branchFuel c fuel (p.drop c) n))

/-- A trie with one string, `n` times. -/
def branch (c : ℕ) (p : List Bool) (n : ℕ) : Trie := branchFuel c p.length p n

/-- One more of a string.  A node whose bits it does not have, or not all of, is split. -/
def insert (c : ℕ) : Trie → List Bool → Trie
  | nil, p => branch c p 1
  | node bits n edges, p =>
    let k := commonLength bits p
    if k < bits.length then
      node (p.take k) (if k = p.length then 1 else 0) fun b =>
        if b = bits.getD k false then node (bits.drop k) n edges
        else if k < p.length then branch c (p.drop k) 1
        else nil
    else if k = p.length then node bits (n + 1) edges
    else
      let b := p.getD k false
      node bits n (update edges b (insert c (edges b) (p.drop k)))

/-- A node without a string of its own is not needed if it has at most one edge, unless there are
too many bits for one node. -/
def prune (c : ℕ) : Trie → Trie
  | node bits 0 edges =>
    match edges false, edges true with
    | nil, nil => nil
    | node bits' n edges', nil =>
      if bits.length + bits'.length > c then node bits 0 edges
      else node (bits ++ bits') n edges'
    | nil, node bits' n edges' =>
      if bits.length + bits'.length > c then node bits 0 edges
      else node (bits ++ bits') n edges'
    | node _ _ _, node _ _ _ => node bits 0 edges
  | t => t

/-- One less of a string, if there is one.  What is above a node that goes may go too. -/
def remove (c : ℕ) : Trie → List Bool → Trie
  | nil, _ => nil
  | node bits n edges, p =>
    let k := commonLength bits p
    if k < bits.length then node bits n edges
    else if k = p.length then
      if n = 0 then node bits n edges else prune c (node bits (n - 1) edges)
    else
      let b := p.getD k false
      let next := remove c (edges b) (p.drop k)
      let t := node bits n (update edges b next)
      if next.isNil && !(edges b).isNil then prune c t else t

/-- How many edges the walk to a string follows, until it has come to the end of the string, or to
where there is nothing that begins like it. -/
def depth : Trie → List Bool → ℕ
  | nil, _ => 0
  | node bits _ edges, p =>
    let k := commonLength bits p
    if k < bits.length then 0
    else if k = p.length then 0
    else depth (edges (p.getD k false)) (p.drop k) + 1

/-- A walk along a value from `matchLen` bits on: how many bits decide what is not a prefix of it,
and the lengths of what is.  `leaf` says that there are no edges above. -/
def lookupFrom : Trie → Bool → List Bool → ℕ → ℕ × List ℕ
  | nil, leaf, _, matchLen => (if leaf then matchLen else matchLen + 1, [])
  | node bits n edges, _, v, matchLen =>
    let k := commonLength bits v
    if k < bits.length then (matchLen + k + 1, [])
    else
      let plens := if 0 < n then [matchLen + k] else []
      match v.drop k with
      | [] => (matchLen + k, plens)
      | b :: r =>
        let res := lookupFrom (edges b) ((edges false).isNil && (edges true).isNil) (b :: r)
          (matchLen + k)
        (res.1, plens ++ res.2)

/-- The walk from the root. -/
def lookup (t : Trie) (v : List Bool) : ℕ × List ℕ := lookupFrom t true v 0

/-! ## What is stored -/

@[simp] lemma count_nil (p : List Bool) : count nil p = 0 := rfl

variable {t : Trie} {bits p q r v : List Bool} {n c matchLen : ℕ} {edges : Bool → Trie}
  {b leaf : Bool}

lemma isNil_iff : t.isNil = true ↔ t = nil := by
  cases t <;> simp [isNil]

/-- Below a node that holds the whole of the string's beginning, counting goes on in the child of
the next bit. -/
lemma count_node_append : count (node bits n edges) (bits ++ r) =
      match r with
      | [] => n
      | b :: r => count (edges b) (b :: r) := by
  have hpre : bits.isPrefixOf (bits ++ r) = true := isPrefixOf_iff_prefix.2 ⟨r, rfl⟩
  simp only [count, hpre, if_true, drop_left]

/-- A string that does not begin with a node's bits is not counted anywhere below it. -/
lemma count_node_of_diverges (h : ¬bits <+: p) : count (node bits n edges) p = 0 := by
  have hpre : bits.isPrefixOf p = false := by
    rw [Bool.eq_false_iff]
    exact fun h' => h ( isPrefixOf_iff_prefix.1 h')
  simp [count, hpre]

/-- The bits a node and a string have in common in front may be dropped from both. -/
lemma count_node_shift :
    count (node (p ++ q) n edges) (p ++ r) = count (node q n edges) r := by
  by_cases hpre : q <+: r
  · obtain ⟨r, rfl⟩ := hpre
    rw [← append_assoc, count_node_append, count_node_append]
  · rw [count_node_of_diverges hpre, count_node_of_diverges]
    exact fun h => hpre ((prefix_append_right_inj p).1 h)

lemma prefix_of_count (h : 0 < count (node bits n edges) p) : ∃ r, p = bits ++ r := by
  by_contra hno
  rw [count_node_of_diverges fun ⟨r, hr⟩ => hno ⟨r, hr.symm⟩] at h
  exact Nat.lt_irrefl 0 h

/-- The child of one bit counts no string that begins with the other. -/
lemma count_of_startsWith (h : StartsWith b t) (hp : p.head? ≠ some b) : count t p = 0 := by
  cases t with
  | nil => rfl
  | node bits n edges =>
    refine count_node_of_diverges ?_
    rintro ⟨r, rfl⟩
    cases bits with
    | nil => cases h
    | cons a bits => exact hp h

lemma count_single (p : List Bool) (n : ℕ) (p' : List Bool) :
    count (node p n fun _ => nil) p' = if p' = p then n else 0 := by
  by_cases hpre : p <+: p'
  · obtain ⟨r, rfl⟩ := hpre
    rw [count_node_append]
    cases r <;> simp
  · rw [count_node_of_diverges hpre, if_neg]
    rintro rfl
    exact hpre (prefix_refl _)

/-- A string that is longer than `c`, cut there. -/
lemma exists_drop_eq_cons (h : c < p.length) : ∃ b s, p.drop c = b :: s ∧ p.getD c false = b := by
  cases hdrop : p.drop c with
  | nil =>
    rw [drop_eq_nil_iff] at hdrop
    omega
  | cons b s =>
    refine ⟨b, s, rfl, ?_⟩
    rw [getD_eq_getElem?_getD, ← head?_drop, hdrop]
    rfl

/-- A chain of nodes spells one string and counts that string alone. -/
lemma count_branchFuel (hc : 0 < c) (fuel : ℕ) (p : List Bool) (n : ℕ) (hfuel : p.length ≤ fuel)
    (p' : List Bool) : count (branchFuel c fuel p n) p' = if p' = p then n else 0 := by
  induction fuel generalizing p p' with
  | zero => exact count_single p n p'
  | succ fuel ih =>
    unfold branchFuel
    split
    · exact count_single p n p'
    · rename_i hlong
      obtain ⟨b, s, hs, hb⟩ := exists_drop_eq_cons (Nat.lt_of_not_le hlong)
      have hlen : (b :: s).length ≤ fuel := by
        rw [← hs, length_drop]
        omega
      rw [hb, hs]
      by_cases hpre : p.take c <+: p'
      · obtain ⟨r, rfl⟩ := hpre
        have heq : p.take c ++ r = p ↔ r = b :: s := by
          conv_lhs => rhs; rw [← take_append_drop c p, hs]
          exact append_right_inj _
        rw [count_node_append]
        simp only [heq]
        cases r with
        | nil => simp
        | cons a r =>
          by_cases hab : a = b
          · subst hab
            simp only [update_self]
            exact ih (a :: s) hlen (a :: r)
          · simp [hab]
      · rw [count_node_of_diverges hpre, if_neg]
        rintro rfl
        exact hpre ( take_prefix _ _)

@[simp] lemma count_branch {c : ℕ} (hc : 0 < c) (p : List Bool) (n : ℕ) (p' : List Bool) :
    count (branch c p n) p' = if p' = p then n else 0 :=
  count_branchFuel hc p.length p n (Nat.le_refl _) p'

/-- Such a chain is well formed and begins with the first bit of its string. -/
lemma branchFuel_wf (hc : 0 < c) (fuel : ℕ) (p : List Bool) (hn : 0 < n) :
    Wf (branchFuel c fuel p n) ∧ ∀ b, p.head? = some b → StartsWith b (branchFuel c fuel p n) := by
  induction fuel generalizing p with
  | zero => exact ⟨⟨.inl hn, fun _ => trivial, fun _ => trivial⟩, fun b hb => hb⟩
  | succ fuel ih =>
    unfold branchFuel
    split
    · exact ⟨⟨.inl hn, fun _ => trivial, fun _ => trivial⟩, fun b hb => hb⟩
    · rename_i hlong
      obtain ⟨b, s, hs, hb⟩ := exists_drop_eq_cons (Nat.lt_of_not_le hlong)
      obtain ⟨hwf, hstart⟩ := ih (b :: s)
      have hne : branchFuel c fuel (b :: s) n ≠ nil := by
        cases fuel <;> unfold branchFuel
        · simp
        · split <;> simp
      rw [hb, hs]
      refine ⟨⟨.inr ⟨b, by simpa using hne⟩, ?_, ?_⟩, fun a ha => ?_⟩
      · exact (forall_update_iff _ StartsWith).2 ⟨hstart b rfl, fun _ _ => trivial⟩
      · exact (forall_update_iff _ fun _ => Wf).2 ⟨hwf, fun _ _ => trivial⟩
      · show (p.take c).head? = some a
        rw [head?_take, if_neg (by omega)]
        exact ha

/-! The three ways in which a string can lie to the bits of a node. -/

/-- A string that goes on after a node's bits is inserted below it. -/
lemma insert_append : insert c (node bits n edges) (bits ++ r) =
      match r with
      | [] => node bits (n + 1) edges
      | b :: r => node bits n (update edges b (insert c (edges b) (b :: r))) := by
  cases r with
  | nil => simp [insert]
  | cons b r => simp [insert, commonLength_append]

/-- A string that ends inside a node's bits splits the node and is counted at the upper half. -/
lemma insert_short : insert c (node (p ++ b :: q) n edges) p =
      node p 1 fun a => if a = b then node (b :: q) n edges else nil := by
  simp [insert, commonLength_short]

/-- A string that leaves a node's bits splits the node and gets a branch of its own. -/
lemma insert_diverge : insert c (node (p ++ b :: q) n edges) (p ++ (!b) :: r) =
      node p 0 fun a => if a = b then node (b :: q) n edges else branch c ((!b) :: r) 1 := by
  simp [insert, commonLength_diverge]

/-- **Inserting a string stores it once more.** -/
theorem count_insert (hc : 0 < c) (t : Trie) (p p' : List Bool) :
    count (insert c t p) p' = count t p' + if p' = p then 1 else 0 := by
  induction t generalizing p p' with
  | nil => simp [insert, hc]
  | node bits n edges ih =>
    obtain ⟨r, rfl⟩ | ⟨b, q, rfl⟩ | ⟨d, b, q, r, rfl, rfl⟩ := prefix_cases bits p
    · rw [insert_append]
      by_cases hpre : bits <+: p'
      · obtain ⟨r', rfl⟩ := hpre
        rw [count_node_append]
        cases r with
        | nil =>
          rw [count_node_append]
          cases r' <;> simp
        | cons b r =>
          rw [count_node_append]
          cases r' with
          | nil => simp
          | cons a r' =>
            by_cases hab : a = b
            · subst hab
              simpa using ih a (a :: r) (a :: r')
            · simp [hab]
      · have hne : p' ≠ bits ++ r := fun h => hpre (h ▸ prefix_append _ _)
        rw [if_neg hne]
        cases r <;> simp [count_node_of_diverges hpre]
    · rw [insert_short]
      by_cases hpre : p <+: p'
      · obtain ⟨r', rfl⟩ := hpre
        rw [count_node_append, count_node_shift]
        cases r' with
        | nil => simp [count]
        | cons a r' =>
          by_cases hab : a = b
          · simp [hab]
          · have hzero : count (node (b :: q) n edges) (a :: r') = 0 :=
              count_of_startsWith rfl (by simpa using hab)
            simp [hab, hzero]
      · have hne : p' ≠ p := fun h => hpre (h ▸ prefix_refl _)
        rw [count_node_of_diverges hpre, count_node_of_diverges, if_neg hne]
        exact fun h => hpre ((prefix_append _ _).trans h)
    · rw [insert_diverge]
      by_cases hpre : d <+: p'
      · obtain ⟨r', rfl⟩ := hpre
        rw [count_node_append, count_node_shift]
        cases r' with
        | nil => simp [count]
        | cons a r' =>
          by_cases hab : a = b
          · simp [hab]
          · have hzero : count (node (b :: q) n edges) (a :: r') = 0 :=
              count_of_startsWith rfl (by simpa using hab)
            simp [hab, hzero, hc]
      · have hne : p' ≠ d ++ (!b) :: r := fun h => hpre (h ▸ prefix_append _ _)
        rw [count_node_of_diverges hpre, count_node_of_diverges, if_neg hne]
        exact fun h => hpre ((prefix_append _ _).trans h)

lemma insert_ne_nil (c : ℕ) (t : Trie) (p : List Bool) : insert c t p ≠ nil := by
  cases t with
  | nil =>
    unfold insert branch
    cases p.length <;> unfold branchFuel
    · simp
    · split <;> simp
  | node bits n edges =>
    unfold insert
    simp only
    split
    · simp
    · split <;> simp

/-- A child keeps its first bit when a string with that bit is inserted. -/
lemma StartsWith.insert (h : StartsWith b t) (hc : 0 < c) (hp : p.head? = some b) :
    StartsWith b (insert c t p) := by
  cases t with
  | nil => exact (branchFuel_wf hc _ p Nat.one_pos).2 b hp
  | node bits n edges =>
    obtain ⟨r, rfl⟩ | ⟨a, q, rfl⟩ | ⟨d, a, q, r, rfl, rfl⟩ := prefix_cases bits p
    · rw [insert_append]
      cases r <;> exact h
    · rw [insert_short]
      exact hp
    · rw [insert_diverge]
      cases d with
      | nil =>
        have h1 : a = b := Option.some.inj h
        cases a <;> simp_all
      | cons a' d => exact h

/-- **A trie stays well formed when a string is inserted.** -/
theorem Wf.insert (h : t.Wf) (hc : 0 < c) (p : List Bool) : (insert c t p).Wf := by
  induction t generalizing p with
  | nil => exact (branchFuel_wf hc _ p Nat.one_pos).1
  | node bits n edges ih =>
    obtain ⟨hfull, hstart, hwf⟩ := h
    obtain ⟨r, rfl⟩ | ⟨b, q, rfl⟩ | ⟨d, b, q, r, rfl, rfl⟩ := prefix_cases bits p
    · rw [insert_append]
      cases r with
      | nil => exact ⟨.inl (Nat.succ_pos n), hstart, hwf⟩
      | cons b r =>
        refine ⟨.inr ⟨b, by simpa using insert_ne_nil c (edges b) (b :: r)⟩, ?_, ?_⟩
        · exact (forall_update_iff _ StartsWith).2
            ⟨(hstart b).insert hc rfl, fun a _ => hstart a⟩
        · exact (forall_update_iff _ fun _ => Wf).2 ⟨ih b (hwf b) (b :: r), fun a _ => hwf a⟩
    · rw [insert_short]
      refine ⟨.inl Nat.one_pos, fun a => ?_, fun a => ?_⟩
      · by_cases hab : a = b <;> simp [hab, StartsWith]
      · by_cases hab : a = b
        · simpa [hab] using ⟨hfull, hstart, hwf⟩
        · simp [hab, Wf]
    · rw [insert_diverge]
      refine ⟨.inr ⟨b, by simp⟩, fun a => ?_, fun a => ?_⟩
      · by_cases hab : a = b
        · simp [hab, StartsWith]
        · simp only [hab]
          exact (branchFuel_wf hc _ _ Nat.one_pos).2 a (by simp [Bool.eq_not_of_ne hab])
      · by_cases hab : a = b
        · simpa [hab] using ⟨hfull, hstart, hwf⟩
        · simp only [hab]
          exact (branchFuel_wf hc _ _ Nat.one_pos).1

/-! ## Removal -/

/-- A string that goes on after a node's bits is removed below it, and the node is pruned if that
child went. -/
lemma remove_append : remove c (node bits n edges) (bits ++ r) =
      match r with
      | [] => if n = 0 then node bits n edges else prune c (node bits (n - 1) edges)
      | b :: r =>
        let next := remove c (edges b) (b :: r)
        let t := node bits n (update edges b next)
        if next.isNil && !(edges b).isNil then prune c t else t := by
  cases r with
  | nil => simp [remove]
  | cons b r => simp [remove, commonLength_append]

/-- Nothing is removed for a string that leaves a node's bits. -/
lemma remove_of_diverges (h : ¬bits <+: p) :
    remove c (node bits n edges) p = node bits n edges := by
  obtain ⟨r, rfl⟩ | ⟨b, q, rfl⟩ | ⟨d, b, q, r, rfl, rfl⟩ := prefix_cases bits p
  · exact absurd (prefix_append _ _) h
  · simp [remove, commonLength_short]
  · simp [remove, commonLength_diverge]

/-- What pruning a node without a string of its own can do. -/
lemma prune_cases (c : ℕ) (bits : List Bool) (n : ℕ) (edges : Bool → Trie) :
    (prune c (node bits n edges) = node bits n edges ∧ (0 < n ∨ ∃ b, edges b ≠ nil)) ∨
      (n = 0 ∧ (∀ b, edges b = nil) ∧ prune c (node bits n edges) = nil) ∨
      ∃ b bits' n' edges', n = 0 ∧ edges b = node bits' n' edges' ∧ edges (!b) = nil ∧
        prune c (node bits n edges) = node (bits ++ bits') n' edges' := by
  cases n with
  | succ n => exact .inl ⟨rfl, .inl (Nat.succ_pos n)⟩
  | zero =>
    cases hfalse : edges false with
    | nil =>
      cases htrue : edges true with
      | nil =>
        refine .inr (.inl ⟨rfl, fun b => by cases b <;> assumption, ?_⟩)
        simp only [prune, hfalse, htrue]
      | node bits' n' edges' =>
        simp only [prune, hfalse, htrue]
        by_cases hc : bits.length + bits'.length > c
        · exact .inl ⟨if_pos hc, .inr ⟨true, by simp [htrue]⟩⟩
        · exact .inr (.inr ⟨true, bits', n', edges', trivial, htrue, hfalse, if_neg hc⟩)
    | node bits' n' edges' =>
      cases htrue : edges true with
      | nil =>
        simp only [prune, hfalse, htrue]
        by_cases hc : bits.length + bits'.length > c
        · exact .inl ⟨if_pos hc, .inr ⟨false, by simp [hfalse]⟩⟩
        · exact .inr (.inr ⟨false, bits', n', edges', trivial, hfalse, htrue, if_neg hc⟩)
      | node _ _ _ =>
        refine .inl ⟨?_, .inr ⟨false, by simp [hfalse]⟩⟩
        simp only [prune, hfalse, htrue]

/-- Pruning merges nodes or drops an empty one, and no count changes. -/
lemma count_prune (c : ℕ) (bits : List Bool) (n : ℕ) (hstart : ∀ b, StartsWith b (edges b))
    (p : List Bool) : count (prune c (node bits n edges)) p = count (node bits n edges) p := by
  obtain ⟨heq, -⟩ | ⟨rfl, hnil, heq⟩ | ⟨b, bits', n', edges', rfl, hb, hnb, heq⟩ :=
    prune_cases c bits n edges
  · rw [heq]
  · rw [heq]
    by_cases hpre : bits <+: p
    · obtain ⟨r, rfl⟩ := hpre
      rw [count_node_append]
      cases r <;> simp [hnil]
    · rw [count_node_of_diverges hpre, count_nil]
  · rw [heq]
    have hbits : bits'.head? = some b := by
      have := hstart b
      rwa [hb] at this
    by_cases hpre : bits <+: p
    · obtain ⟨r, rfl⟩ := hpre
      rw [count_node_append, count_node_shift]
      cases r with
      | nil =>
        refine count_node_of_diverges fun h => ?_
        rw [prefix_nil.1 h] at hbits
        cases hbits
      | cons a r =>
        by_cases hab : a = b
        · subst hab
          simp [hb]
        · rw [Bool.eq_not_of_ne hab] at *
          simp only [hnb]
          exact count_of_startsWith hbits (by simp)
    · rw [count_node_of_diverges hpre, count_node_of_diverges]
      exact fun h => hpre ((prefix_append _ _).trans h)

/-- A node whose children are well formed is well formed once it is pruned, or gone. -/
lemma prune_wf (c : ℕ) (hstart : ∀ b, StartsWith b (edges b)) (hwf : ∀ b, Wf (edges b)) :
    Wf (prune c (node bits n edges)) := by
  obtain ⟨heq, hfull⟩ | ⟨rfl, hnil, heq⟩ | ⟨b, bits', n', edges', rfl, hb, hnb, heq⟩ :=
    prune_cases c bits n edges
  · rw [heq]
    exact ⟨hfull, hstart, hwf⟩
  · rw [heq]
    trivial
  · rw [heq]
    have hwf' := hwf b
    rw [hb] at hwf'
    exact hwf'

lemma StartsWith.prune {a : Bool} (h : bits.head? = some a) (c : ℕ) :
    StartsWith a (prune c (node bits n edges)) := by
  obtain ⟨heq, -⟩ | ⟨-, -, heq⟩ | ⟨b, bits', n', edges', -, -, -, heq⟩ :=
    prune_cases c bits n edges
  · rw [heq]
    exact h
  · rw [heq]
    trivial
  · rw [heq]
    cases bits with
    | nil => cases h
    | cons _ _ => exact h

/-- A child keeps its first bit under removal, unless it vanishes. -/
lemma StartsWith.remove {a : Bool} (h : StartsWith a t) (c : ℕ) (p : List Bool) :
    StartsWith a (remove c t p) := by
  cases t with
  | nil => trivial
  | node bits n edges =>
    by_cases hpre : bits <+: p
    · obtain ⟨r, rfl⟩ := hpre
      rw [remove_append]
      cases r with
      | nil =>
        simp only
        split
        · exact h
        · exact StartsWith.prune h c
      | cons b r =>
        simp only
        split
        · exact StartsWith.prune h c
        · exact h
    · rw [remove_of_diverges hpre]
      exact h

lemma startsWith_update_remove (h : ∀ b, StartsWith b (edges b)) (c : ℕ) (b : Bool)
    (p : List Bool) : ∀ a, StartsWith a (update edges b (remove c (edges b) p) a) :=
  (forall_update_iff _ StartsWith).2 ⟨(h b).remove c p, fun a _ => h a⟩

/-- **A trie stays well formed when a string is removed.** -/
theorem Wf.remove (h : t.Wf) (c : ℕ) (p : List Bool) : (remove c t p).Wf := by
  induction t generalizing p with
  | nil => trivial
  | node bits n edges ih =>
    by_cases hpre : bits <+: p
    · obtain ⟨r, rfl⟩ := hpre
      obtain ⟨hfull, hstart, hwf⟩ := h
      rw [remove_append]
      cases r with
      | nil =>
        simp only
        split
        · exact ⟨hfull, hstart, hwf⟩
        · exact prune_wf c hstart hwf
      | cons b r =>
        have hstart' := startsWith_update_remove hstart c b (b :: r)
        have hwf' : ∀ a, Wf (update edges b (Trie.remove c (edges b) (b :: r)) a) :=
          (forall_update_iff _ fun _ => Wf).2 ⟨ih b (hwf b) _, fun a _ => hwf a⟩
        simp only
        split
        · exact prune_wf c hstart' hwf'
        · rename_i hnil
          refine ⟨?_, hstart', hwf'⟩
          -- an edge that was there is still there
          obtain hn | ⟨a, ha⟩ := hfull
          · exact .inl hn
          · refine .inr ⟨a, ?_⟩
            by_cases hab : a = b
            · subst hab
              simp only [Bool.and_eq_true, isNil_iff, not_and] at hnil
              simp only [update_self]
              intro hnext
              exact hnil hnext (by simpa [← Bool.not_eq_true, isNil_iff] using ha)
            · simpa [hab] using ha
    · rw [remove_of_diverges hpre]
      exact h

/-- **Removing a string stores it once less.** -/
theorem count_remove (h : t.Wf) (c : ℕ) (p p' : List Bool) :
    count (remove c t p) p' = count t p' - if p' = p then 1 else 0 := by
  induction t generalizing p p' with
  | nil => simp [remove]
  | node bits n edges ih =>
    obtain ⟨-, hstart, hwf⟩ := h
    by_cases hpre : bits <+: p
    · obtain ⟨r, rfl⟩ := hpre
      rw [remove_append]
      cases r with
      | nil =>
        have hcount : count (if n = 0 then node bits n edges else prune c (node bits (n - 1) edges))
            p' = count (node bits (n - 1) edges) p' := by
          split
          · rename_i hn
            rw [hn]
          · exact count_prune c bits (n - 1) hstart p'
        rw [hcount]
        by_cases hpre' : bits <+: p'
        · obtain ⟨r', rfl⟩ := hpre'
          rw [count_node_append, count_node_append]
          cases r' <;> simp
        · rw [count_node_of_diverges hpre', count_node_of_diverges hpre', Nat.zero_sub]
      | cons b r =>
        have hcount : ∀ q : Bool, count (if q then
            prune c (node bits n (update edges b (remove c (edges b) (b :: r))))
            else node bits n (update edges b (remove c (edges b) (b :: r)))) p' =
            count (node bits n (update edges b (remove c (edges b) (b :: r)))) p' := by
          intro q
          split
          · exact count_prune c bits n (startsWith_update_remove hstart c b _) p'
          · rfl
        rw [hcount]
        by_cases hpre' : bits <+: p'
        · obtain ⟨r', rfl⟩ := hpre'
          rw [count_node_append, count_node_append]
          cases r' with
          | nil => simp
          | cons a r' =>
            by_cases hab : a = b
            · subst hab
              simpa using ih a (hwf a) (a :: r) (a :: r')
            · simp [hab]
        · rw [count_node_of_diverges hpre', count_node_of_diverges hpre', Nat.zero_sub]
    · rw [remove_of_diverges hpre]
      have hzero : p' = p → count (node bits n edges) p' = 0 := by
        rintro rfl
        exact count_node_of_diverges hpre
      split
      · rename_i heq
        rw [hzero heq]
      · rfl

/-! ## The way to a string -/

/-- The depth of a string grows by one with each node whose bits it passes. -/
lemma depth_append : depth (node bits n edges) (bits ++ r) =
      match r with
      | [] => 0
      | b :: r => depth (edges b) (b :: r) + 1 := by
  cases r with
  | nil => simp [depth]
  | cons b r => simp [depth, commonLength_append]

lemma depth_of_diverges (h : ¬bits <+: p) : depth (node bits n edges) p = 0 := by
  obtain ⟨r, rfl⟩ | ⟨b, q, rfl⟩ | ⟨d, b, q, r, rfl, rfl⟩ := prefix_cases bits p
  · exact absurd ( prefix_append _ _) h
  · simp [depth, commonLength_short]
  · simp [depth, commonLength_diverge]

/-- Behind an edge every node has bits of its own, so that there are at most as many nodes on the
way as the string has bits, and the root. -/
lemma depth_le_of_startsWith (h : t.Wf) (hstart : StartsWith b t) (r : List Bool) :
    depth t (b :: r) ≤ r.length := by
  induction t generalizing b r with
  | nil => exact Nat.zero_le _
  | node bits n edges ih =>
    by_cases hpre : bits <+: b :: r
    · obtain ⟨s, hs⟩ := hpre
      rw [← hs, depth_append]
      have hbits : bits ≠ [] := by
        rintro rfl
        cases hstart
      cases s with
      | nil => exact Nat.zero_le _
      | cons a s =>
        have hchild := ih a (h.2.2 a) (h.2.1 a) s
        have hlength := congrArg length hs
        have hpos := length_pos_iff.2 hbits
        simp only [length_append, length_cons] at hlength
        dsimp only
        omega
    · rw [depth_of_diverges hpre]
      exact Nat.zero_le _

/-- In a well-formed trie every node passed uses up at least one bit of the string. -/
lemma depth_le (h : t.Wf) (p : List Bool) : depth t p ≤ p.length := by
  cases t with
  | nil => exact Nat.zero_le _
  | node bits n edges =>
    by_cases hpre : bits <+: p
    · obtain ⟨r, rfl⟩ := hpre
      rw [depth_append, length_append]
      cases r with
      | nil => exact Nat.zero_le _
      | cons b r =>
        have hchild := depth_le_of_startsWith (h.2.2 b) (h.2.1 b) r
        simp only [length_cons]
        omega
    · rw [depth_of_diverges hpre]
      exact Nat.zero_le _

/-- The way to a stored string has a node wherever another one ends or parts from it. -/
lemma length_le_depth {lengths : List ℕ} (hp : 0 < count t p) (hlengths : lengths.Pairwise (· < ·))
    (h : ∀ l ∈ lengths, l < p.length ∧ ∃ q, 0 < count t q ∧ commonLength q p = l) :
    lengths.length ≤ depth t p := by
  induction t generalizing p lengths with
  | nil => exact absurd hp (Nat.lt_irrefl 0)
  | node bits n edges ih =>
    obtain ⟨r, rfl⟩ := prefix_of_count hp
    cases lengths with
    | nil => exact Nat.zero_le _
    | cons first rest =>
      rw [pairwise_cons] at hlengths
      -- the other strings have the bits of this node, too
      have hbits : ∀ l ∈ first :: rest, bits.length ≤ l ∧ l < (bits ++ r).length ∧
          ∃ s, 0 < count (node bits n edges) (bits ++ s) ∧ l = bits.length + commonLength s r := by
        intro l hl
        obtain ⟨hlt, q, hq, rfl⟩ := h l hl
        obtain ⟨s, rfl⟩ := prefix_of_count hq
        rw [commonLength_append_append] at hlt ⊢
        exact ⟨Nat.le_add_right _ _, hlt, s, hq, rfl⟩
      have hfirst := hbits first mem_cons_self
      cases r with
      | nil =>
        rw [append_nil] at hfirst
        omega
      | cons b r =>
        rw [count_node_append] at hp
        rw [depth_append, length_cons]
        have hmap : (rest.map fun l => l - bits.length).length = rest.length := length_map _
        refine Nat.succ_le_succ (hmap ▸ ih b hp ?_ ?_)
        · rw [pairwise_map]
          refine hlengths.2.imp_of_mem fun hl hl' hlt => ?_
          have hle := (hbits _ (mem_cons_of_mem _ hl)).1
          omega
        · rintro _ hmem
          obtain ⟨l, hl, rfl⟩ := mem_map.1 hmem
          obtain ⟨hle, hlt, s, hs, rfl⟩ := hbits l (mem_cons_of_mem _ hl)
          have hgt := hlengths.1 _ hl
          rw [length_append] at hlt
          refine ⟨by omega, ?_⟩
          -- what parts from the string behind this node is behind the same edge
          cases s with
          | nil =>
            simp only [commonLength] at hgt
            omega
          | cons a s =>
            have hab : a = b := by
              by_contra hab
              simp only [commonLength, hab, if_false] at hgt
              omega
            subst hab
            rw [count_node_append] at hs
            exact ⟨a :: s, hs, by omega⟩

/-! ## Lookup -/

/-- The lookup reports a node whose bits it passes when the node has rules, and goes on below it.
-/
lemma lookupFrom_append : lookupFrom (node bits n edges) leaf (bits ++ r) matchLen =
      match r with
      | [] => (matchLen + bits.length, if 0 < n then [matchLen + bits.length] else [])
      | b :: r =>
        let res := lookupFrom (edges b) ((edges false).isNil && (edges true).isNil) (b :: r)
          (matchLen + bits.length)
        (res.1, (if 0 < n then [matchLen + bits.length] else []) ++ res.2) := by
  cases r with
  | nil => simp [lookupFrom]
  | cons b r => simp [lookupFrom, commonLength_append]

/-- Where a string leaves a node's bits the lookup needs the first bit that differs and stops. -/
lemma lookupFrom_diverge : lookupFrom (node (p ++ b :: q) n edges) leaf (p ++ (!b) :: r) matchLen =
      (matchLen + p.length + 1, []) := by
  simp [lookupFrom, commonLength_diverge]

/-- Where a string ends inside a node's bits the lookup stops one bit further on. -/
lemma lookupFrom_short :
    lookupFrom (node (p ++ b :: q) n edges) leaf p matchLen = (matchLen + p.length + 1, []) := by
  simp [lookupFrom, commonLength_short]

/-- **The lengths that a walk returns are those of the stored prefixes of the value.** -/
theorem mem_lookupFrom (h : t.Wf) (l : ℕ) : l ∈ (lookupFrom t leaf v matchLen).2 ↔
      ∃ p, p <+: v ∧ 0 < count t p ∧ l = matchLen + p.length := by
  induction t generalizing leaf v matchLen with
  | nil => simp [lookupFrom]
  | node bits n edges ih =>
    obtain ⟨-, hstart, hwf⟩ := h
    -- what is stored below the node begins with its bits
    have hno : ¬bits <+: v → ¬∃ p, p <+: v ∧ 0 < count (node bits n edges) p ∧
        l = matchLen + p.length := by
      rintro hpre ⟨p, hp, hcount, -⟩
      obtain ⟨r, rfl⟩ := prefix_of_count hcount
      exact hpre ((prefix_append _ _).trans hp)
    obtain ⟨r, rfl⟩ | ⟨b, q, rfl⟩ | ⟨d, b, q, r, rfl, rfl⟩ := prefix_cases bits v
    · have hstored : (∃ p, p <+: bits ++ r ∧ 0 < count (node bits n edges) p ∧
          l = matchLen + p.length) ↔ (0 < n ∧ l = matchLen + bits.length) ∨
          ∃ a s, a :: s <+: r ∧ 0 < count (edges a) (a :: s) ∧
            l = matchLen + bits.length + (a :: s).length := by
        constructor
        · rintro ⟨p, hp, hcount, rfl⟩
          obtain ⟨s, rfl⟩ := prefix_of_count hcount
          rw [count_node_append] at hcount
          cases s with
          | nil => exact .inl ⟨hcount, by simp⟩
          | cons a s =>
            exact .inr ⟨a, s, (prefix_append_right_inj _).1 hp, hcount,
              by rw [length_append, Nat.add_assoc]⟩
        · rintro (⟨hn, rfl⟩ | ⟨a, s, hs, hcount, rfl⟩)
          · exact ⟨bits ++ [], by simp, by rwa [count_node_append], by simp⟩
          · exact ⟨bits ++ a :: s, (prefix_append_right_inj _).2 hs,
              by rwa [count_node_append], by rw [length_append, Nat.add_assoc]⟩
      rw [lookupFrom_append, hstored]
      cases r with
      | nil => by_cases hn : 0 < n <;> simp
      | cons b r =>
        simp only [mem_append, ih b (hwf b)]
        refine or_congr (by by_cases hn : 0 < n <;> simp) ⟨?_, ?_⟩
        · rintro ⟨p, hp, hcount, rfl⟩
          cases p with
          | nil =>
            rw [count_of_startsWith (hstart b) (by simp)] at hcount
            exact absurd hcount (Nat.lt_irrefl 0)
          | cons a s =>
            obtain rfl : a = b := (cons_prefix_cons.1 hp).1
            exact ⟨a, s, hp, hcount, rfl⟩
        · rintro ⟨a, s, hs, hcount, rfl⟩
          obtain rfl : a = b := (cons_prefix_cons.1 hs).1
          exact ⟨a :: s, hs, hcount, rfl⟩
    · rw [lookupFrom_short]
      refine ⟨by simp, fun h => absurd h (hno fun h => ?_)⟩
      have hlen := h.length_le
      rw [length_append, length_cons] at hlen
      omega
    · rw [lookupFrom_diverge]
      refine ⟨by simp, fun h => absurd h (hno fun h => ?_)⟩
      have := (cons_prefix_cons.1 ((prefix_append_right_inj _).1 h)).1
      cases b <;> cases this

/-- A walk looks at least as far as it has come, and at all the bits of the prefixes that it
finds. -/
lemma le_lookupFrom (t : Trie) (leaf : Bool) (v : List Bool) (matchLen : ℕ) :
    ∀ l ∈ matchLen :: (lookupFrom t leaf v matchLen).2, l ≤ (lookupFrom t leaf v matchLen).1 := by
  induction t generalizing leaf v matchLen with
  | nil =>
    unfold lookupFrom
    split <;> simp
  | node bits n edges ih =>
    obtain ⟨r, rfl⟩ | ⟨b, q, rfl⟩ | ⟨d, b, q, r, rfl, rfl⟩ := prefix_cases bits v
    · rw [lookupFrom_append]
      cases r with
      | nil => simp
      | cons b r =>
        obtain ⟨hself, hfound⟩ := forall_mem_cons.1 (ih b
          ((edges false).isNil && (edges true).isNil) (b :: r) (matchLen + bits.length))
        refine forall_mem_cons.2 ⟨Nat.le_trans (Nat.le_add_right _ _) hself,
          forall_mem_append.2 ⟨?_, hfound⟩⟩
        split
        · exact forall_mem_singleton.2 hself
        · exact forall_mem_nil _
    · rw [lookupFrom_short]
      exact forall_mem_singleton.2 (Nat.le_trans (Nat.le_add_right _ _) (Nat.le_succ _))
    · rw [lookupFrom_diverge]
      exact forall_mem_singleton.2 (Nat.le_trans (Nat.le_add_right _ _) (Nat.le_succ _))

/-- A walk that takes an edge looks at the bit of the edge. -/
lemma lt_lookupFrom (h : StartsWith b t) (hleaf : t = nil → leaf = false) (r : List Bool) :
    matchLen < (lookupFrom t leaf (b :: r) matchLen).1 := by
  cases t with
  | nil =>
    rw [hleaf rfl]
    exact Nat.lt_succ_self _
  | node bits n edges =>
    have hbits : 0 < bits.length := by
      cases bits with
      | nil => cases h
      | cons _ _ => exact Nat.succ_pos _
    obtain ⟨s, hs⟩ | ⟨a, q, rfl⟩ | ⟨d, a, q, s, rfl, hs⟩ := prefix_cases bits (b :: r)
    · rw [hs, lookupFrom_append]
      cases s with
      | nil => exact Nat.lt_add_of_pos_right hbits
      | cons a s =>
        exact Nat.lt_of_lt_of_le (Nat.lt_add_of_pos_right hbits)
          (le_lookupFrom (edges a) _ (a :: s) (matchLen + bits.length) _ mem_cons_self)
    · rw [lookupFrom_short]
      exact Nat.lt_succ_of_le (Nat.le_add_right _ _)
    · rw [hs, lookupFrom_diverge]
      exact Nat.lt_succ_of_le (Nat.le_add_right _ _)

/-- **A walk looks as far as where the value parts from a stored string.** -/
lemma lookupFrom_depth (h : t.Wf) (leaf : Bool) (matchLen : ℕ) (hcount : 0 < count t p)
    (hlen : p.length ≤ v.length) (hnot : ¬p <+: v) :
    ∃ d b p' v', p = d ++ b :: p' ∧ v = d ++ (!b) :: v' ∧
      matchLen + d.length < (lookupFrom t leaf v matchLen).1 := by
  induction t generalizing leaf v matchLen p with
  | nil => cases hcount
  | node bits n edges ih =>
    obtain ⟨-, hstart, hwf⟩ := h
    obtain ⟨s, rfl⟩ := prefix_of_count hcount
    rw [count_node_append] at hcount
    obtain ⟨r, rfl⟩ | ⟨b, q, rfl⟩ | ⟨d, b, q, r, rfl, rfl⟩ := prefix_cases bits v
    · rw [length_append, length_append] at hlen
      rw [prefix_append_right_inj] at hnot
      cases s with
      | nil => exact absurd nil_prefix hnot
      | cons a s =>
        cases r with
        | nil =>
          rw [length_cons, length_nil] at hlen
          omega
        | cons b r =>
          rw [lookupFrom_append]
          by_cases hab : a = b
          · subst hab
            obtain ⟨d, b, p', v', hp, hv, hlt⟩ := ih a (hwf a)
              ((edges false).isNil && (edges true).isNil) (matchLen + bits.length) hcount
              (Nat.le_of_add_le_add_left hlen) hnot
            refine ⟨bits ++ d, b, p', v', by rw [hp, append_assoc], by rw [hv, append_assoc], ?_⟩
            rw [length_append, ← Nat.add_assoc]
            exact hlt
          · have hb : (!a) = b := (Bool.eq_not_of_ne fun h => hab h.symm).symm
            refine ⟨bits, a, s, r, rfl, by rw [hb], lt_lookupFrom (hstart b) (fun _ => ?_) r⟩
            -- the string that is stored is behind the other edge
            have hne : (edges a).isNil = false := by
              cases ha : edges a with
              | nil =>
                simp [ha] at hcount
              | node _ _ _ => rfl
            cases a <;> simp [hne]
    · rw [length_append, length_append, length_cons] at hlen
      omega
    · refine ⟨d, b, q ++ s, r, by simp, rfl, ?_⟩
      rw [lookupFrom_diverge]
      exact Nat.lt_succ_self _

/-- The lengths that a lookup returns. -/
theorem mem_lookup (h : t.Wf) (v : List Bool) (l : ℕ) :
    l ∈ (lookup t v).2 ↔ ∃ p, p <+: v ∧ 0 < count t p ∧ l = p.length := by
  rw [lookup, mem_lookupFrom h]
  simp only [Nat.zero_add]

/-- **As many bits as a lookup returns decide**: a value that has them too has no other stored
prefixes. -/
theorem prefix_of_lookup (h : t.Wf) {v v' : List Bool}
    (hv : v'.take (lookup t v).1 = v.take (lookup t v).1) (hcount : 0 < count t p)
    (hlen : p.length ≤ v.length) (hp : p <+: v') : p <+: v := by
  by_contra hnot
  obtain ⟨d, b, p', r, rfl, rfl, hlt⟩ := lookupFrom_depth h true 0 hcount hlen hnot
  rw [Nat.zero_add] at hlt
  obtain ⟨s, rfl⟩ := hp
  have hbit := congrArg (fun l => l[d.length]?) hv
  rw [lookup, getElem?_take_of_lt hlt, getElem?_take_of_lt hlt] at hbit
  simp at hbit

/-- A value with the bits that a lookup looks at has the same stored prefixes. -/
theorem prefix_lookup_iff (h : t.Wf) {v v' : List Bool}
    (hv : v'.take (lookup t v).1 = v.take (lookup t v).1) (hcount : 0 < count t p)
    (hlen : p.length ≤ v.length) : p <+: v' ↔ p <+: v := by
  refine ⟨prefix_of_lookup h hv hcount hlen, fun hp => ?_⟩
  have hle : p.length ≤ (lookup t v).1 :=
    le_lookupFrom t true v 0 _ (mem_cons_of_mem _ ((mem_lookup h v _).2 ⟨p, hp, hcount, rfl⟩))
  have htake := congrArg (take p.length) hv
  rw [take_take, take_take, Nat.min_eq_left hle] at htake
  rw [prefix_iff_eq_take] at hp ⊢
  exact hp.trans htake.symm

end Trie

end OVS
