import Mathlib.Algebra.Order.BigOperators.Group.List
import Mathlib.Algebra.Order.Group.Nat
import Mathlib.Data.List.ReduceOption
import OpenVSwitch.Classifier.Search

/-!
# Conjunctive matches

When rules with conjunctions match a flow, `classifier_lookup()` looks at their priorities from the
greatest down.  For each one `find_conjunctive_match()` goes over the rules of that priority that
match, and keeps a word of 64 bits for each id.  It reports an id when the word is full, and only
then the flow is looked up with that `conj_id`.

**The word of an id** starts with the bits from `n_clauses` on, and each conjunction adds the bit of
its clause (`MatchesOk`).  This is a shift by `n_clauses % 64`, so that for 64 clauses the word is
full from the start.

**The cut-off.**  Conjunctions with more clauses than there are rules of the priority are skipped.
This is right as long as one of the ids that are complete has as many rules as clauses, and wrong
otherwise: a rule can have several clauses of one id.
-/

namespace OVS

open Flow List

/-! ## The clauses of an id -/

/-- The conjunctions of the soft matches of a priority. -/
def conjsAt (soft : List SoftMatch) (pri : ℤ) : List ClsConjunction :=
  (soft.filter fun m => m.1.priority = pri).flatMap fun m => m.1.conj

section

variable {N : BitVec 32 → ℕ}

/-- A conjunction with the number of clauses that its id has. -/
structure ConjOk (N : BitVec 32 → ℕ) (c : ClsConjunction) : Prop where
  nClauses : c.nClauses = N c.id
  lt : c.clause < c.nClauses
  le : c.nClauses ≤ 64

/-- The first clauses of the id are among the conjunctions. -/
def HasClauses (P : List ClsConjunction) (id : BitVec 32) (n : ℕ) : Prop :=
  ∀ k < n, ∃ c ∈ P, c.id = id ∧ c.clause = k

variable {P cs : List ClsConjunction} {ms : ConjunctiveMatches} {c : ClsConjunction}
  {soft : List SoftMatch} {pri : ℤ} {m : SoftMatch} {cls : Classifier} {id : BitVec 32} {n : ℕ}

lemma HasClauses.mono {P' : List ClsConjunction} (h : HasClauses P id n)
    (hsub : ∀ c ∈ P, c.id = id → c ∈ P') : HasClauses P' id n := by
  intro k hk
  obtain ⟨c, hc, hid, hclause⟩ := h k hk
  exact ⟨c, hsub c hc hid, hid, hclause⟩

/-- The word of an id, which is a new one if there is none. -/
def clausesOf (N : BitVec 32 → ℕ) (ms : ConjunctiveMatches) (id : BitVec 32) : BitVec 64 :=
  (ms.lookup id).getD (BitVec.allOnes 64 <<< (N id % 64))

/-- The words are those of the conjunctions so far. -/
def MatchesOk (N : BitVec 32 → ℕ) (ms : ConjunctiveMatches) (P : List ClsConjunction) : Prop :=
  ∀ id, ∀ b < 64, ((clausesOf N ms id).getLsbD b = true ↔
    N id % 64 ≤ b ∨ ∃ c ∈ P, c.id = id ∧ c.clause = b)

lemma matchesOk_nil : MatchesOk N [] [] := by
  intro id b hb
  simp only [clausesOf, lookup_nil, Option.getD_none, BitVec.getLsbD_shiftLeft,
    BitVec.getLsbD_allOnes]
  simp only [not_mem_nil, false_and, exists_false, or_false, Bool.and_eq_true,
    Bool.not_eq_true', decide_eq_true_eq, decide_eq_false_iff_not]
  omega

/-- A conjunction adds its clause. -/
lemma MatchesOk.cons (h : MatchesOk N ms P) (hc : ConjOk N c) :
    MatchesOk N ((c.id, conjClauses ms c ||| (1#64 <<< c.clause)) :: ms) (c :: P) := by
  intro id b hb
  by_cases heq : id = c.id
  · subst heq
    have hold := h c.id b hb
    have hword : conjClauses ms c = clausesOf N ms c.id := by
      rw [conjClauses, clausesOf, hc.nClauses]
    have hbit : (1#64 <<< c.clause).getLsbD b = true ↔ c.clause = b := by
      simp only [BitVec.getLsbD_shiftLeft, BitVec.getLsbD_one, Bool.and_eq_true,
        decide_eq_true_eq, Bool.not_eq_true', decide_eq_false_iff_not]
      omega
    have hnew : clausesOf N ((c.id, conjClauses ms c ||| (1#64 <<< c.clause)) :: ms) c.id =
        clausesOf N ms c.id ||| (1#64 <<< c.clause) := by
      rw [← hword]
      simp [clausesOf]
    rw [hnew, BitVec.getLsbD_or, Bool.or_eq_true, hold, hbit]
    simp only [mem_cons, exists_eq_or_imp, true_and]
    rw [or_assoc, or_comm (a := ∃ _, _)]
  · have hlookup : clausesOf N ((c.id, conjClauses ms c ||| (1#64 <<< c.clause)) :: ms) id =
        clausesOf N ms id := by
      unfold clausesOf
      rw [lookup_cons, beq_false_of_ne heq]
    rw [hlookup, h id b hb]
    simp only [mem_cons, exists_eq_or_imp, Ne.symm heq, false_and, false_or]

/-- A word is full exactly if each clause has a match, up to `n_clauses % 64`. -/
lemma MatchesOk.full_iff (h : MatchesOk N ms P) (id : BitVec 32) :
    clausesOf N ms id = BitVec.allOnes 64 ↔ HasClauses P id (N id % 64) := by
  constructor
  · intro hfull k hk
    have hbit := (h id k (by omega)).1 (by
      rw [hfull, BitVec.getLsbD_allOnes]
      exact decide_eq_true (by omega))
    exact hbit.resolve_left (by omega)
  · intro hdone
    refine BitVec.eq_of_getLsbD_eq fun b hb => ?_
    rw [BitVec.getLsbD_allOnes, decide_eq_true hb, h id b hb]
    by_cases hN : N id % 64 ≤ b
    · exact .inl hN
    · exact .inr (hdone b (not_le.1 hN))

/-- No id of the conjunctions has a full word. -/
def NoneFull (N : BitVec 32 → ℕ) (P : List ClsConjunction) : Prop :=
  ∀ c ∈ P, ¬ HasClauses P c.id (N c.id % 64)

/-- Only the word of the id of the conjunction can get full with it. -/
lemma NoneFull.cons (h : NoneFull N P) (hc : ¬ HasClauses (c :: P) c.id (N c.id % 64)) :
    NoneFull N (c :: P) := by
  refine forall_mem_cons.2 ⟨hc, fun c' hc' hfull => ?_⟩
  by_cases heq : c.id = c'.id
  · exact hc (heq ▸ hfull)
  · refine h c' hc' (hfull.mono fun c'' hc'' hid => (mem_cons.1 hc'').resolve_left ?_)
    rintro rfl
    exact heq hid

/-- What `find_conjunctive_match()` makes of the conjunctions `P` so far and those of a rule: the
conjunctions `P'` so far, and what it reports. -/
structure FindOk (N : BitVec 32 → ℕ) (maxNClauses : ℕ) (cs P P' : List ClsConjunction)
    (id : Option (BitVec 32)) : Prop where
  sub : ∀ c ∈ P', c ∈ cs ∨ c ∈ P
  sup : ∀ c ∈ P, c ∈ P'
  reports : ∀ i ∈ id, HasClauses P' i (N i % 64) ∧ ∃ c ∈ cs, c.id = i ∧ c.nClauses ≤ maxNClauses
  all : id = none → ∀ c ∈ cs, c.nClauses ≤ maxNClauses → c ∈ P'
  noneFull : id = none → NoneFull N P → NoneFull N P'

lemma findConjunctiveMatchLoop_ok {maxNClauses : ℕ} (hcs : ∀ c ∈ cs, ConjOk N c)
    (h : MatchesOk N ms P) : ∃ P', MatchesOk N (findConjunctiveMatchLoop maxNClauses cs ms).2 P' ∧
      FindOk N maxNClauses cs P P' (findConjunctiveMatchLoop maxNClauses cs ms).1 := by
  induction cs generalizing ms P with
  | nil => exact ⟨P, h, ⟨fun c hc => .inr hc, fun c hc => hc, by simp [findConjunctiveMatchLoop],
      by simp, fun _ hP => hP⟩⟩
  | cons c cs ih =>
    obtain ⟨hc, hcs'⟩ := forall_mem_cons.1 hcs
    have hone := h.cons hc
    have hword : clausesOf N ((c.id, conjClauses ms c ||| (1#64 <<< c.clause)) :: ms) c.id =
        conjClauses ms c ||| (1#64 <<< c.clause) := by simp [clausesOf]
    have hfull := hone.full_iff c.id
    rw [hword] at hfull
    unfold findConjunctiveMatchLoop
    split
    · obtain ⟨P', hP', hfind⟩ := ih hcs' h
      refine ⟨P', hP', ⟨fun c' hc' => (hfind.sub c' hc').imp_left (mem_cons_of_mem _),
        hfind.sup, fun i hi => ?_, fun hnone c' hc' hle => ?_, hfind.noneFull⟩⟩
      · obtain ⟨hdone, c', hc', hid⟩ := hfind.reports i hi
        exact ⟨hdone, c', mem_cons_of_mem _ hc', hid⟩
      · obtain rfl | hc' := mem_cons.1 hc'
        · omega
        · exact hfind.all hnone c' hc' hle
    · rename_i hle
      simp only
      split
      · rename_i hall
        refine ⟨c :: P, hone, ⟨fun c' hc' => ?_, fun c' hc' => mem_cons_of_mem _ hc',
          fun i hi => ?_, nofun, nofun⟩⟩
        · exact (mem_cons.1 hc').imp_left fun h => mem_cons.2 (.inl h)
        · obtain rfl := Option.some.inj hi
          exact ⟨hfull.1 hall, c, mem_cons_self, rfl, not_lt.1 hle⟩
      · rename_i hall
        obtain ⟨P', hP', hfind⟩ := ih hcs' hone
        refine ⟨P', hP', ⟨fun c' hc' => ?_, fun c' hc' => hfind.sup c' (mem_cons_of_mem _ hc'),
          fun i hi => ?_, fun hnone c' hc' hle => ?_, fun hnone hP => ?_⟩⟩
        · obtain hc' | hc' := hfind.sub c' hc'
          · exact .inl (mem_cons_of_mem _ hc')
          · exact (mem_cons.1 hc').imp_left fun h => mem_cons.2 (.inl h)
        · obtain ⟨hdone, c', hc', hid⟩ := hfind.reports i hi
          exact ⟨hdone, c', mem_cons_of_mem _ hc', hid⟩
        · obtain rfl | hc' := mem_cons.1 hc'
          · exact hfind.sup c' mem_cons_self
          · exact hfind.all hnone c' hc' hle
        · exact hfind.noneFull hnone (hP.cons fun hdone => hall (hfull.2 hdone))

/-- The least number of clauses is at most each number. -/
lemma minNClauses_le (hc : c ∈ cs) : minNClauses cs ≤ c.nClauses := by
  have hmem : c.nClauses ∈ cs.map ClsConjunction.nClauses := mem_map_of_mem hc
  cases hmin : (cs.map ClsConjunction.nClauses).min? with
  | none => simp [min?_eq_none_iff.1 hmin] at hmem
  | some n =>
    rw [minNClauses, hmin]
    exact (min?_eq_some_iff.1 hmin).2 _ hmem

/-- **`find_conjunctive_match()` reports an id exactly when its last clause comes.** -/
lemma findConjunctiveMatch_ok (maxNClauses : ℕ) (hcs : ∀ c ∈ cs, ConjOk N c) (h : MatchesOk N ms P)
    : ∃ P', MatchesOk N (findConjunctiveMatch cs maxNClauses ms).2 P' ∧
      FindOk N maxNClauses cs P P' (findConjunctiveMatch cs maxNClauses ms).1 := by
  unfold findConjunctiveMatch
  split
  · refine ⟨P, h, ⟨fun c hc => .inr hc, fun c hc => hc, by simp, fun _ c hc hle => ?_,
      fun _ hP => hP⟩⟩
    have hle' := minNClauses_le hc
    omega
  · exact findConjunctiveMatchLoop_ok hcs h

/-! ## The rules of one priority -/

lemma conjsAt_cons_of_eq (h : m.1.priority = pri) :
    conjsAt (m :: soft) pri = m.1.conj ++ conjsAt soft pri := by
  simp [conjsAt, h]

lemma conjsAt_cons_of_ne (h : m.1.priority ≠ pri) : conjsAt (m :: soft) pri = conjsAt soft pri := by
  simp [conjsAt, h]

variable {C : ClsConfig} {l : List (Option SoftMatch)} {hard : ℤ} {wc : Option Flow}

/-- **An id is only looked up when its word is full.  If no id is looked up, none has a full word**,
apart from those with too many clauses. -/
lemma conjunctiveLookup_ok {flow : Flow} {nSoftPri : ℕ}
    (hsoft : ∀ c ∈ conjsAt soft pri, ConjOk N c) (h : MatchesOk N ms P) (wc : Option Flow) :
    (∀ id ∈ (conjunctiveLookup C cls flow pri nSoftPri soft ms wc).2.2,
      HasClauses (conjsAt soft pri ++ P) id (N id % 64) ∧
        ∃ c ∈ conjsAt soft pri, c.id = id ∧ c.nClauses ≤ nSoftPri) ∧
    (NoneFull N P → (conjunctiveLookup C cls flow pri nSoftPri soft ms wc).2.2 = [] →
      ∃ P', NoneFull N P' ∧ (∀ c ∈ P, c ∈ P') ∧
        ∀ c ∈ conjsAt soft pri, c.nClauses ≤ nSoftPri → c ∈ P') := by
  induction soft generalizing ms P wc with
  | nil => exact ⟨by simp [conjunctiveLookup], fun hP _ =>
      ⟨P, hP, fun c hc => hc, by simp [conjsAt]⟩⟩
  | cons m soft ih =>
    unfold conjunctiveLookup
    split
    · rename_i hpri
      rw [conjsAt_cons_of_eq hpri] at hsoft ⊢
      obtain ⟨P', hP', hfind⟩ := findConjunctiveMatch_ok nSoftPri
        (fun c hc => hsoft c (mem_append_left _ hc)) h
      have ih := ih (fun c hc => hsoft c (mem_append_right _ hc)) hP'
      have hsub : ∀ c ∈ P', c ∈ m.1.conj ++ conjsAt soft pri ++ P := by
        intro c hc
        obtain hc | hc := hfind.sub c hc <;> simp [hc]
      have hrest : ∀ {wc : Option Flow}, ∀ id ∈ (conjunctiveLookup C cls flow pri nSoftPri soft
          (findConjunctiveMatch m.1.conj nSoftPri ms).2 wc).2.2,
          HasClauses (m.1.conj ++ conjsAt soft pri ++ P) id (N id % 64) ∧
            ∃ c ∈ m.1.conj ++ conjsAt soft pri, c.id = id ∧ c.nClauses ≤ nSoftPri := by
        intro wc id hid
        obtain ⟨hdone, c, hc, heq⟩ := (ih wc).1 id hid
        refine ⟨hdone.mono fun c' hc' _ => ?_, c, mem_append_right _ hc, heq⟩
        obtain hc' | hc' := mem_append.1 hc'
        · simp [hc']
        · exact hsub c' hc'
      cases hres : (findConjunctiveMatch m.1.conj nSoftPri ms).1 with
      | none =>
        simp only [hres]
        refine ⟨hrest, fun hP hnil => ?_⟩
        obtain ⟨P'', hP'', hsup, hall⟩ := (ih wc).2 (hfind.noneFull hres hP) hnil
        refine ⟨P'', hP'', fun c hc => hsup c (hfind.sup c hc), fun c hc hle => ?_⟩
        obtain hc | hc := mem_append.1 hc
        · exact hsup c (hfind.all hres c hc hle)
        · exact hall c hc hle
      | some i =>
        have hfirst : HasClauses (m.1.conj ++ conjsAt soft pri ++ P) i (N i % 64) ∧
            ∃ c ∈ m.1.conj ++ conjsAt soft pri, c.id = i ∧ c.nClauses ≤ nSoftPri := by
          obtain ⟨hdone, c, hc, heq⟩ := hfind.reports i hres
          exact ⟨hdone.mono fun c' hc' _ => hsub c' hc', c, mem_append_left _ hc, heq⟩
        simp only [hres]
        split
        · exact ⟨forall_mem_singleton.2 hfirst, fun _ hnil => by cases hnil⟩
        · exact ⟨forall_mem_cons.2 ⟨hfirst, hrest⟩, fun _ hnil => by cases hnil⟩
    · rename_i hpri
      rw [conjsAt_cons_of_ne hpri] at hsoft ⊢
      exact ih hsoft h wc

/-- **One round reports an id exactly if there is one whose word gets full**, among those that do
not have too many clauses. -/
lemma conjunctiveLookup_iff {flow : Flow} {nSoftPri : ℕ}
    (hsoft : ∀ c ∈ conjsAt soft pri, ConjOk N c) (wc : Option Flow) :
    let ids := (conjunctiveLookup C cls flow pri nSoftPri soft [] wc).2.2
    (∀ id ∈ ids, HasClauses (conjsAt soft pri) id (N id % 64) ∧
        ∃ c ∈ conjsAt soft pri, c.id = id ∧ c.nClauses ≤ nSoftPri) ∧
      ∀ c ∈ conjsAt soft pri, c.nClauses ≤ nSoftPri →
        HasClauses (conjsAt soft pri) c.id (N c.id % 64) → ids ≠ [] := by
  have h := @conjunctiveLookup_ok N [] [] soft pri cls C flow nSoftPri hsoft matchesOk_nil wc
  rw [append_nil] at h
  refine ⟨h.1, fun c hc hle hfull hnil => ?_⟩
  obtain ⟨P', hP', -, hall⟩ := h.2 (by simp [NoneFull]) hnil
  refine hP' c (hall c hc hle) (hfull.mono fun c' hc' hid => hall c' hc' ?_)
  rwa [(hsoft c' hc').nClauses, hid, ← (hsoft c hc).nClauses]

/-! ## The soft match loop -/

/-- What is left after the soft matches that can not win are deleted. -/
lemma deleteSoft_perm {fuel : ℕ} (hfuel : l.length ≤ fuel) :
    (deleteSoft hard fuel l).Perm (l.reduceOption.filter fun m => hard < m.1.priority) := by
  induction fuel generalizing l with
  | zero =>
    rw [length_eq_zero_iff.1 (Nat.le_zero.1 hfuel)]
    exact .refl _
  | succ fuel ih =>
    cases l with
    | nil => exact .refl _
    | cons x l =>
      have hlen : l.length ≤ fuel := by simpa using hfuel
      -- the last one in the place of one that goes
      have hmove : ∀ last, l.getLast? = some last → (deleteSoft hard fuel (last :: l.dropLast)).Perm
          (l.reduceOption.filter fun m => hard < m.1.priority) := by
        intro last hlast
        have hl : l.dropLast ++ [last] = l := dropLast_append_getLast? last hlast
        have hperm : (last :: l.dropLast).Perm l :=
          (perm_append_singleton last l.dropLast).symm.trans (.of_eq hl)
        exact (ih (hperm.length_eq.trans_le hlen)).trans ((hperm.filterMap id).filter _)
      unfold deleteSoft
      cases x with
      | none =>
        rw [reduceOption_cons_of_none]
        cases hlast : l.getLast? with
        | none =>
          rw [getLast?_eq_none_iff.1 hlast]
          exact .refl _
        | some last => exact hmove last hlast
      | some m =>
        rw [reduceOption_cons_of_some]
        simp only
        split
        · rename_i hle
          rw [filter_cons_of_neg (by simpa using hle)]
          cases hlast : l.getLast? with
          | none =>
            rw [getLast?_eq_none_iff.1 hlast]
            exact .refl _
          | some last => exact hmove last hlast
        · rename_i hlt
          rw [filter_cons_of_pos (by simpa using hlt)]
          exact (ih hlen).cons m

/-- `soft_pri` is the greatest priority, from the least one on. -/
lemma max?_softPri (soft : List SoftMatch) :
    (intMin :: soft.map fun m => m.1.priority).max? = some (softPri soft) := by
  rw [max?_cons', foldl_map]
  rfl

lemma le_softPri (hm : m ∈ soft) : m.1.priority ≤ softPri soft :=
  (max?_eq_some_iff.1 (max?_softPri soft)).2 _ (mem_cons_of_mem _ (mem_map_of_mem hm))

lemma exists_softPri (hne : soft ≠ []) (hbound : ∀ m ∈ soft, intMin < m.1.priority) :
    ∃ m ∈ soft, m.1.priority = softPri soft := by
  obtain heq | hex := mem_cons.1 (max?_eq_some_iff.1 (max?_softPri soft)).1
  · obtain ⟨m, hm⟩ := exists_mem_of_ne_nil soft hne
    have hle := le_softPri hm
    rw [heq] at hle
    exact absurd hle (not_le.2 (hbound m hm))
  · exact mem_map.1 hex

/-- The soft match that takes the place of one. -/
def nextOne (pri : ℤ) (m : SoftMatch) : Option SoftMatch :=
  if m.1.priority ≠ pri then some m
  else
    match m.2 with
    | [] => none
    | next :: rest => if next.conj = [] then none else some (next, rest)

lemma nextSoft_snd (hard : Option ClsMatch) :
    (nextSoft pri hard soft).2 = soft.map (nextOne pri) := by
  induction soft generalizing hard with
  | nil => rfl
  | cons m soft ih =>
    unfold nextSoft
    rw [map_cons, nextOne]
    split
    · simp only [ih]
    · cases m.2 with
      | nil => simp only [ih]
      | cons next rest =>
        simp only
        split <;> simp only [ih]

lemma nextOne_eq_some {m' : SoftMatch} : nextOne pri m = some m' ↔ (m.1.priority ≠ pri ∧ m = m') ∨
      (m.1.priority = pri ∧ m.2 = m'.1 :: m'.2 ∧ m'.1.conj ≠ []) := by
  unfold nextOne
  by_cases hpri : m.1.priority = pri
  · rw [if_neg (not_not.2 hpri)]
    obtain ⟨first, rest⟩ := m'
    cases m.2 with
    | nil => simp [hpri]
    | cons next tail =>
      simp only [hpri, ne_eq, not_true_eq_false, false_and, true_and, false_or,
        cons.injEq, Option.ite_none_left_eq_some, Option.some.injEq, Prod.mk.injEq]
      constructor
      · rintro ⟨hconj, rfl, rfl⟩
        exact ⟨⟨rfl, rfl⟩, hconj⟩
      · rintro ⟨⟨rfl, rfl⟩, hconj⟩
        exact ⟨hconj, rfl, rfl⟩
  · simp [hpri]

/-- The hard match only gets better, and is as good as the next rules without conjunctions. -/
lemma nextSoft_fst (pri : ℤ) (hard : Option ClsMatch) (soft : List SoftMatch) :
    hardPri hard ≤ hardPri (nextSoft pri hard soft).1 ∧
      ∀ m ∈ soft, m.1.priority = pri → ∀ next rest, m.2 = next :: rest → next.conj = [] →
        next.priority ≤ hardPri (nextSoft pri hard soft).1 := by
  induction soft generalizing hard with
  | nil => simp [nextSoft]
  | cons m soft ih =>
    rw [forall_mem_cons]
    unfold nextSoft
    split
    · rename_i hpri
      exact ⟨(ih hard).1, fun h => absurd h hpri, (ih hard).2⟩
    · cases hrest : m.2 with
      | nil => exact ⟨(ih hard).1, fun _ _ _ h => absurd h.symm (cons_ne_nil _ _), (ih hard).2⟩
      | cons next rest =>
        simp only
        split
        · obtain ⟨hle, hall⟩ := ih (if hardPri hard < next.priority then some next else hard)
          have hmax : hardPri hard ≤
                hardPri (if hardPri hard < next.priority then some next else hard) ∧
              next.priority ≤
                hardPri (if hardPri hard < next.priority then some next else hard) := by
            split
            · rename_i hlt
              exact ⟨hlt.le, le_rfl⟩
            · rename_i hge
              exact ⟨le_rfl, not_lt.1 hge⟩
          refine ⟨hmax.1.trans hle, ?_, hall⟩
          rintro - next' rest' heq -
          cases heq
          exact hmax.2.trans hle
        · rename_i hconj
          refine ⟨(ih hard).1, ?_, (ih hard).2⟩
          rintro - next' rest' heq hnil
          cases heq
          exact absurd hnil hconj

/-- **The soft matches of a flow.**  Each is the rest of a list of equal matches that match it, and
the rules with conjunctions that match are in these rests, unless the hard match is better or
the loop is past their priority. -/
structure SoftOk (sts : List ClsSubtable) (flow : Flow) (hard : ℤ) (soft : List SoftMatch) :
    Prop where
  suffix : ∀ m ∈ soft, m.1.conj ≠ [] ∧ ∃ st ∈ sts, ∃ e ∈ st.rules,
    e.head.minimatch.Matches flow ∧ (m.1 :: m.2) <:+ e.list
  covers : ∀ st ∈ sts, ∀ e ∈ st.rules, e.head.minimatch.Matches flow → ∀ r ∈ e.list, r.conj ≠ [] →
    r.priority ≤ hard ∨ (∃ m ∈ soft, r ∈ m.1 :: m.2) ∨ ∀ m ∈ soft, m.1.priority < r.priority
  masks : (soft.map fun m => m.1.minimatch.mask).Nodup

/-- The next soft matches have the masks of those before them. -/
lemma nextOne_masks {pri : ℤ} {soft : List SoftMatch}
    (hsame : ∀ m ∈ soft, ∀ r ∈ m.2, r.minimatch = m.1.minimatch) :
    ((soft.map (nextOne pri)).reduceOption.map fun m => m.1.minimatch.mask).Sublist
      (soft.map fun m => m.1.minimatch.mask) := by
  induction soft with
  | nil => exact .refl _
  | cons m soft ih =>
    obtain ⟨hm, hsoft⟩ := forall_mem_cons.1 hsame
    rw [map_cons]
    cases hnext : nextOne pri m with
    | none =>
      rw [reduceOption_cons_of_none]
      exact (ih hsoft).cons _
    | some m' =>
      have heq : m'.1.minimatch = m.1.minimatch := by
        obtain ⟨-, rfl⟩ | ⟨-, hrest, -⟩ := nextOne_eq_some.1 hnext
        · rfl
        · exact hm m'.1 (hrest ▸ mem_cons_self)
      rw [reduceOption_cons_of_some, map_cons, map_cons, heq]
      exact (ih hsoft).cons_cons _

section

variable {sts : List ClsSubtable} {flow : Flow} {hard hard' : ℤ} {soft : List SoftMatch}
  (hheads : ∀ st ∈ sts, ∀ e ∈ st.rules, HeadOk C st e)

include hheads

section

variable (h : SoftOk sts flow hard soft)
include h

/-- The first of the rest of a list is its best. -/
lemma SoftOk.sorted (hm : m ∈ soft) : ByPriority (m.1 :: m.2) := by
  obtain ⟨-, st, hst, e, he, -, hsuffix⟩ := h.suffix m hm
  exact (hheads st hst e he).sorted.sublist hsuffix.sublist

/-- The rest of a list has the match of its first. -/
lemma SoftOk.same (hm : m ∈ soft) {r : ClsMatch} (hr : r ∈ m.2) : r.minimatch = m.1.minimatch := by
  obtain ⟨-, st, hst, e, he, -, hsuffix⟩ := h.suffix m hm
  have hsame := (hheads st hst e he).same
  rw [hsame r (hsuffix.subset (mem_cons_of_mem _ hr)), hsame m.1 (hsuffix.subset mem_cons_self)]

lemma SoftOk.delete {soft' : List SoftMatch}
    (hperm : soft'.Perm (soft.filter fun m => hard < m.1.priority)) :
    SoftOk sts flow hard soft' := by
  have hmem : ∀ m, m ∈ soft' ↔ m ∈ soft ∧ hard < m.1.priority := fun m => by
    rw [hperm.mem_iff, mem_filter, decide_eq_true_eq]
  refine ⟨fun m hm => h.suffix m ((hmem m).1 hm).1, fun st hst e he hmatch r hr hconj => ?_,
    (hperm.map _).nodup_iff.2 (h.masks.sublist (filter_sublist.map _))⟩
  obtain hle | ⟨m, hm, hr'⟩ | hlt := h.covers st hst e he hmatch r hr hconj
  · exact .inl hle
  · by_cases hpri : hard < m.1.priority
    · exact .inr (.inl ⟨m, (hmem m).2 ⟨hm, hpri⟩, hr'⟩)
    · refine .inl (le_trans ?_ (not_lt.1 hpri))
      obtain rfl | hr' := mem_cons.1 hr'
      · exact le_rfl
      · exact ((pairwise_cons.1 (h.sorted hheads hm)).1 r hr').le
  · exact .inr (.inr fun m hm => hlt m ((hmem m).1 hm).1)

/-- **The step to the next rules keeps the soft matches right.** -/
lemma SoftOk.next {pri : ℤ} (hpri : ∀ m ∈ soft, m.1.priority ≤ pri) (hle : hard ≤ hard')
    (hhard : ∀ m ∈ soft, m.1.priority = pri → ∀ next rest, m.2 = next :: rest → next.conj = [] →
      next.priority ≤ hard') : SoftOk sts flow hard' (soft.map (nextOne pri)).reduceOption := by
  have hnext : ∀ m', m' ∈ (soft.map (nextOne pri)).reduceOption ↔
      ∃ m ∈ soft, nextOne pri m = some m' := by
    intro m'
    rw [reduceOption_mem_iff, mem_map]
  -- no soft match gets a greater priority, and those of the priority get a smaller one
  have hlt : ∀ m', m' ∈ (soft.map (nextOne pri)).reduceOption →
      m'.1.priority < pri ∧ ∃ m ∈ soft, m'.1.priority ≤ m.1.priority := by
    intro m' hm'
    obtain ⟨m, hm, hm'⟩ := (hnext m').1 hm'
    obtain ⟨hne, rfl⟩ | ⟨heq, hrest, -⟩ := nextOne_eq_some.1 hm'
    · exact ⟨lt_of_le_of_ne (hpri m hm) hne, m, hm, le_rfl⟩
    · have hlt := (pairwise_cons.1 (h.sorted hheads hm)).1 m'.1
        (hrest ▸ mem_cons_self)
      exact ⟨heq ▸ hlt, m, hm, hlt.le⟩
  refine ⟨fun m' hm' => ?_, fun st hst e he hmatch r hr hconj => ?_,
    h.masks.sublist (nextOne_masks fun m hm r hr => h.same hheads hm hr)⟩
  · obtain ⟨m, hm, hm'⟩ := (hnext m').1 hm'
    obtain ⟨-, rfl⟩ | ⟨-, hrest, hconj⟩ := nextOne_eq_some.1 hm'
    · exact h.suffix m hm
    · obtain ⟨-, st, hst, e, he, hmatch, hsuffix⟩ := h.suffix m hm
      rw [hrest] at hsuffix
      exact ⟨hconj, st, hst, e, he, hmatch, (suffix_cons _ _).trans hsuffix⟩
  · obtain hr' | ⟨m, hm, hr'⟩ | hr' := h.covers st hst e he hmatch r hr hconj
    · exact .inl (hr'.trans hle)
    · by_cases heq : m.1.priority = pri
      · obtain rfl | hr' := mem_cons.1 hr'
        · exact .inr (.inr fun m' hm' => heq ▸ (hlt m' hm').1)
        · cases hrest : m.2 with
          | nil => simp [hrest] at hr'
          | cons next rest =>
            by_cases hnil : next.conj = []
            · -- the hard match is at least as good as `next`, and `r` comes after it
              have hnext' := hhard m hm heq next rest hrest hnil
              have hsort := h.sorted hheads hm
              rw [hrest] at hr' hsort
              obtain rfl | hr' := mem_cons.1 hr'
              · exact absurd hnil hconj
              · have hafter := (pairwise_cons.1 (pairwise_cons.1 hsort).2).1 r hr'
                exact .inl (hafter.le.trans hnext')
            · exact .inr (.inl ⟨(next, rest), (hnext _).2 ⟨m, hm, nextOne_eq_some.2
                (.inr ⟨heq, hrest, hnil⟩)⟩, hrest ▸ hr'⟩)
      · exact .inr (.inl ⟨m, (hnext m).2 ⟨m, hm, nextOne_eq_some.2 (.inl ⟨heq, rfl⟩)⟩, hr'⟩)
    · refine .inr (.inr fun m' hm' => ?_)
      obtain ⟨-, m, hm, hle'⟩ := hlt m' hm'
      exact hle'.trans_lt (hr' m hm)

end

end

/-! ## Which ids are looked up -/

/-- Each of the `n` clauses of the id has a rule of the priority that matches the flow. -/
def CompleteWith (rules : List ClsMatch) (flow : Flow) (pri : ℤ) (id : BitVec 32) (n : ℕ) : Prop :=
  0 < n ∧ ∀ k < n, ∃ r ∈ rules, r.minimatch.Matches flow ∧ r.priority = pri ∧ ⟨id, k, n⟩ ∈ r.conj

def Complete (rules : List ClsMatch) (flow : Flow) (pri : ℤ) (id : BitVec 32) : Prop :=
  ∃ n, CompleteWith rules flow pri id n

/-- The rounds of the soft match loop look up ids that are complete, and one at least if there is
one. -/
def RoundOk (rules : List ClsMatch) (flow : Flow) (round : ℤ × List (BitVec 32)) : Prop :=
  (∀ id ∈ round.2, Complete rules flow round.1 id) ∧
    (round.2 ≠ [] ↔ ∃ id, Complete rules flow round.1 id)

/-- At each priority an id has one number of clauses. -/
def OneNClauses (rules : List ClsMatch) : Prop :=
  ∀ r ∈ rules, ∀ r' ∈ rules, r.priority = r'.priority → ∀ c ∈ r.conj, ∀ c' ∈ r'.conj,
    c.id = c'.id → c.nClauses = c'.nClauses

/-- The conjunctions that the `conjunction` action admits. -/
def ConjunctionsOk (r : ClsMatch) : Prop :=
  intMin < r.priority ∧ ∀ c ∈ r.conj, c.clause < c.nClauses ∧ 2 ≤ c.nClauses ∧ c.nClauses ≤ 64

/-- The rules of a priority with conjunctions that match the flow. -/
def softRules (rules : List ClsMatch) (flow : Flow) (pri : ℤ) : List ClsMatch :=
  rules.filter fun r => r.minimatch.Matches flow ∧ r.priority = pri ∧ r.conj ≠ []

lemma mem_softRules {rules : List ClsMatch} {flow : Flow} {r : ClsMatch} :
    r ∈ softRules rules flow pri ↔
      r ∈ rules ∧ r.minimatch.Matches flow ∧ r.priority = pri ∧ r.conj ≠ [] := by
  rw [softRules, mem_filter, decide_eq_true_eq]

/-- The number of clauses of an id. -/
def nClausesAt (conjs : List ClsConjunction) (id : BitVec 32) : ℕ :=
  (conjs.find? fun c => c.id = id).elim 0 ClsConjunction.nClauses

/-- If ids are complete, one of them has no more clauses than there are rules. -/
def EnoughRules (rules : List ClsMatch) (flow : Flow) (pri : ℤ) : Prop :=
  (∃ id, Complete rules flow pri id) →
    ∃ id, ∃ n ≤ (softRules rules flow pri).length, CompleteWith rules flow pri id n

/-- Ids with 64 clauses are complete, if there are 64 rules. -/
def WordsEmpty (rules : List ClsMatch) (flow : Flow) (pri : ℤ) : Prop :=
  ∀ r ∈ softRules rules flow pri, ∀ c ∈ r.conj, c.nClauses = 64 →
    64 ≤ (softRules rules flow pri).length → Complete rules flow pri c.id

section

variable {cls : Classifier} {sts : List ClsSubtable} {rules : List ClsMatch} {flow : Flow}
  {soft : List SoftMatch}

variable (hok : ClassifierOk C cls sts)
include hok

lemma ClassifierOk.heads : ∀ st ∈ sts, ∀ e ∈ st.rules, HeadOk C st e :=
  fun st hst e he => (hok.core.subtables st hst).heads e he

/-- A soft match is a rule that matches. -/
lemma SoftOk.rule (h : SoftOk sts flow hard soft) {m : SoftMatch}
    (hm : m ∈ soft) : m.1 ∈ rulesOf sts ∧ m.1.minimatch.Matches flow := by
  obtain ⟨-, st, hst, e, he, hmatch, hsuffix⟩ := h.suffix m hm
  have hmem := hsuffix.subset mem_cons_self
  refine ⟨mem_rulesOf_of_head hst he hmem, ?_⟩
  rwa [((hok.core.subtables st hst).heads e he).same m.1 hmem]

variable (hrules : (rulesOf sts).Perm rules)
include hrules

/-- **The soft matches of the greatest priority are all rules of it that match.**  One that is no
soft match would be covered by one. -/
lemma SoftOk.softRules_perm (h : SoftOk sts flow hard soft) (hne : soft ≠ [])
    (hhard : ∀ m ∈ soft, hard < m.1.priority) :
    ((soft.filter fun m => m.1.priority = softPri soft).map Prod.fst).Perm
      (softRules rules flow (softPri soft)) := by
  have hmem : ∀ m ∈ soft, m.1 ∈ rules := fun m hm => hrules.mem_iff.1 (h.rule hok hm).1
  have hleft : ((soft.filter fun m => m.1.priority = softPri soft).map Prod.fst).Nodup := by
    refine Nodup.of_map (fun r : ClsMatch => r.minimatch.mask) ?_
    rw [map_map]
    exact h.masks.sublist (filter_sublist.map _)
  have hright : (softRules rules flow (softPri soft)).Nodup :=
    (hrules.nodup_iff.1 (hok.core.ids.of_map _)).filter _
  refine (perm_ext_iff_of_nodup hleft hright).2 fun r => ?_
  rw [mem_softRules, mem_map]
  simp only [mem_filter, decide_eq_true_eq]
  constructor
  · rintro ⟨m, ⟨hm, hpri⟩, rfl⟩
    exact ⟨hmem m hm, (h.rule hok hm).2, hpri, (h.suffix m hm).1⟩
  · rintro ⟨hr, hmatch, hpri, hconj⟩
    obtain ⟨st, hst, e, he, hre, hsame, -⟩ := hok.core.exists_head (hrules.mem_iff.2 hr)
    obtain ⟨best, hbest, heq⟩ := exists_softPri hne fun m hm =>
      hok.core.bound _ (h.rule hok hm).1
    obtain hle | ⟨m, hm, hr'⟩ | hlt := h.covers st hst e he (hsame ▸ hmatch) r hre hconj
    · have hlt := hhard best hbest
      omega
    · obtain rfl | hr' := mem_cons.1 hr'
      · exact ⟨m, ⟨hm, hpri⟩, rfl⟩
      · have hlt := (pairwise_cons.1 (h.sorted hok.heads hm)).1 r hr'
        have hle := le_softPri hm
        omega
    · have hlt := hlt best hbest
      omega

lemma SoftOk.mem_conjsAt_iff (h : SoftOk sts flow hard soft) (hne : soft ≠ [])
    (hhard : ∀ m ∈ soft, hard < m.1.priority) : c ∈ conjsAt soft (softPri soft) ↔
      ∃ r ∈ softRules rules flow (softPri soft), c ∈ r.conj := by
  rw [← ((h.softRules_perm hok hrules hne hhard).flatMap_right _).mem_iff.trans mem_flatMap,
    flatMap_map]
  rfl

variable (hrule : ∀ r ∈ rules, ConjunctionsOk r) (hone : OneNClauses rules)
include hrule hone

/-- The conjunctions of a priority agree on the numbers of clauses. -/
lemma SoftOk.conjOk (h : SoftOk sts flow hard soft) (hne : soft ≠ [])
    (hhard : ∀ m ∈ soft, hard < m.1.priority) (hc : c ∈ conjsAt soft (softPri soft)) :
    ConjOk (nClausesAt (conjsAt soft (softPri soft))) c := by
  have hat := fun c => @SoftOk.mem_conjsAt_iff c C _ cls sts rules flow soft hok hrules h hne hhard
  obtain ⟨r, hr, hcr⟩ := (hat c).1 hc
  obtain ⟨hr, -, hpri, -⟩ := mem_softRules.1 hr
  have hclauses := (hrule r hr).2 c hcr
  refine ⟨?_, hclauses.1, hclauses.2.2⟩
  unfold nClausesAt
  cases hfind : (conjsAt soft (softPri soft)).find? fun c' => c'.id = c.id with
  | none => simpa using find?_eq_none.1 hfind c hc
  | some c' =>
    obtain ⟨r', hr', hc'⟩ := (hat c').1 (mem_of_find?_eq_some hfind)
    obtain ⟨hr', -, hpri', -⟩ := mem_softRules.1 hr'
    have hid : c'.id = c.id := by simpa using find?_some hfind
    exact hone r hr r' hr' (hpri.trans hpri'.symm) c hcr c' hc' hid.symm

/-- The ids of which each clause has a rule are those of which each clause has a soft match. -/
lemma SoftOk.completeWith_iff (h : SoftOk sts flow hard soft) (hne : soft ≠ [])
    (hhard : ∀ m ∈ soft, hard < m.1.priority) : CompleteWith rules flow (softPri soft) id n ↔
      n = nClausesAt (conjsAt soft (softPri soft)) id ∧ 0 < n ∧
        HasClauses (conjsAt soft (softPri soft)) id n := by
  have hat := fun c => @SoftOk.mem_conjsAt_iff c C _ cls sts rules flow soft hok hrules h hne hhard
  have hconj := fun c => @SoftOk.conjOk c C _ cls sts rules flow soft hok hrules hrule hone h hne
    hhard
  constructor
  · rintro ⟨hn, hall⟩
    have hclause : ∀ k < n, ⟨id, k, n⟩ ∈ conjsAt soft (softPri soft) := by
      intro k hk
      obtain ⟨r, hr, hmatch, hpri, hc⟩ := hall k hk
      exact (hat _).2 ⟨r, mem_softRules.2 ⟨hr, hmatch, hpri, ne_nil_of_mem hc⟩, hc⟩
    exact ⟨(hconj _ (hclause 0 hn)).nClauses, hn, fun k hk => ⟨_, hclause k hk, rfl, rfl⟩⟩
  · rintro ⟨rfl, hpos, hdone⟩
    refine ⟨hpos, fun k hk => ?_⟩
    obtain ⟨c, hc, rfl, rfl⟩ := hdone k hk
    obtain ⟨r, hr, hcr⟩ := (hat c).1 hc
    obtain ⟨hmem, hmatch, hpri, -⟩ := mem_softRules.1 hr
    refine ⟨r, hmem, hmatch, hpri, ?_⟩
    rw [← (hconj c hc).nClauses]
    exact hcr

/-- **When a round is right**: it needs enough rules, and this is enough if no word is full from the
start. -/
lemma SoftOk.roundOk (h : SoftOk sts flow hard soft) (hne : soft ≠ [])
    (hhard : ∀ m ∈ soft, hard < m.1.priority) (wc : Option Flow) :
    let round := (softPri soft, (conjunctiveLookup C cls flow (softPri soft)
      (soft.countP fun m => m.1.priority = softPri soft) soft [] wc).2.2)
    (RoundOk rules flow round → EnoughRules rules flow round.1) ∧
      (EnoughRules rules flow round.1 → WordsEmpty rules flow round.1 →
        RoundOk rules flow round) := by
  intro round
  have hcount : (soft.countP fun m => m.1.priority = softPri soft) =
      (softRules rules flow (softPri soft)).length := by
    rw [← (h.softRules_perm hok hrules hne hhard).length_eq, length_map, countP_eq_length_filter]
  have hconj := fun c => @SoftOk.conjOk c C _ cls sts rules flow soft hok hrules hrule hone h hne
    hhard
  have hclauses := fun id n => @SoftOk.completeWith_iff id n C _ cls sts rules flow soft hok hrules
    hrule hone h hne hhard
  obtain ⟨hsound, hfound⟩ := @conjunctiveLookup_iff _ soft (softPri soft) cls C flow
    (soft.countP fun m => m.1.priority = softPri soft) hconj wc
  refine ⟨fun hround hex => ?_, fun henough hwords => ?_⟩
  · obtain ⟨id, hid⟩ := exists_mem_of_ne_nil _ (hround.2.2 hex)
    obtain ⟨n, hn⟩ := hround.1 id hid
    obtain ⟨-, c, hc, rfl, hle⟩ := hsound id hid
    refine ⟨c.id, n, ?_, hn⟩
    rwa [((hclauses _ _).1 hn).1, ← (hconj c hc).nClauses, ← hcount]
  · have hcomplete : ∀ id ∈ round.2, Complete rules flow (softPri soft) id := by
      intro id hid
      obtain ⟨hfull, c, hc, rfl, hle⟩ := hsound id hid
      by_cases h64 : c.nClauses = 64
      · obtain ⟨r, hr, hcr⟩ := (h.mem_conjsAt_iff hok hrules hne hhard).1 hc
        exact hwords r hr c hcr h64 (by rwa [h64, hcount] at hle)
      · have hlt := (hconj c hc).lt
        have hle' := (hconj c hc).le
        rw [← (hconj c hc).nClauses, Nat.mod_eq_of_lt (by omega)] at hfull
        exact ⟨c.nClauses, (hclauses _ _).2 ⟨(hconj c hc).nClauses, by omega, hfull⟩⟩
    refine ⟨hcomplete, fun hids => ?_, fun hex => ?_⟩
    · obtain ⟨id, hid⟩ := exists_mem_of_ne_nil _ hids
      exact ⟨id, hcomplete id hid⟩
    · obtain ⟨id, n, hle, hn⟩ := henough hex
      obtain ⟨rfl, hpos, hdone⟩ := (hclauses id n).1 hn
      obtain ⟨c, hc, rfl, -⟩ := hdone 0 hpos
      refine hfound c hc ?_ fun k hk => hdone k (hk.trans_le (Nat.mod_le _ _))
      rwa [(hconj c hc).nClauses, hcount]

/-- The rounds of the loop, whatever priorities it goes down to. -/
lemma softLoop_roundOk (fuel : ℕ) {hard : Option ClsMatch}
    (h : SoftOk sts flow (hardPri hard) l.reduceOption) :
    ∀ round ∈ (softLoop C cls flow fuel wc hard l).2.2,
      (RoundOk rules flow round → EnoughRules rules flow round.1) ∧
        (EnoughRules rules flow round.1 → WordsEmpty rules flow round.1 →
          RoundOk rules flow round) := by
  induction fuel generalizing wc hard l with
  | zero => simp [softLoop]
  | succ fuel ih =>
    have hperm := @deleteSoft_perm l (hardPri hard) l.length le_rfl
    have h' := h.delete hok.heads hperm
    have hpri : ∀ m ∈ deleteSoft (hardPri hard) l.length l, hardPri hard < m.1.priority :=
      fun m hm => by simpa using (mem_filter.1 (hperm.mem_iff.1 hm)).2
    unfold softLoop
    simp only
    split
    · simp
    · rename_i hne
      have hround := h'.roundOk hok hrules hrule hone hne hpri wc
      split
      · intro round hmem'
        obtain rfl := mem_singleton.1 hmem'
        exact hround
      · intro round hmem'
        obtain rfl | hmem' := mem_cons.1 hmem'
        · exact hround
        · refine ih ?_ round hmem'
          rw [nextSoft_snd]
          obtain ⟨hle, hhard⟩ := nextSoft_fst (softPri (deleteSoft (hardPri hard) l.length l)) hard
            (deleteSoft (hardPri hard) l.length l)
          exact h'.next hok.heads (fun m hm => le_softPri hm) hle hhard

end

end

variable {C : ClsConfig}

/-- A rule that matches one bit of a word, with conjunctions. -/
def conjRule (id i : ℕ) (conj : List ClsConjunction) : ClsMatch :=
  ⟨id, .ofMasked (ofWord 20 (1 <<< i)) (ofWord 20 (1 <<< i)), 5, conj⟩

/-- A rule with both clauses of an id, and one with a clause of another. -/
def oneOfTwo : List ClsMatch := [conjRule 2 1 [⟨2, 0, 2⟩], conjRule 1 0 [⟨1, 0, 2⟩, ⟨1, 1, 2⟩]]

/-- The first clause of 64, in 64 rules. -/
def firstClauses : List ClsMatch := (range 64).map fun i => conjRule i i [⟨1, 0, 64⟩]

/-- Both clauses of an id, in one rule. -/
def bothClauses : List ClsMatch := [conjRule 1 0 [⟨1, 0, 2⟩, ⟨1, 1, 2⟩]]

lemma firstClauses_lookup :
    ∃ round ∈ (lookupRounds plainConfig (classifierOf plainConfig firstClauses)
      (ofWord 20 (BitVec.allOnes 64)) none).2.2, 1 ∈ round.2 := by
  decide +kernel

end OVS
