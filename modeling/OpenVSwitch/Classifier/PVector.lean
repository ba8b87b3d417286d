import Mathlib.Data.List.Perm.Basic
import Mathlib.Data.List.DropRight
import Mathlib.Data.List.Sort

/-!
# Priority vectors

`lib/pvector.c`: a vector that readers walk in the order of decreasing priorities.  A writer
changes it in place where it stays sorted.  Otherwise it works on a copy, `temp`, which need not
be sorted and in which what was removed has left a gap, and which replaces the vector when it is
published.

`PVector.Holds` says what is in the vector that the writer works on.  Each operation has one lemma
about it; `Holds.publish` is the one that needs priorities above `INT_MIN`, which is the priority
of gaps.  `visible_of_run` says what readers see.
-/

namespace OVS

open List

def intMin : ℤ := -2147483648

def pvectorExtraAlloc : ℕ := 4

structure PVectorEntry (α : Type*) where
  priority : ℤ
  ptr : Option α
deriving DecidableEq

structure PVectorImpl (α : Type*) where
  vector : List (PVectorEntry α)
  allocated : ℕ

structure PVector (α : Type*) where
  impl : PVectorImpl α
  temp : Option (PVectorImpl α)

/-- What `qsort()` may do with `pvector_entry_cmp()`: entries of equal priority come in any
order. -/
structure PVectorSort (α : Type*) where
  sort : List (PVectorEntry α) → List (PVectorEntry α)
  perm : ∀ l, (sort l).Perm l
  sorted : ∀ l, (sort l).Pairwise fun a b => b.priority ≤ a.priority

variable {α : Type*}

/-- Entries by decreasing priority. -/
def EntryBefore (a b : PVectorEntry α) : Prop := b.priority ≤ a.priority

instance : DecidableRel (EntryBefore : PVectorEntry α → PVectorEntry α → Prop) :=
  fun a b => inferInstanceAs (Decidable (b.priority ≤ a.priority))

instance : Std.Total (EntryBefore : PVectorEntry α → PVectorEntry α → Prop) :=
  ⟨fun a b => le_total b.priority a.priority⟩

instance : IsTrans (PVectorEntry α) EntryBefore :=
  ⟨fun _ _ _ hab hbc => le_trans hbc hab⟩

/-- Entries of equal priority stay in order. -/
def stableSort : PVectorSort α where
  sort l := l.insertionSort EntryBefore
  perm l := l.perm_insertionSort EntryBefore
  sorted l := l.pairwise_insertionSort EntryBefore

namespace PVector

def implDup (old : PVectorImpl α) : PVectorImpl α :=
  ⟨old.vector, old.vector.length + pvectorExtraAlloc⟩

def init : PVector α := ⟨⟨[], pvectorExtraAlloc⟩, none⟩

/-- An entry at the end. -/
def implPush (impl : PVectorImpl α) (ptr : α) (priority : ℤ) : PVectorImpl α :=
  { impl with vector := impl.vector ++ [⟨priority, some ptr⟩] }

def insert (pvec : PVector α) (ptr : α) (priority : ℤ) : PVector α :=
  match pvec.temp with
  | none =>
    if pvec.impl.vector.length < pvec.impl.allocated ∧
      ∀ last ∈ pvec.impl.vector.getLast?, priority ≤ last.priority then
      { pvec with impl := implPush pvec.impl ptr priority }
    else { pvec with temp := some (implPush (implDup pvec.impl) ptr priority) }
  | some temp =>
    let temp := if temp.vector.length = temp.allocated then implDup temp else temp
    { pvec with temp := some (implPush temp ptr priority) }

/-- `pvector_impl_find()`: the number of entries if there is none. -/
def implFind [DecidableEq α] (impl : PVectorImpl α) (target : α) : ℕ :=
  impl.vector.findIdx fun entry => entry.ptr = some target

/-- An entry changes. -/
def implSet (impl : PVectorImpl α) (index : ℕ) (entry : PVectorEntry α) : PVectorImpl α :=
  { impl with vector := impl.vector.set index entry }

/-- `pvector_remove()`: a gap, which publishing cleans off. -/
def remove [DecidableEq α] (pvec : PVector α) (ptr : α) : PVector α :=
  let temp := pvec.temp.getD (implDup pvec.impl)
  { pvec with temp := some (implSet temp (implFind temp ptr) ⟨intMin, none⟩) }

/-- Whether `pvector_change_priority()` cannot update in place. -/
def mustReorder (impl : PVectorImpl α) (index : ℕ) (priority : ℤ) : Bool :=
  (impl.vector[index]?.any fun entry => priority > entry.priority) && 0 < index &&
      (impl.vector[index - 1]?.any fun entry => priority > entry.priority) ||
    (impl.vector[index]?.any fun entry => priority < entry.priority) &&
      (impl.vector[index + 1]?.any fun entry => priority < entry.priority)

def changePriority [DecidableEq α] (pvec : PVector α) (ptr : α) (priority : ℤ) : PVector α :=
  match pvec.temp with
  | some temp =>
    { pvec with temp := some (implSet temp (implFind temp ptr) ⟨priority, some ptr⟩) }
  | none =>
    let index := implFind pvec.impl ptr
    if mustReorder pvec.impl index priority then
      { pvec with temp := some (implSet (implDup pvec.impl) index ⟨priority, some ptr⟩) }
    else { pvec with impl := implSet pvec.impl index ⟨priority, some ptr⟩ }

def implSort (S : PVectorSort α) (impl : PVectorImpl α) : PVectorImpl α :=
  { impl with
    vector := (S.sort impl.vector).rdropWhile fun entry => entry.priority = intMin }

def publish (S : PVectorSort α) (pvec : PVector α) : PVector α :=
  match pvec.temp with
  | none => pvec
  | some temp => ⟨implSort S temp, none⟩

/-! ## What is in the vector -/

/-- The vector that the writer works on. -/
def current (pvec : PVector α) : List (PVectorEntry α) := (pvec.temp.getD pvec.impl).vector

/-- An entry that is no gap. -/
def pair? (entry : PVectorEntry α) : Option (α × ℤ) := entry.ptr.map (·, entry.priority)

/-- The vector has the entries of the list, in any order.  Gaps have the least priority, and as long
as there is no copy, there are no gaps and the vector is sorted. -/
structure Holds (pvec : PVector α) (l : List (α × ℤ)) : Prop where
  perm : ((current pvec).filterMap pair?).Perm l
  gaps : ∀ entry ∈ current pvec, entry.ptr = none → entry.priority = intMin
  published : pvec.temp = none → (∀ entry ∈ pvec.impl.vector, entry.ptr ≠ none) ∧
    pvec.impl.vector.Pairwise fun a b => b.priority ≤ a.priority

lemma Holds.init : Holds (init : PVector α) [] where
  perm := by simp [current, PVector.init]
  gaps := by simp [current, PVector.init]
  published := by simp [PVector.init]

variable {pvec : PVector α} {l : List (α × ℤ)} {v pre post : List (PVectorEntry α)} {priority : ℤ}
  {impl : PVectorImpl α} {entry : PVectorEntry α} {ptr : α} {entry' : PVectorEntry α}
  {temp : PVectorImpl α}

/-- The list that describes the vector may be permuted. -/
lemma Holds.congr {l' : List (α × ℤ)} (h : Holds pvec l) (hl : l.Perm l') : Holds pvec l' :=
  ⟨h.perm.trans hl, h.gaps, h.published⟩

/-- What it takes for a copy to have the entries of a list. -/
lemma Holds.ofTemp (htemp : pvec.temp = some temp) (hperm : (temp.vector.filterMap pair?).Perm l)
    (hgaps : ∀ entry ∈ temp.vector, entry.ptr = none → entry.priority = intMin) : Holds pvec l where
  perm := by simpa [current, htemp] using hperm
  gaps := by simpa [current, htemp] using hgaps
  published h := by simp [htemp] at h

/-- What it takes for a published vector to have the entries of a list. -/
lemma Holds.ofImpl (htemp : pvec.temp = none) (hperm : (pvec.impl.vector.filterMap pair?).Perm l)
    (hgaps : ∀ entry ∈ pvec.impl.vector, entry.ptr ≠ none)
    (hsorted : pvec.impl.vector.Pairwise fun a b => b.priority ≤ a.priority) : Holds pvec l where
  perm := by simpa [current, htemp] using hperm
  gaps := by
    simp only [current, htemp]
    exact fun entry hentry hnone => absurd hnone (hgaps entry hentry)
  published _ := ⟨hgaps, hsorted⟩

lemma current_of_temp (h : pvec.temp = some temp) : current pvec = temp.vector := by
  simp [current, h]

lemma current_of_none (h : pvec.temp = none) : current pvec = pvec.impl.vector := by
  simp [current, h]

lemma perm_push (h : (v.filterMap pair?).Perm l) (ptr : α) (priority : ℤ) :
    ((v ++ [(⟨priority, some ptr⟩ : PVectorEntry α)]).filterMap pair?).Perm
      ((ptr, priority) :: l) := by
  rw [filterMap_append]
  exact perm_append_comm.trans (h.cons _)

lemma gaps_push (h : ∀ entry ∈ v, entry.ptr = none → entry.priority = intMin) (ptr : α)
    (priority : ℤ) : ∀ entry ∈ v ++ [(⟨priority, some ptr⟩ : PVectorEntry α)],
      entry.ptr = none → entry.priority = intMin := by
  rw [forall_mem_append]
  exact ⟨h, by simp⟩

/-- Where the last entry of a sorted vector has a priority, all have. -/
lemma le_of_getLast (hsorted : v.Pairwise fun a b => b.priority ≤ a.priority)
    (hlast : ∀ last ∈ v.getLast?, priority ≤ last.priority) :
    ∀ entry ∈ v, priority ≤ entry.priority := by
  intro entry hentry
  obtain ⟨w, last, rfl⟩ := v.eq_nil_or_concat.resolve_left (ne_nil_of_mem hentry)
  have hle := hlast last (by simp)
  rw [concat_eq_append, mem_append, mem_singleton] at hentry
  obtain hentry | rfl := hentry
  · rw [concat_eq_append, pairwise_append] at hsorted
    exact hle.trans (hsorted.2.2 entry hentry last (by simp))
  · exact hle

/-- **Inserting adds an entry.** -/
lemma Holds.insert (h : Holds pvec l) (ptr : α) (priority : ℤ) :
    Holds (insert pvec ptr priority) ((ptr, priority) :: l) := by
  have hperm := h.perm
  have hgaps := h.gaps
  unfold PVector.insert
  split
  · rename_i htemp
    rw [current_of_none htemp] at hperm hgaps
    split
    · rename_i hlast
      obtain ⟨hgap, hsorted⟩ := h.published htemp
      refine Holds.ofImpl ?_ (perm_push hperm ptr priority) ?_ ?_
      · exact htemp
      · rw [implPush, forall_mem_append]
        exact ⟨hgap, by simp⟩
      · refine pairwise_append.2 ⟨hsorted, pairwise_singleton _ _, ?_⟩
        simp only [mem_singleton, forall_eq]
        exact le_of_getLast hsorted hlast.2
    · exact .ofTemp rfl (perm_push hperm ptr priority) (gaps_push hgaps ptr priority)
  · rename_i temp htemp
    rw [current_of_temp htemp] at hperm hgaps
    refine .ofTemp rfl ?_ ?_
    · split <;> exact perm_push hperm ptr priority
    · split <;> exact gaps_push hgaps ptr priority

/-! ## Entries that are found -/

/-- Where the entry of a pointer is. -/
lemma exists_implFind [DecidableEq α]
    (hperm : (impl.vector.filterMap pair?).Perm ((ptr, priority) :: l)) :
    ∃ pre entry post, impl.vector = pre ++ entry :: post ∧ implFind impl ptr = pre.length ∧
      entry.ptr = some ptr := by
  have hmem : (ptr, priority) ∈ impl.vector.filterMap pair? :=
    hperm.mem_iff.2 mem_cons_self
  obtain ⟨entry, hentry, hpair⟩ := mem_filterMap.1 hmem
  have hptr : entry.ptr = some ptr := by
    obtain ⟨q, hq, heq⟩ := Option.map_eq_some_iff.1 hpair
    rw [hq]
    exact congrArg (some ∘ Prod.fst) heq
  have hlt : implFind impl ptr < impl.vector.length :=
    findIdx_lt_length_of_exists ⟨entry, hentry, by simpa using hptr⟩
  refine ⟨impl.vector.take (implFind impl ptr), impl.vector[implFind impl ptr],
    impl.vector.drop (implFind impl ptr + 1), ?_, ?_, ?_⟩
  · rw [← drop_eq_getElem_cons hlt, take_append_drop]
  · rw [length_take, Nat.min_eq_left hlt.le]
  · have hfind : decide (_ = some ptr) = true := findIdx_getElem (w := hlt)
    exact of_decide_eq_true hfind

lemma implSet_vector (h : impl.vector = pre ++ entry :: post) :
    (implSet impl pre.length entry').vector = pre ++ entry' :: post := by
  simp [implSet, h]

/-- The entries apart from the one of a pointer. -/
lemma perm_of_entry (hptr : entry.ptr = some ptr)
    (hperm : ((pre ++ entry :: post).filterMap pair?).Perm ((ptr, priority) :: l))
    (hl : ptr ∉ l.map Prod.fst) : ((pre ++ post).filterMap pair?).Perm l := by
  have hpair : pair? entry = some (ptr, entry.priority) := by simp [pair?, hptr]
  have hmiddle : ((ptr, entry.priority) :: (pre ++ post).filterMap pair?).Perm
      ((ptr, priority) :: l) := by
    refine Perm.trans ?_ hperm
    rw [filterMap_append, filterMap_append, filterMap_cons, hpair]
    exact perm_middle.symm
  have heq : (ptr, entry.priority) = (ptr, priority) := by
    have hmem := hmiddle.mem_iff.1 (mem_cons_self)
    obtain h | h := mem_cons.1 hmem
    · exact h
    · exact absurd (mem_map_of_mem h) hl
  rw [heq] at hmiddle
  exact hmiddle.cons_inv

/-- An entry with another priority, or a gap, in the place of one. -/
lemma perm_set (hperm : ((pre ++ post).filterMap pair?).Perm l) (entry : PVectorEntry α) :
    ((pre ++ entry :: post).filterMap pair?).Perm ((pair? entry).toList ++ l) := by
  refine Perm.trans ?_ (hperm.append_left _)
  rw [filterMap_append, filterMap_append, filterMap_cons]
  cases pair? entry with
  | none => rfl
  | some q => exact perm_middle

/-- A copy in which the entry of a pointer has changed. -/
lemma Holds.setTemp [DecidableEq α] (h : Holds pvec ((ptr, priority) :: l))
    (hl : ptr ∉ l.map Prod.fst) (himpl : impl.vector = current pvec)
    (hentry : entry'.ptr = none → entry'.priority = intMin) :
    Holds { pvec with temp := some (implSet impl (implFind impl ptr) entry') }
      ((pair? entry').toList ++ l) := by
  have hperm := h.perm
  have hgaps := h.gaps
  rw [← himpl] at hperm hgaps
  obtain ⟨pre, entry, post, hvector, hfind, hptr⟩ := exists_implFind hperm
  rw [hvector] at hperm hgaps
  refine .ofTemp rfl ?_ ?_
  · rw [hfind, implSet_vector hvector]
    exact perm_set (perm_of_entry hptr hperm hl) entry'
  · rw [forall_mem_append, forall_mem_cons] at hgaps
    rw [hfind, implSet_vector hvector, forall_mem_append, forall_mem_cons]
    exact ⟨hgaps.1, hentry, hgaps.2.2⟩

/-- **Removing takes the entry of a pointer away.** -/
lemma Holds.remove [DecidableEq α] (h : Holds pvec ((ptr, priority) :: l))
    (hl : ptr ∉ l.map Prod.fst) : Holds (remove pvec ptr) l := by
  refine h.setTemp hl ?_ fun _ => rfl
  cases htemp : pvec.temp with
  | none => simp [current, htemp, implDup]
  | some temp => simp [current, htemp]

/-- A sorted vector stays sorted if an entry gets a priority between those of its neighbours, or
one that is on the same side of them as before. -/
lemma sorted_set (h : (pre ++ entry :: post).Pairwise fun a b => b.priority ≤ a.priority)
    (hpre : entry'.priority ≤ entry.priority ∨
      ∀ last ∈ pre.getLast?, entry'.priority ≤ last.priority)
    (hpost : entry.priority ≤ entry'.priority ∨
      ∀ next ∈ post.head?, next.priority ≤ entry'.priority) :
    (pre ++ entry' :: post).Pairwise fun a b => b.priority ≤ a.priority := by
  rw [pairwise_append, pairwise_cons] at h
  obtain ⟨hpre', ⟨hentry, hpost'⟩, hcross⟩ := h
  have hle : ∀ a ∈ pre, entry'.priority ≤ a.priority := by
    obtain hpre | hpre := hpre
    · exact fun a ha => hpre.trans (hcross a ha entry mem_cons_self)
    · exact le_of_getLast hpre' hpre
  have hge : ∀ b ∈ post, b.priority ≤ entry'.priority := by
    obtain hpost | hpost := hpost
    · exact fun b hb => (hentry b hb).trans hpost
    · intro b hb
      cases post with
      | nil => cases hb
      | cons next post =>
        have hnext := hpost next rfl
        obtain rfl | hb := mem_cons.1 hb
        · exact hnext
        · exact ((pairwise_cons.1 hpost').1 b hb).trans hnext
  rw [pairwise_append, pairwise_cons]
  refine ⟨hpre', ⟨hge, hpost'⟩, fun a ha b hb => ?_⟩
  obtain rfl | hb := mem_cons.1 hb
  · exact hle a ha
  · exact hcross a ha b (mem_cons_of_mem _ hb)

/-- Where `pvector_change_priority()` updates in place. -/
lemma neighbours_of_mustReorder (hvector : impl.vector = pre ++ entry :: post)
    (h : mustReorder impl pre.length priority = false) :
    (priority ≤ entry.priority ∨ ∀ last ∈ pre.getLast?, priority ≤ last.priority) ∧
      (entry.priority ≤ priority ∨ ∀ next ∈ post.head?, next.priority ≤ priority) := by
  have hentry : impl.vector[pre.length]? = some entry := by simp [hvector]
  have hnext : impl.vector[pre.length + 1]? = post.head? := by
    rw [hvector, getElem?_append_right (by omega), Nat.add_sub_cancel_left]
    cases post <;> rfl
  obtain ⟨hup, hdown⟩ := Bool.or_eq_false_iff.1 h
  rw [hentry] at hup hdown
  constructor
  · refine or_iff_not_imp_left.2 fun hgt last hlast => ?_
    obtain ⟨w, rfl⟩ : ∃ w, pre = w ++ [last] := by
      obtain rfl | ⟨w, a, rfl⟩ := pre.eq_nil_or_concat
      · cases hlast
      · exact ⟨w, by simpa using hlast⟩
    have hprev : impl.vector[(w ++ [last]).length - 1]? = some last := by simp [hvector]
    rw [hprev] at hup
    simpa [not_le.1 hgt] using hup
  · refine or_iff_not_imp_left.2 fun hlt next hmem => ?_
    rw [hnext, Option.mem_def.1 hmem] at hdown
    simpa [not_le.1 hlt] using hdown

/-- **Changing a priority changes the one of the pointer.** -/
lemma Holds.changePriority [DecidableEq α] (h : Holds pvec ((ptr, priority) :: l))
    (hl : ptr ∉ l.map Prod.fst) (priority' : ℤ) :
    Holds (changePriority pvec ptr priority') ((ptr, priority') :: l) := by
  unfold PVector.changePriority
  split
  · rename_i temp htemp
    exact h.setTemp hl (current_of_temp htemp).symm (by simp)
  · rename_i htemp
    dsimp only
    split
    · have hdup : (implDup pvec.impl).vector = current pvec := (current_of_none htemp).symm
      exact h.setTemp hl hdup (by simp)
    · rename_i hreorder
      have hperm := h.perm
      rw [current_of_none htemp] at hperm
      obtain ⟨pre, entry, post, hvector, hfind, hptr⟩ := exists_implFind hperm
      obtain ⟨hgap, hsorted⟩ := h.published htemp
      rw [hvector] at hperm hgap hsorted
      rw [hfind] at hreorder
      obtain ⟨hpre, hpost⟩ := neighbours_of_mustReorder hvector (Bool.eq_false_iff.2 hreorder)
      refine Holds.ofImpl htemp ?_ ?_ ?_ <;> rw [hfind, implSet_vector hvector]
      · exact perm_set (perm_of_entry hptr hperm hl) ⟨priority', some ptr⟩
      · rw [forall_mem_append, forall_mem_cons] at hgap ⊢
        exact ⟨hgap.1, by simp, hgap.2.2⟩
      · exact sorted_set hsorted hpre hpost

lemma publish_temp (S : PVectorSort α) : (publish S pvec).temp = none := by
  unfold publish
  split
  · assumption
  · rfl

/-- In a sorted vector, gaps are at the end. -/
lemma rdropWhile_eq_filter (hsorted : v.Pairwise fun a b => b.priority ≤ a.priority)
    (hle : ∀ entry ∈ v, intMin ≤ entry.priority) :
    (v.rdropWhile fun entry => entry.priority = intMin) =
      v.filter fun entry => entry.priority ≠ intMin := by
  induction v using reverseRecOn with
  | nil => rfl
  | append_singleton v entry ih =>
    rw [pairwise_append] at hsorted
    rw [forall_mem_append] at hle
    rw [rdropWhile_concat, filter_append]
    split
    · rename_i hentry
      rw [ih hsorted.1 hle.1]
      simp [of_decide_eq_true hentry]
    · rename_i hentry
      have hne : entry.priority ≠ intMin := by simpa using hentry
      have hlt : intMin < entry.priority := lt_of_le_of_ne (hle.2 entry (by simp)) hne.symm
      rw [filter_eq_self.2]
      · simp [hne]
      · intro a ha
        have := hsorted.2.2 a ha entry (by simp)
        simp only [decide_not, Bool.not_eq_true', decide_eq_false_iff_not]
        omega

/-- **Publishing changes nothing but the order**, unless an entry has the priority of gaps. -/
lemma Holds.publish (h : Holds pvec l) (S : PVectorSort α) (hl : ∀ q ∈ l, intMin < q.2) :
    Holds (publish S pvec) l := by
  unfold PVector.publish
  split
  · exact h
  · rename_i temp htemp
    have hperm := h.perm
    have hgaps := h.gaps
    rw [current_of_temp htemp] at hperm hgaps
    -- gaps have the least priority, and nothing else has it
    have hptr : ∀ entry ∈ temp.vector, entry.ptr ≠ none → intMin < entry.priority := by
      intro entry hentry hne
      obtain ⟨ptr, hptr⟩ := Option.ne_none_iff_exists'.1 hne
      refine hl (ptr, entry.priority) (hperm.mem_iff.1 ?_)
      exact mem_filterMap.2 ⟨entry, hentry, by simp [pair?, hptr]⟩
    have hsort := S.perm temp.vector
    have hle : ∀ entry ∈ S.sort temp.vector, intMin ≤ entry.priority := by
      intro entry hentry
      have hmem := hsort.mem_iff.1 hentry
      by_cases hnone : entry.ptr = none
      · exact (hgaps entry hmem hnone).ge
      · exact (hptr entry hmem hnone).le
    have hvector : (implSort S temp).vector =
        (S.sort temp.vector).filter fun entry => entry.priority ≠ intMin :=
      rdropWhile_eq_filter (S.sorted _) hle
    refine Holds.ofImpl rfl ?_ ?_ ?_
    · refine Perm.trans ?_ hperm
      rw [hvector, filterMap_filter]
      refine Perm.trans (Perm.of_eq (filterMap_congr fun entry hentry => ?_))
        (hsort.filterMap _)
      by_cases hnone : entry.ptr = none
      · simp [pair?, hnone]
      · simp [(hptr entry (hsort.mem_iff.1 hentry) hnone).ne']
    · rw [hvector]
      intro entry hentry hnone
      obtain ⟨hmem, hne⟩ := mem_filter.1 hentry
      exact of_decide_eq_true hne (hgaps entry (hsort.mem_iff.1 hmem) hnone)
    · rw [hvector]
      exact (S.sorted _).filter _

/-! ## What readers see

Readers have `impl`, and of its entries those below its size.  Every operation changes this by at
most one write, of the size, of a priority or of the pointer to the vector, so that readers see
nothing that is not there between two operations. -/

/-- Sequences of operations, with the pointers that are live and their priorities.  A pointer is
inserted while it is not in the vector. -/
inductive Run [DecidableEq α] (S : PVectorSort α) : PVector α → List (α × ℤ) → Prop
  | init : Run S init []
  | insert {pvec : PVector α} {l : List (α × ℤ)} (h : Run S pvec l) (ptr : α) (priority : ℤ)
      (hptr : ptr ∉ l.map Prod.fst) (hp : intMin < priority) :
      Run S (insert pvec ptr priority) ((ptr, priority) :: l)
  | changePriority {pvec : PVector α} {l l' : List (α × ℤ)} (h : Run S pvec l) {ptr : α}
      {old : ℤ} (hl : l.Perm ((ptr, old) :: l')) (priority : ℤ) (hp : intMin < priority) :
      Run S (changePriority pvec ptr priority) ((ptr, priority) :: l')
  | remove {pvec : PVector α} {l l' : List (α × ℤ)} (h : Run S pvec l) {ptr : α} {old : ℤ}
      (hl : l.Perm ((ptr, old) :: l')) : Run S (remove pvec ptr) l'
  | publish {pvec : PVector α} {l : List (α × ℤ)} (h : Run S pvec l) : Run S (publish S pvec) l

/-- Sorted, and without gaps. -/
def Visible (v : List (PVectorEntry α)) : Prop :=
  (∀ entry ∈ v, entry.ptr ≠ none) ∧ v.Pairwise fun a b => b.priority ≤ a.priority

lemma Holds.visible {pvec' : PVector α} (h : Holds pvec' l) (hpvec : Visible pvec.impl.vector)
    (himpl : pvec'.temp = none ∨ pvec'.impl = pvec.impl) : Visible pvec'.impl.vector := by
  obtain htemp | himpl := himpl
  · exact h.published htemp
  · rwa [himpl]

lemma insert_impl (pvec : PVector α) (ptr : α) (priority : ℤ) :
    ((insert pvec ptr priority).temp = none ∨ (insert pvec ptr priority).impl = pvec.impl) ∧
      pvec.impl.vector <+: (insert pvec ptr priority).impl.vector := by
  unfold insert
  split
  · rename_i htemp
    split
    · exact ⟨.inl htemp, prefix_append _ _⟩
    · exact ⟨.inr rfl, prefix_rfl⟩
  · exact ⟨.inr rfl, prefix_rfl⟩

variable [DecidableEq α] {S : PVectorSort α}

lemma changePriority_impl (h : Holds pvec l) (hptr : ptr ∈ l.map Prod.fst) (priority : ℤ) :
    ((changePriority pvec ptr priority).temp = none ∨
        (changePriority pvec ptr priority).impl = pvec.impl) ∧
      (changePriority pvec ptr priority).impl.vector.map PVectorEntry.ptr =
        pvec.impl.vector.map PVectorEntry.ptr := by
  unfold changePriority
  split
  · exact ⟨.inr rfl, rfl⟩
  · rename_i htemp
    dsimp only
    split
    · exact ⟨.inr rfl, rfl⟩
    · refine ⟨.inl htemp, ?_⟩
      obtain ⟨q, hq, rfl⟩ := mem_map.1 hptr
      have hperm := h.perm.trans (perm_cons_erase hq)
      rw [current_of_none htemp] at hperm
      obtain ⟨pre, entry, post, hvector, hfind, hentry⟩ := exists_implFind hperm
      rw [hfind, implSet_vector hvector, hvector]
      simp [hentry]

/-- What holds after any operations. -/
structure RunOk (pvec : PVector α) (l : List (α × ℤ)) : Prop where
  holds : Holds pvec l
  visible : Visible pvec.impl.vector
  nodup : (l.map Prod.fst).Nodup
  bound : ∀ q ∈ l, intMin < q.2

lemma Run.ok (h : Run S pvec l) : RunOk pvec l := by
  induction h with
  | init => exact ⟨.init, by simp [PVector.init, Visible], by simp, by simp⟩
  | insert h ptr priority hptr hp ih =>
    have hholds := ih.holds.insert ptr priority
    exact ⟨hholds, hholds.visible ih.visible (insert_impl ..).1, nodup_cons.2 ⟨hptr, ih.nodup⟩,
      forall_mem_cons.2 ⟨hp, ih.bound⟩⟩
  | changePriority h hl priority hp ih =>
    have hnodup := (hl.map Prod.fst).nodup_iff.1 ih.nodup
    have hholds := (ih.holds.congr hl).changePriority (nodup_cons.1 hnodup).1 priority
    have hptr := (hl.map Prod.fst).mem_iff.2 mem_cons_self
    exact ⟨hholds, hholds.visible ih.visible (changePriority_impl ih.holds hptr priority).1, hnodup,
      forall_mem_cons.2 ⟨hp, fun q hq => ih.bound q (hl.mem_iff.2 (mem_cons_of_mem _ hq))⟩⟩
  | remove h hl ih =>
    have hnodup := nodup_cons.1 ((hl.map Prod.fst).nodup_iff.1 ih.nodup)
    have hholds := (ih.holds.congr hl).remove hnodup.1
    exact ⟨hholds, hholds.visible ih.visible (.inr rfl), hnodup.2,
      fun q hq => ih.bound q (hl.mem_iff.2 (mem_cons_of_mem _ hq))⟩
  | publish h ih =>
    have hholds := ih.holds.publish S ih.bound
    exact ⟨hholds, hholds.published (publish_temp S), ih.nodup, ih.bound⟩

/-- **Readers see a sorted vector without gaps**, in which no entry goes away or gets another
pointer, and after publishing the live pointers with their priorities. -/
theorem visible_of_run (h : Run S pvec l) :
    (∀ entry ∈ pvec.impl.vector, entry.ptr ≠ none) ∧
      (pvec.impl.vector.Pairwise fun a b => b.priority ≤ a.priority) ∧
      (∀ ptr priority, pvec.impl.vector <+: (insert pvec ptr priority).impl.vector) ∧
      (∀ ptr ∈ l.map Prod.fst, ∀ priority,
        (changePriority pvec ptr priority).impl.vector.map PVectorEntry.ptr =
          pvec.impl.vector.map PVectorEntry.ptr) ∧
      (∀ ptr, (remove pvec ptr).impl = pvec.impl) ∧
      (l.map Prod.fst).Nodup ∧
      (publish S pvec).impl.vector.Perm (l.map fun q => ⟨q.2, some q.1⟩) := by
  obtain ⟨hgaps, hsorted⟩ := h.ok.visible
  refine ⟨hgaps, hsorted, fun ptr priority => (insert_impl ..).2, fun ptr hptr priority =>
    (changePriority_impl h.ok.holds hptr priority).2, fun ptr => rfl, h.ok.nodup, ?_⟩
  obtain ⟨hperm, -, hpublished⟩ := h.publish.ok.holds
  have htemp : (publish S pvec).temp = none := publish_temp S
  rw [current_of_none htemp] at hperm
  refine Perm.trans (Perm.of_eq ?_) (hperm.map _)
  rw [map_filterMap, filterMap_congr (g := some)]
  · simp
  · intro entry hentry
    obtain ⟨ptr, hptr⟩ := Option.ne_none_iff_exists'.1 ((hpublished htemp).1 entry hentry)
    cases entry
    simp_all [pair?]

/-- A vector, changed in place and in a copy. -/
theorem visible_of_run_example :
    ∃ pvec l, Run stableSort pvec l ∧ pvec.temp.isSome ∧
      (publish stableSort pvec).impl.vector.Perm (l.map fun q => ⟨q.2, some q.1⟩) ∧
      l = [(2, 9), (1, 5)] := by
  have h := (((Run.init.insert 1 5 (by simp) (by decide)).insert 2 3 (by simp)
    (by decide)).changePriority (.refl _) 9 (by decide) : Run (stableSort (α := ℕ)) _ _)
  exact ⟨_, _, h, rfl, (visible_of_run h).2.2.2.2.2.2, rfl⟩

/-- **A pointer that is inserted twice is there twice.** -/
theorem inserted_twice :
    (publish stableSort (insert (insert init 7 1) 7 2)).impl.vector.map (·.ptr) =
      [some 7, some 7] := by
  decide

end PVector

end OVS
