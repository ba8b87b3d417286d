import Mathlib.Data.BitVec
import Mathlib.Data.List.Nodup
import Mathlib.Data.List.Perm.Basic

/-!
# Tags

`lib/tag.c`: a tag is a word with two 1-bits, and a set of tags is their bitwise or, which may
contain more tags than those it was made of.  A tracker counts for each bit how many of the tags
have it, so that a tag can be taken out again.

`Tracker.Tracks` says which tags a tracker was made of.  What follows from it is that a tracker has
bits exactly if it has tags (`Tracks.tags_eq_zero`), and that it has every tag that it was made of
(`Tracks.twoBits`).
-/

namespace OVS

open List BitVec

def nTagBits : ℕ := 32

def tagAll : BitVec 32 := BitVec.allOnes 32

def tagArbitrary : BitVec 32 := 3

def tagCreateDeterministic (seed : BitVec 32) : BitVec 32 :=
  let x := seed.toNat % nTagBits
  let y := (seed.toNat >>> 5) % (nTagBits - 1)
  let y := if x ≤ y then y + 1 else y
  BitVec.twoPow 32 x ||| BitVec.twoPow 32 y

def tagIntersects (a b : BitVec 32) : Bool :=
  let x := a &&& b
  x &&& (x - 1) ≠ 0

/-- The tags of a `struct cls_partition` and its `struct tag_tracker`. -/
structure Tracker where
  tags : BitVec 32
  counts : ℕ → ℕ

def tagTrackerInit : Tracker := ⟨0, fun _ => 0⟩

/-- The bits of a tag, from the least significant one on. -/
def tagBits (tag : BitVec 32) : List ℕ := (range nTagBits).filter tag.getLsbD

def tagTrackerAdd (tracker : Tracker) (add : BitVec 32) : Tracker :=
  (tagBits add).foldl
    (fun tracker b =>
      { tracker with counts := Function.update tracker.counts b (tracker.counts b + 1) })
    { tracker with tags := tracker.tags ||| add }

/-- One round of the loop of `tag_tracker_subtract()`. -/
def tagTrackerSubtractBit (tracker : Tracker) (b : ℕ) : Tracker where
  tags := if tracker.counts b - 1 = 0 then tracker.tags &&& ~~~BitVec.twoPow 32 b else tracker.tags
  counts := Function.update tracker.counts b (tracker.counts b - 1)

def tagTrackerSubtract (tracker : Tracker) (sub : BitVec 32) : Tracker :=
  (tagBits sub).foldl tagTrackerSubtractBit tracker

/-! ## Tags have two bits -/

/-- Two bits at least. -/
def TwoBits (tag : BitVec 32) : Prop :=
  ∃ i j, i ≠ j ∧ tag.getLsbD i = true ∧ tag.getLsbD j = true

lemma twoBits_tagCreateDeterministic (seed : BitVec 32) :
    TwoBits (tagCreateDeterministic seed) := by
  have hx : seed.toNat % nTagBits < 32 := Nat.mod_lt _ (by decide)
  have hy : (seed.toNat >>> 5) % (nTagBits - 1) < 31 := Nat.mod_lt _ (by decide)
  unfold tagCreateDeterministic
  simp only
  split
  · refine ⟨seed.toNat % nTagBits, (seed.toNat >>> 5) % (nTagBits - 1) + 1, by omega, ?_, ?_⟩
    · simp [hx]
    · simp [show (seed.toNat >>> 5) % (nTagBits - 1) + 1 < 32 by omega]
  · refine ⟨seed.toNat % nTagBits, (seed.toNat >>> 5) % (nTagBits - 1), by omega, ?_, ?_⟩
    · simp [hx]
    · simp [show (seed.toNat >>> 5) % (nTagBits - 1) < 32 by omega]

lemma twoBits_tagAll : TwoBits tagAll := ⟨0, 1, by decide⟩

lemma twoBits_tagArbitrary : TwoBits tagArbitrary := ⟨0, 1, by decide⟩

variable {tag : BitVec 32}

lemma TwoBits.ne_zero (h : TwoBits tag) : tag ≠ 0 := by
  obtain ⟨i, -, -, hi, -⟩ := h
  rintro rfl
  simp at hi

lemma TwoBits.and_tagAll (h : TwoBits tag) : TwoBits (tag &&& tagAll) := by
  rwa [tagAll, and_allOnes]

/-- **Sets of tags that have two bits in common intersect.** -/
lemma tagIntersects_of_twoBits {a b : BitVec 32} (h : TwoBits (a &&& b)) :
    tagIntersects a b = true := by
  have hne := h.ne_zero
  obtain ⟨i, j, hij, hi, hj⟩ := h
  unfold tagIntersects
  generalize a &&& b = x at hne hi hj
  simp only [decide_not, Bool.not_eq_true', decide_eq_false_iff_not]
  intro hzero
  have hpos : x.toNat ≠ 0 := fun h => hne (eq_of_toNat_eq h)
  have hnat : x.toNat &&& (x.toNat - 1) = 0 := by
    have h := congrArg BitVec.toNat hzero
    have hsub : (x - 1).toNat = x.toNat - 1 :=
      toNat_sub_of_le (by rw [le_def]; exact Nat.one_le_iff_ne_zero.2 hpos)
    rwa [toNat_and, hsub] at h
  obtain ⟨k, hk⟩ := (Nat.and_sub_one_eq_zero_iff_isPowerOfTwo hpos).1 hnat
  rw [← testBit_toNat, hk, Nat.testBit_two_pow, decide_eq_true_eq] at hi hj
  omega

/-! ## Trackers -/

lemma mem_tagBits {b : ℕ} (hb : b < nTagBits) : b ∈ tagBits tag ↔ tag.getLsbD b = true := by
  simp [tagBits, hb]

lemma nodup_tagBits (tag : BitVec 32) : (tagBits tag).Nodup := nodup_range.filter _

/-- The tracker was made of the tags of the list. -/
structure Tracker.Tracks (tracker : Tracker) (l : List (BitVec 32)) : Prop where
  counts : ∀ b < nTagBits, tracker.counts b = l.countP (·.getLsbD b)
  tags : ∀ b < nTagBits, tracker.tags.getLsbD b = decide (0 < tracker.counts b)

namespace Tracker

lemma Tracks.init : tagTrackerInit.Tracks [] where
  counts _ _ := rfl
  tags _ _ := by simp [tagTrackerInit]

variable {tracker : Tracker} {l : List (BitVec 32)}

lemma Tracks.congr {l' : List (BitVec 32)} (h : tracker.Tracks l) (hl : l.Perm l') :
    tracker.Tracks l' where
  counts b hb := (h.counts b hb).trans (hl.countP_eq _)
  tags := h.tags

lemma tagTrackerAdd_eq (tracker : Tracker) (add : BitVec 32) :
    (tagTrackerAdd tracker add).tags = tracker.tags ||| add ∧
      ∀ b, (tagTrackerAdd tracker add).counts b =
        tracker.counts b + if b ∈ tagBits add then 1 else 0 := by
  unfold tagTrackerAdd
  have hnodup := nodup_tagBits add
  generalize tagBits add = bs at hnodup
  generalize htags : tracker.tags ||| add = tags
  generalize hcounts : tracker.counts = counts
  clear htags hcounts
  induction bs generalizing counts with
  | nil => simp
  | cons b bs ih =>
    obtain ⟨hb, hbs⟩ := nodup_cons.1 hnodup
    obtain ⟨htags, hcounts⟩ := ih hbs (Function.update counts b (counts b + 1))
    refine ⟨htags, fun i => (hcounts i).trans ?_⟩
    by_cases hib : i = b
    · subst hib
      simp [hb]
    · simp [hib]

/-- **A tag can be added.** -/
lemma Tracks.add (h : tracker.Tracks l) (tag : BitVec 32) :
    (tagTrackerAdd tracker tag).Tracks (tag :: l) := by
  obtain ⟨htags, hcounts⟩ := tagTrackerAdd_eq tracker tag
  refine ⟨fun b hb => ?_, fun b hb => ?_⟩
  · rw [hcounts, h.counts b hb, countP_cons]
    simp only [mem_tagBits hb]
  · rw [htags, hcounts, getLsbD_or, h.tags b hb]
    simp only [mem_tagBits hb]
    cases tag.getLsbD b <;> simp

lemma tagTrackerSubtract_eq (tracker : Tracker) (sub : BitVec 32) :
    (∀ b, (tagTrackerSubtract tracker sub).counts b =
        tracker.counts b - if b ∈ tagBits sub then 1 else 0) ∧
      ∀ b < nTagBits, (tagTrackerSubtract tracker sub).tags.getLsbD b =
        (tracker.tags.getLsbD b && !(b ∈ tagBits sub ∧ tracker.counts b - 1 = 0)) := by
  unfold tagTrackerSubtract
  have hnodup := nodup_tagBits sub
  generalize tagBits sub = bs at hnodup
  induction bs generalizing tracker with
  | nil => simp
  | cons b bs ih =>
    obtain ⟨hb, hbs⟩ := nodup_cons.1 hnodup
    obtain ⟨hcounts, htags⟩ := ih (tagTrackerSubtractBit tracker b) hbs
    refine ⟨fun i => (hcounts i).trans ?_, fun i hi => (htags i hi).trans ?_⟩
    · by_cases hib : i = b
      · subst hib
        simp [tagTrackerSubtractBit, hb]
      · simp [tagTrackerSubtractBit, hib]
    · by_cases hib : i = b
      · subst hib
        by_cases hzero : tracker.counts i - 1 = 0
        · simp [tagTrackerSubtractBit, hzero]
        · simp [tagTrackerSubtractBit, hb, hzero]
      · by_cases hzero : tracker.counts b - 1 = 0
        · simp [tagTrackerSubtractBit, hib, hzero, show i < 32 from hi]
        · simp [tagTrackerSubtractBit, hib, hzero]

/-- **A tag can be taken out again.** -/
lemma Tracks.subtract (h : tracker.Tracks (tag :: l)) :
    (tagTrackerSubtract tracker tag).Tracks l := by
  obtain ⟨hcounts, htags⟩ := tagTrackerSubtract_eq tracker tag
  refine ⟨fun b hb => ?_, fun b hb => ?_⟩
  · rw [hcounts, h.counts b hb, countP_cons]
    simp only [mem_tagBits hb]
    omega
  · rw [htags b hb, hcounts, h.tags b hb]
    simp only [mem_tagBits hb]
    cases tag.getLsbD b
    · simp
    · by_cases hone : tracker.counts b - 1 = 0
      · simp [hone]
      · have h1 : 0 < tracker.counts b := by omega
        have h2 : 0 < tracker.counts b - 1 := by omega
        simp [hone, h1, h2]

/-- A tracker has the bits of the tags that it was made of. -/
lemma Tracks.getLsbD (h : tracker.Tracks l) (htag : tag ∈ l) {b : ℕ} (hb : tag.getLsbD b = true) :
    tracker.tags.getLsbD b = true := by
  have hlt : b < nTagBits := lt_of_getLsbD hb
  rw [h.tags b hlt, h.counts b hlt, decide_eq_true_eq, countP_pos_iff]
  exact ⟨tag, htag, hb⟩

/-- **A tracker has every tag that it was made of.** -/
lemma Tracks.twoBits (h : tracker.Tracks l) (htag : tag ∈ l) (htwo : TwoBits tag) :
    TwoBits (tracker.tags &&& tag) := by
  obtain ⟨i, j, hij, hi, hj⟩ := htwo
  exact ⟨i, j, hij, by simp [h.getLsbD htag hi, hi], by simp [h.getLsbD htag hj, hj]⟩

/-- **A tracker has bits exactly if it has tags.** -/
lemma Tracks.tags_eq_zero (h : tracker.Tracks l) (hne : ∀ tag ∈ l, tag ≠ 0) :
    tracker.tags = 0 ↔ l = [] := by
  constructor
  · intro hzero
    cases l with
    | nil => rfl
    | cons tag l =>
      refine absurd (eq_of_getLsbD_eq fun b _ => ?_) (hne tag mem_cons_self)
      cases hb : tag.getLsbD b with
      | false => simp
      | true =>
        have hbit := h.getLsbD mem_cons_self hb
        rw [hzero] at hbit
        simp at hbit
  · rintro rfl
    refine eq_of_getLsbD_eq fun b hb => ?_
    rw [h.tags b hb, h.counts b hb]
    simp

end Tracker

end OVS
