import Mathlib.Data.List.Count
import OpenVSwitch.Lib.Trie

/-!
# Prefix tries of the classifier

The prefixes of a field in the rules of a classifier, and those of the transport ports in the rules
of a subtable, are kept in tries whose nodes have up to 32 bits.

**The way up.**  A node that is not needed any more goes when a prefix is removed, and then the one
above it may have to go, too.  For this `trie_remove_prefix()` keeps the edges of its walk in an
array, `edges[]`.  It has as many entries as the widest field has bits, but the root of a trie need
not have bits of its own, and then there may be one node more on the way (`removal_overruns`).

* `trieLookupValue_exact` — lookups are exact after any insertions and removals, as long as every
  removal stays within `edges[]`.
* `fitsEdges_of_length` — for prefixes of less than 128 bits it does.
-/

namespace OVS

open List

def triePrefixBits : ℕ := 32

/-- The number of entries of `edges[]`, `sizeof(union mf_value) * 8`. -/
def trieEdges : ℕ := 128

/-- Whether the walk of `trie_remove_prefix()` stays within `edges[]`: it fills one entry more than
it follows edges. -/
def fitsEdges (root : Trie) (p : List Bool) : Bool := root.depth p < trieEdges

def trieInsertPrefix (root : Trie) (p : List Bool) : Trie := root.insert triePrefixBits p

/-- `trie_remove_prefix()`.  There is no result if it writes behind the end of `edges[]`. -/
def trieRemovePrefix (root : Trie) (p : List Bool) : Option Trie :=
  if fitsEdges root p then some (root.remove triePrefixBits p) else none

/-- `trie_lookup_value()`: how many bits decide it, and the bits of `plens`. -/
def trieLookupValue (root : Trie) (value : List Bool) : ℕ × (ℕ → Bool) :=
  ((root.lookup value).1, fun i => i + 1 ∈ (root.lookup value).2)

variable {root : Trie} {S : List (List Bool)} {p : List Bool} {nBits : ℕ}

lemma fitsEdges_nil (root : Trie) : fitsEdges root [] = true := by
  cases root with
  | nil => rfl
  | node bits n edges => cases bits <;> rfl

/-- All fields but those of IPv6 addresses are too narrow for the walk to leave `edges[]`. -/
lemma fitsEdges_of_length (h : root.Wf) (hp : p.length < trieEdges) : fitsEdges root p = true :=
  decide_eq_true (Nat.lt_of_le_of_lt (Trie.depth_le h p) hp)

/-! ## Runs -/

/-- The tries of `nBits` wide prefixes that insertions, and removals of what there is, lead to.
Every removal stays within `edges[]`. -/
inductive TrieRun (nBits : ℕ) : Trie → List (List Bool) → Prop where
  | init : TrieRun nBits .nil []
  | insert {root : Trie} {S : List (List Bool)} {p : List Bool} (h : TrieRun nBits root S)
      (hpos : 1 ≤ p.length) (hle : p.length ≤ nBits) :
      TrieRun nBits (trieInsertPrefix root p) (p :: S)
  | remove {root root' : Trie} {S : List (List Bool)} {p : List Bool} (h : TrieRun nBits root S)
      (hp : p ∈ S) (hremove : trieRemovePrefix root p = some root') :
      TrieRun nBits root' (S.erase p)

/-- A run leaves a well-formed trie that counts each prefix as often as it was inserted and not
removed. -/
lemma TrieRun.count (h : TrieRun nBits root S) :
    root.Wf ∧ (∀ p, root.count p = S.count p) ∧ ∀ p ∈ S, 1 ≤ p.length ∧ p.length ≤ nBits := by
  induction h with
  | init => exact ⟨trivial, fun _ => rfl, by simp⟩
  | @insert root S p _ hpos hle ih =>
    obtain ⟨hwf, hcount, hlen⟩ := ih
    refine ⟨hwf.insert (by decide) p, fun q => ?_, forall_mem_cons.2 ⟨⟨hpos, hle⟩, hlen⟩⟩
    rw [trieInsertPrefix, Trie.count_insert (by decide), hcount, count_cons]
    simp only [beq_iff_eq, eq_comm (a := p)]
  | @remove root root' S p _ _ hremove ih =>
    obtain ⟨hwf, hcount, hlen⟩ := ih
    obtain ⟨-, hroot⟩ := Option.ite_none_right_eq_some.1 hremove
    cases hroot
    refine ⟨hwf.remove _ p, fun q => ?_, fun q hq => hlen q (mem_of_mem_erase hq)⟩
    rw [Trie.count_remove hwf, hcount, count_erase]
    simp only [beq_iff_eq, eq_comm (a := p)]

/-- **A lookup finds the lengths of the stored prefixes of a value**, and a value that has as many
of its bits as it returns gives the same lengths. -/
theorem trieLookupValue_exact (h : TrieRun nBits root S) (v : List Bool)
    (hv : v.length = nBits) : (∀ l, 1 ≤ l → ((trieLookupValue root v).2 (l - 1) = true ↔
      ∃ p ∈ S, p.length = l ∧ p = v.take l)) ∧
    ∀ w : List Bool, w.length = nBits →
      w.take (trieLookupValue root v).1 = v.take (trieLookupValue root v).1 →
      (trieLookupValue root w).2 = (trieLookupValue root v).2 := by
  obtain ⟨hwf, hcount, hlen⟩ := h.count
  have hstored (p : List Bool) : 0 < root.count p ↔ p ∈ S := by rw [hcount, count_pos_iff]
  constructor
  · intro l hl
    simp only [trieLookupValue, Nat.sub_add_cancel hl, decide_eq_true_eq, Trie.mem_lookup hwf,
      hstored]
    constructor
    · rintro ⟨p, hp, hmem, rfl⟩
      exact ⟨p, hmem, rfl, prefix_iff_eq_take.1 hp⟩
    · rintro ⟨p, hmem, rfl, hp⟩
      exact ⟨p, prefix_iff_eq_take.2 hp, hmem, rfl⟩
  · intro w hw htake
    funext i
    simp only [trieLookupValue, Trie.mem_lookup hwf, hstored, decide_eq_decide]
    refine exists_congr fun p => and_congr_left fun ⟨hmem, hi⟩ => ?_
    exact Trie.prefix_lookup_iff hwf htake ((hstored p).2 hmem) (hv ▸ (hlen p hmem).2)

/-- Three prefixes, two of which part, and a removal after which two nodes are joined again. -/
theorem trieLookupValue_exact_joined :
    let v := true :: false :: true :: replicate 29 false
    ∃ root, TrieRun 32 root [[true, false, true], [true]] ∧ root.count [true, true] = 0 ∧
      (∀ l, 1 ≤ l → ((trieLookupValue root v).2 (l - 1) = true ↔
        ∃ p ∈ [[true, false, true], [true]], p.length = l ∧ p = v.take l)) ∧
      ∀ w : List Bool, w.length = 32 →
        w.take (trieLookupValue root v).1 = v.take (trieLookupValue root v).1 →
        (trieLookupValue root w).2 = (trieLookupValue root v).2 := by
  have hrun : TrieRun 32 _ [[true, false, true], [true]] :=
    .remove (p := [true, true]) (.insert (.insert (.insert .init (p := [true]) (by decide)
      (by decide)) (p := [true, false, true]) (by decide) (by decide)) (p := [true, true])
      (by decide) (by decide)) mem_cons_self rfl
  exact ⟨_, hrun, rfl, trieLookupValue_exact hrun _ rfl⟩

/-! ## Too many nodes -/

/-- Prefixes that are inserted one after the other. -/
lemma exists_trieRun (h : ∀ p ∈ S, 1 ≤ p.length ∧ p.length ≤ nBits) :
    ∃ root, TrieRun nBits root S := by
  induction S with
  | nil => exact ⟨_, .init⟩
  | cons p S ih =>
    obtain ⟨hp, hS⟩ := forall_mem_cons.1 h
    obtain ⟨root, hroot⟩ := ih hS
    exact ⟨_, hroot.insert hp.1 hp.2⟩

/-- Prefixes of all lengths up to 128, and one that is not like the others. -/
def tooManyPrefixes : List (List Bool) :=
  [true] :: (range' 1 128).map (replicate · false)

lemma commonLength_replicate {m n : ℕ} (h : m ≤ n) (b : Bool) :
    commonLength (replicate m b) (replicate n b) = m := by
  obtain ⟨k, rfl⟩ := Nat.exists_eq_add_of_le h
  rw [replicate_add, commonLength_append, length_replicate]

/-- With these prefixes the way to the longest one has a node for each of its bits, and the root. -/
lemma not_fitsEdges (hstored : ∀ q ∈ tooManyPrefixes, 0 < root.count q) :
    fitsEdges root (replicate 128 false) = false := by
  refine decide_eq_false (Nat.not_lt.2 ?_)
  have hmem : ∀ l, 1 ≤ l → l ≤ 128 → 0 < root.count (replicate l false) := fun l h1 h2 =>
    hstored _ (mem_cons_of_mem _ (mem_map_of_mem (mem_range'_1.2 ⟨h1, by omega⟩)))
  have hlength : (range 128).length = trieEdges := length_range
  rw [← hlength]
  refine Trie.length_le_depth (hmem 128 (by decide) (by decide)) pairwise_lt_range fun l hl => ?_
  rw [mem_range] at hl
  refine ⟨by simpa using hl, ?_⟩
  cases l with
  | zero => exact ⟨[true], hstored _ mem_cons_self, rfl⟩
  | succ l => exact ⟨_, hmem (l + 1) (by omega) (by omega), commonLength_replicate (by omega) _⟩

/-- **A removal can leave `edges[]`.** -/
theorem removal_overruns : ∃ root, TrieRun 128 root tooManyPrefixes ∧
    replicate 128 false ∈ tooManyPrefixes ∧ trieRemovePrefix root (replicate 128 false) = none := by
  obtain ⟨root, hroot⟩ := @exists_trieRun tooManyPrefixes 128 (by decide +kernel)
  refine ⟨root, hroot, by decide +kernel, ?_⟩
  rw [trieRemovePrefix, not_fitsEdges fun q hq => ?_]
  · rfl
  · rw [hroot.count.2.1]
    exact count_pos_iff.2 hq

end OVS
