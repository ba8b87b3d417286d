import OpenVSwitch.Cmap.Model
import OpenVSwitch.Dpif.Coherence
import OpenVSwitch.Hash
import OpenVSwitch.Lib.BitSet

/-!
# Lookups in batches

`dpcls_lookup()` looks up the keys of a batch of packets together.  For each 16 keys it has a map,
in which a bit is set as long as a key has no rule.  In each subtable it searches for the keys of a
map with `cmap_find_batch()`, which does not touch the nodes of keys that it does not find.
Nothing else uses the classifier meanwhile, and sizes are numbers.

* `findBatch_spec` — `cmap_find_batch()` does for each key what `cmap_find()` does.
* `lookupRow_spec` — a subtable gives rules to keys that have none, and clears their bits.
* **`lookup_batch`** — a batch gives each key the rule that the key alone gets.
-/

namespace OVS

namespace Dpif

open List BitSet

variable {w : ℕ} {i : Fin w}

/-! ## Loops over bits -/

/-- `ULONG_FOR_EACH_1`: the bits of a map from the lowest on. -/
def ones (map : BitVec w) : List (Fin w) := (finRange w).filter fun i => Has map i

lemma mem_ones {map : BitVec w} : i ∈ ones map ↔ Has map i := by
  simp [ones]

/-- A loop that searches for something for each index.  What is found is stored, and in a map the
bits are cleared of what is found, or of what is not. -/
def searchEach (clears : Option ℕ → Bool) (find : Fin w → Option ℕ) (is : List (Fin w))
    (s : BitVec w × (Fin w → Option ℕ)) : BitVec w × (Fin w → Option ℕ) :=
  is.foldl (fun s i => (if clears (find i) then s.1 &&& ~~~bit i else s.1,
    match find i with
    | none => s.2
    | some x => Function.update s.2 i (some x))) s

lemma searchEach_spec {clears : Option ℕ → Bool} {find : Fin w → Option ℕ} (is : List (Fin w))
    {s : BitVec w × (Fin w → Option ℕ)} :
    (Has (searchEach clears find is s).1 i ↔ Has s.1 i ∧ ¬(i ∈ is ∧ clears (find i) = true)) ∧
      (searchEach clears find is s).2 i = if i ∈ is then (find i).or (s.2 i) else s.2 i := by
  induction is generalizing s with
  | nil => simp [searchEach]
  | cons j is ih =>
    refine ⟨ih.1.trans ?_, ih.2.trans ?_⟩
    · by_cases hij : j = i
      · subst hij
        cases hclears : clears (find j) <;> simp [hclears]
      · cases hclears : clears (find j) <;> simp [hclears, hij, Ne.symm hij]
    · by_cases hij : i = j
      · subst hij
        cases hfind : find i <;> simp [hfind]
      · cases hfind : find j <;> simp [hij, hfind]

/-- `cmap_find_batch()`. -/
def findBatch (impl : CmapImpl) (map : BitVec w) (hashes : Fin w → BitVec 32)
    (nodes : Fin w → Option ℕ) : BitVec w × (Fin w → Option ℕ) :=
  let find₁ i := Cuckoo.findInBucket (impl.buckets (impl.bucket₁ hashFinish (hashes i))) (hashes i)
  let find₂ i := Cuckoo.findInBucket (impl.buckets (impl.bucket₂ hashFinish (hashes i))) (hashes i)
  let round₁ := searchEach Option.isSome find₁ (ones map) (map, nodes)
  searchEach Option.isNone find₂ (ones round₁.1) (map, round₁.2)

lemma findBatch_spec {impl : CmapImpl} {map : BitVec w} {hashes : Fin w → BitVec 32}
    {nodes : Fin w → Option ℕ} : (Has (findBatch impl map hashes nodes).1 i ↔
        Has map i ∧ impl.find hashFinish (hashes i) ≠ none) ∧
      (findBatch impl map hashes nodes).2 i =
        if Has map i then (impl.find hashFinish (hashes i)).or (nodes i) else nodes i := by
  simp only [findBatch, searchEach_spec, mem_ones, CmapImpl.find, Cuckoo.lookup]
  cases Cuckoo.findInBucket (impl.buckets (impl.bucket₁ hashFinish (hashes i))) (hashes i) with
  | none => simp +contextual
  | some x => simp

/-! ## The classifier -/

/-- `struct dpcls_subtable`, with what `CMAP_NODE_FOR_EACH` visits from each node on. -/
structure DpclsSubtable where
  mask : FlowKey
  rules : Cmap
  chain : ℕ → List ℕ
  linked : ∀ node, Chain rules.next (some node) (chain node)

/-- `struct dpcls`, with the rules that nodes are part of. -/
structure Dpcls where
  subtables : List DpclsSubtable
  rule : ℕ → DpFlow

/-- 16 keys of a batch: `mkeys`, `maps[m]`, `mrules`, and what is in `nodes`, which is not
initialized, before each search. -/
structure BatchRow where
  keys : Fin 16 → FlowKey
  map : BitVec 16
  rules : Fin 16 → Option ℕ
  nodes : DpclsSubtable → Fin 16 → Option ℕ

namespace Dpcls

variable (H : Hashing) (cls : Dpcls)

/-- The first rule from a node on that matches a key. -/
def matchFrom (st : DpclsSubtable) (key : FlowKey) (node : ℕ) : Option ℕ :=
  (st.chain node).find? fun id => (cls.rule id).matchesKey key

/-- What `dpcls_lookup()` does with a map in a subtable. -/
def lookupRow (row : BatchRow) (st : DpclsSubtable) : BatchRow :=
  if row.map = 0 then row
  else
    let hashes i := netdevFlowKeyHashInMask H (row.keys i) st.mask
    let found := findBatch st.rules.impl row.map hashes (row.nodes st)
    let checked := searchEach Option.isNone
      (fun i => (found.2 i).bind (cls.matchFrom st (row.keys i))) (ones found.1)
      (found.1, row.rules)
    { row with map := row.map &&& ~~~checked.1, rules := checked.2 }

/-- The loop over the subtables. -/
def lookupLoop : List DpclsSubtable → List BatchRow → Bool × List BatchRow
  | [], rows => (false, rows)
  | st :: sts, rows =>
    let rows := rows.map (lookupRow H cls · st)
    if rows.foldl (fun remains row => remains ||| row.map) 0 = 0 then (true, rows)
    else lookupLoop sts rows

def nMaps (cnt : ℕ) : ℕ := (cnt + 15) / 16

/-- The keys of map `m` before the loop. -/
def initRow (nodes : ℕ → DpclsSubtable → Fin 16 → Option ℕ) (keys : ℕ → FlowKey) (cnt : ℕ)
    (rules : ℕ → Option ℕ) (m : ℕ) : BatchRow where
  keys i := keys (16 * m + i)
  map := if cnt % 16 ≠ 0 ∧ m = nMaps cnt - 1 then BitVec.allOnes 16 >>> (16 - cnt % 16)
    else BitVec.allOnes 16
  rules i := if 16 * m + i < cnt then none else rules (16 * m + i)
  nodes := nodes m

/-- `dpcls_lookup()` of `cnt` keys, with what is in `rules` before and afterwards. -/
def lookup (nodes : ℕ → DpclsSubtable → Fin 16 → Option ℕ) (keys : ℕ → FlowKey) (cnt : ℕ)
    (rules : ℕ → Option ℕ) : Bool × (ℕ → Option ℕ) :=
  let rows := (range (nMaps cnt)).map (initRow nodes keys cnt rules)
  let res := lookupLoop H cls cls.subtables rows
  (res.1, fun i => (res.2[i / 16]?).elim (rules i) fun row => row.rules (Fin.ofNat 16 i))

/-- The rule of a subtable for a key. -/
def find (key : FlowKey) (st : DpclsSubtable) : Option ℕ :=
  (st.rules.find hashFinish (netdevFlowKeyHashInMask H key st.mask)).bind (cls.matchFrom st key)

variable {H cls} {row : BatchRow} {i : Fin 16} {sts : List DpclsSubtable} {rows : List BatchRow}
  {st : DpclsSubtable}

lemma lookupRow_keys : (lookupRow H cls row st).keys = row.keys := by
  unfold lookupRow
  split <;> rfl

lemma lookupRow_spec :
    (Has (lookupRow H cls row st).map i ↔ Has row.map i ∧ find H cls (row.keys i) st = none) ∧
      (lookupRow H cls row st).rules i = if Has row.map i then
        (find H cls (row.keys i) st).or (row.rules i) else row.rules i := by
  unfold lookupRow
  split
  · rename_i hzero
    simp [hzero]
  · simp only [has_diff, searchEach_spec, mem_ones, findBatch_spec, find, Cmap.find]
    by_cases hmap : Has row.map i
    · cases st.rules.impl.find hashFinish _ <;> simp [hmap]
    · simp [hmap]

/-- **A map in subtables**, one after the other: each key gets the first rule. -/
lemma foldl_lookupRow : (Has (sts.foldl (lookupRow H cls) row).map i ↔
        Has row.map i ∧ sts.findSome? (find H cls (row.keys i)) = none) ∧
      (sts.foldl (lookupRow H cls) row).rules i = if Has row.map i then
        (sts.findSome? (find H cls (row.keys i))).or (row.rules i) else row.rules i := by
  induction sts generalizing row with
  | nil => simp
  | cons st sts ih =>
    simp only [foldl_cons, ih, lookupRow_keys, lookupRow_spec, findSome?_cons]
    by_cases hbit : Has row.map i
    · cases find H cls (row.keys i) st <;> simp [hbit]
    · simp [hbit]

lemma foldl_remains (remains : BitVec 16) :
    rows.foldl (fun remains row => remains ||| row.map) remains = 0 ↔
      remains = 0 ∧ ∀ row ∈ rows, row.map = 0 := by
  induction rows generalizing remains with
  | nil => simp
  | cons row rows ih =>
    rw [foldl_cons, ih, forall_mem_cons, ← and_assoc]
    exact and_congr_left' BitVec.or_eq_zero_iff

/-- **The loop over the subtables** ends early if no map has a bit left. -/
lemma lookupLoop_spec (sts : List DpclsSubtable) (rows : List BatchRow) :
    (lookupLoop H cls sts rows).2 = rows.map (fun row => sts.foldl (lookupRow H cls) row) ∧
      ((∃ row ∈ rows, row.map ≠ 0) → ((lookupLoop H cls sts rows).1 = true ↔
        ∀ row ∈ (lookupLoop H cls sts rows).2, row.map = 0)) := by
  induction sts generalizing rows with
  | nil => simp [lookupLoop]
  | cons st sts ih =>
    obtain ⟨hrows, hall⟩ := ih (rows.map (lookupRow H cls · st))
    unfold lookupLoop
    simp only [foldl_remains, true_and]
    split
    · rename_i hzero
      refine ⟨map_congr_left fun row hrow => ?_, fun _ => iff_of_true rfl hzero⟩
      -- a map without bits stays as it is
      exact (foldl_fixed' (f := lookupRow H cls)
        (fun st' => if_pos (hzero _ (mem_map_of_mem hrow))) sts).symm
    · rename_i hsome
      push Not at hsome
      exact ⟨hrows.trans map_map, fun _ => hall hsome⟩

variable {nodes : ℕ → DpclsSubtable → Fin 16 → Option ℕ} {keys : ℕ → FlowKey}
  {rules : ℕ → Option ℕ} {cnt m : ℕ}

lemma has_initRow (hm : m < nMaps cnt) :
    Has (initRow nodes keys cnt rules m).map i ↔ 16 * m + i < cnt := by
  have hi := i.2
  unfold nMaps at hm
  unfold initRow nMaps Has
  simp only
  split
  · simp only [BitVec.getLsbD_ushiftRight, BitVec.getLsbD_allOnes, decide_eq_true_eq]
    omega
  · simp only [BitVec.getLsbD_allOnes, decide_eq_true_eq]
    omega

lemma div_lt_nMaps {i : ℕ} (hi : i < cnt) : i / 16 < nMaps cnt := by
  unfold nMaps
  omega

/-- Each key gets the rule of the first subtable that has one. -/
lemma lookup_rules {i : ℕ} (hi : i < cnt) :
    (lookup H cls nodes keys cnt rules).2 i = cls.subtables.findSome? (find H cls (keys i)) := by
  have hindex : 16 * (i / 16) + (Fin.ofNat 16 i : ℕ) = i := Nat.div_add_mod i 16
  simp only [lookup, (lookupLoop_spec _ _).1, map_map, getElem?_map,
    getElem?_range (div_lt_nMaps hi), Option.map_some, Option.elim_some, Function.comp_apply,
    foldl_lookupRow, has_initRow (div_lt_nMaps hi), hindex]
  simp [initRow, Nat.div_add_mod, hi]

/-- **A batch gives each key the rule that the key alone gets**, and the result says whether each
has got one. -/
theorem lookup_batch (hcnt : 0 < cnt) (nodes' : ℕ → DpclsSubtable → Fin 16 → Option ℕ)
    (rules' : ℕ → Option ℕ) :
    (∀ i < cnt, (lookup H cls nodes keys cnt rules).2 i =
        (lookup H cls nodes' (fun j => keys (i + j)) 1 rules').2 0) ∧
      ((lookup H cls nodes keys cnt rules).1 = true ↔
        ∀ i < cnt, (lookup H cls nodes keys cnt rules).2 i ≠ none) := by
  refine ⟨fun i hi => by rw [lookup_rules hi, lookup_rules Nat.one_pos, Nat.add_zero], ?_⟩
  have hfirst : ∃ row ∈ (range (nMaps cnt)).map (initRow nodes keys cnt rules), row.map ≠ 0 := by
    refine ⟨_, mem_map_of_mem (mem_range.2 (div_lt_nMaps hcnt)), fun hzero => ?_⟩
    exact eq_zero_iff.1 hzero 0 ((has_initRow (div_lt_nMaps hcnt)).2 hcnt)
  refine ((lookupLoop_spec _ _).2 hfirst).trans ?_
  simp only [(lookupLoop_spec _ _).1, map_map, forall_mem_map, mem_range, eq_zero_iff,
    Function.comp_apply, foldl_lookupRow]
  constructor
  · intro h i hi
    have hkey := h (i / 16) (div_lt_nMaps hi) (Fin.ofNat 16 i)
    rw [has_initRow (div_lt_nMaps hi)] at hkey
    rw [lookup_rules hi]
    simpa [initRow, Nat.div_add_mod, hi] using hkey
  · intro h m hm i hbit
    rw [has_initRow hm] at hbit
    refine h _ hbit.1 ?_
    rw [lookup_rules hbit.1]
    exact hbit.2

/-- A classifier with a rule for `keyFive`. -/
def fiveCls : Dpcls where
  subtables :=
    let impl := (CmapImpl.create 0 0).setBucket 0 ⟨0, by decide⟩ (some 0) 0
    [⟨keyFive, ⟨impl, fun _ => none⟩, fun node => [node], by simp⟩]
  rule _ := ⟨0, keyFive, keyFive, false, 1⟩

/-- A full map and one key more. -/
theorem lookup_batch_fiveCls :
    let batch := fiveCls.lookup plainHashing (fun _ _ _ => some 7) (fun _ => keyFive) 17 some
    batch.2 16 = some 0 ∧ (∀ i < 17, batch.2 i = (fiveCls.lookup plainHashing (fun _ _ _ => none)
      (fun _ => keyFive) 1 some).2 0) ∧ (batch.1 = true ↔ ∀ i < 17, batch.2 i ≠ none) :=
  ⟨by decide +kernel, lookup_batch (by decide) (fun _ _ _ => none) some⟩

end Dpcls

end Dpif

end OVS
