import Mathlib.Data.BitVec
import Mathlib.Data.List.Nodup

/-!
# The exact match cache of the userspace datapath

The flows of one packet processing thread of the userspace datapath (`lib/dpif-netdev.c`): its
classifier, in which flows are installed, and its cache, which maps whole keys to flows.

**Keys.**  A `struct netdev_flow_key` has a miniflow: a map of the words of the flow that are not
zero, and those words.  Keys are compared by `memcmp()` over the length of the one in the cache,
so the model has the words in memory (`FlowKey.mf`), the map first, up to any position.

**Flows.**  A flow has an identity, which stands for its address, and a count of references.
Deleting it sets `dead`.  The cache may still hold it then; nothing tells the cache.

**Interleavings.**  A flow that `dpcls_lookup()` has found is inserted into the cache later
(`Pmd.found`).  In the meantime it may have been deleted.
-/

namespace OVS

namespace Dpif

open List

/-! ## Keys -/

/-- `struct netdev_flow_key`.  `mf` is its memory from the miniflow on, by 64-bit words. -/
structure FlowKey where
  hash : BitVec 32
  len : ℕ
  mf : ℕ → BitVec 64

/-- How many of the first `n` bits are set. -/
def count1Bits (map : BitVec 63) (n : ℕ) : ℕ := (range n).countP map.getLsbD

def netdevFlowKeySize (n : ℕ) : ℕ := 8 + 8 * n

/-- `memcmp()` finds no difference.  Lengths are multiples of the size of a word. -/
def memcmpEqual (a b : ℕ → BitVec 64) (len : ℕ) : Bool :=
  (range (len / 8)).all fun i => a i = b i

namespace FlowKey

/-- `mf.map`.  The last bit of its word is `values_inline`. -/
def map (key : FlowKey) : BitVec 63 := (key.mf 0).setWidth 63

/-- Word `j` of the flow, `mf_get_next_in_map()`. -/
def get (key : FlowKey) (j : ℕ) : BitVec 64 :=
  if key.map.getLsbD j then key.mf (1 + count1Bits key.map j) else 0

/-- The length is that of the miniflow. -/
def Complete (key : FlowKey) : Prop := key.len = netdevFlowKeySize (count1Bits key.map 63)

/-- `netdev_flow_key_equal()`. -/
def equal (a b : FlowKey) : Bool := a.hash = b.hash && memcmpEqual a.mf b.mf a.len

/-- `netdev_flow_key_equal_mf()`. -/
def equalMf (key : FlowKey) (mf : ℕ → BitVec 64) : Bool := memcmpEqual key.mf mf key.len

/-- `netdev_flow_key_clone()`: what is behind the key in memory stays. -/
def clone (dst src : FlowKey) : FlowKey where
  hash := src.hash
  len := src.len
  mf i := if i < src.len / 8 then src.mf i else dst.mf i

/-- A miniflow with the given map, and the words that `f` has where the map has a bit. -/
def ofWords (hash : BitVec 32) (map : BitVec 63) (f : ℕ → BitVec 64) : FlowKey where
  hash := hash
  len := netdevFlowKeySize (count1Bits map 63)
  mf i := ((map.setWidth 64 ||| BitVec.twoPow 64 63) ::
    ((range 63).filter map.getLsbD).map f).getD i 0

end FlowKey

lemma memcmpEqual_iff {a b : ℕ → BitVec 64} {len : ℕ} :
    memcmpEqual a b len = true ↔ ∀ i < len / 8, a i = b i := by
  simp [memcmpEqual]

lemma count1Bits_lt {map : BitVec 63} {j : ℕ} (h : map.getLsbD j = true) :
    count1Bits map j < count1Bits map 63 := by
  have hj : j < 63 := BitVec.lt_of_getLsbD h
  have hle : (range (j + 1)).countP map.getLsbD ≤ count1Bits map 63 :=
    (range_sublist.2 hj).countP_le
  rw [range_succ, countP_append, countP_singleton, if_pos h] at hle
  exact hle

lemma FlowKey.Complete.words {key : FlowKey} (h : key.Complete) :
    key.len / 8 = 1 + count1Bits key.map 63 := by
  rw [h, netdevFlowKeySize]
  omega

lemma FlowKey.map_eq {a : FlowKey} (ha : a.Complete) {b : FlowKey}
    (h : memcmpEqual a.mf b.mf a.len = true) : a.map = b.map := by
  rw [memcmpEqual_iff, ha.words] at h
  exact congrArg (BitVec.setWidth 63) (h 0 (by omega))

/-- **Keys that compare equal are equal**, if the one in the cache has its whole length: the map is
compared first, and then as many words as it has bits. -/
lemma FlowKey.get_eq {a : FlowKey} (ha : a.Complete) {b : FlowKey}
    (h : memcmpEqual a.mf b.mf a.len = true) (j : ℕ) : a.get j = b.get j := by
  unfold FlowKey.get
  rw [← map_eq ha h]
  rw [memcmpEqual_iff, ha.words] at h
  split
  · rename_i hbit
    exact h _ (by have := count1Bits_lt hbit; omega)
  · rfl

lemma FlowKey.clone_words (dst src : FlowKey) :
    memcmpEqual src.mf (dst.clone src).mf src.len = true := by
  rw [memcmpEqual_iff]
  intro i hi
  simp [FlowKey.clone, hi]

lemma FlowKey.Complete.clone {src : FlowKey} (h : src.Complete) (dst : FlowKey) :
    (dst.clone src).Complete := by
  have hmap : src.map = (dst.clone src).map := map_eq h (clone_words dst src)
  unfold FlowKey.Complete
  rw [← hmap]
  exact h

variable (hash : BitVec 32) {f : ℕ → BitVec 64}

@[simp] lemma FlowKey.ofWords_map (map : BitVec 63) : (ofWords hash map f).map = map := by
  ext j hj
  have h63 : ¬63 = j := by omega
  simp [ofWords, FlowKey.map, h63]

lemma FlowKey.complete_ofWords (map : BitVec 63) : (ofWords hash map f).Complete := by
  rw [Complete, ofWords_map]
  rfl

/-- Where a miniflow has the word of a bit. -/
lemma FlowKey.ofWords_word {map : BitVec 63} {j : ℕ} (h : map.getLsbD j = true) :
    (ofWords hash map f).mf (1 + count1Bits map j) = f j := by
  have hj : j < 63 := BitVec.lt_of_getLsbD h
  have hrange : range 63 = range j ++ j :: (range (62 - j)).map (j + 1 + ·) := by
    rw [show 63 = j + 1 + (62 - j) by omega, range_add, range_succ]
    simp
  have hcount : count1Bits map j = ((range j).filter map.getLsbD).length :=
    countP_eq_length_filter
  simp [ofWords, hrange, h, hcount, Nat.add_comm 1]

/-! ## Flows and the classifier -/

/-- `struct dp_netdev_flow`, with its `struct dpcls_rule`. -/
structure DpFlow where
  id : ℕ
  mask : FlowKey
  flow : FlowKey
  dead : Bool
  refCnt : ℕ

/-- `dpcls_rule_matches_key()`. -/
def DpFlow.matchesKey (f : DpFlow) (target : FlowKey) : Bool :=
  ((range 63).filter f.flow.map.getLsbD).all fun j =>
    target.get j &&& f.mask.mf (1 + count1Bits f.flow.map j) =
      f.flow.mf (1 + count1Bits f.flow.map j)

/-- `struct dpcls_subtable`. -/
structure Subtable where
  mask : FlowKey
  rules : List ℕ

structure EmcEntry where
  flow : Option ℕ
  key : FlowKey

def emFlowHashEntries : ℕ := 1024

def emFlowHashShift : ℕ := 10

/-- A `struct dp_netdev_pmd_thread`. -/
structure Pmd where
  /-- Every flow that there has been. -/
  flows : List DpFlow
  subtables : List Subtable
  entries : ℕ → EmcEntry
  sweepIdx : ℕ
  /-- What `dpcls_lookup()` has returned for which key. -/
  found : List (FlowKey × ℕ)

/-- What keys are made of, which does not matter here: hashes, and the words that make sense for a
flow. -/
structure Hashing where
  hash : List (BitVec 64) → ℕ → BitVec 32
  /-- `flow_wc_map()`. -/
  flowWcMap : (ℕ → BitVec 64) → BitVec 63

/-- `emc_cache_init()` and `dpcls_init()`. -/
def Pmd.init : Pmd where
  flows := []
  subtables := []
  entries _ := ⟨none, ⟨0, netdevFlowKeySize 0, fun _ => BitVec.twoPow 64 63⟩⟩
  sweepIdx := 0
  found := []

namespace Pmd

/-- The flow with an identity. -/
def flow (s : Pmd) (id : ℕ) : Option DpFlow := s.flows.find? fun f => f.id = id

/-- A flow changes. -/
def modifyFlow (s : Pmd) (id : ℕ) (g : DpFlow → DpFlow) : Pmd :=
  { s with flows := s.flows.map fun f => if f.id = id then g f else f }

/-- `dp_netdev_flow_unref()`.  The memory is freed later, when nobody can look at it. -/
def flowUnref (s : Pmd) (id : ℕ) : Pmd :=
  s.modifyFlow id fun f => { f with refCnt := f.refCnt - 1 }

/-- `dp_netdev_flow_ref()`, if the flow still has references. -/
def flowRef (s : Pmd) (id : ℕ) : Option Pmd :=
  match s.flow id with
  | none => none
  | some f =>
    if f.refCnt = 0 then none
    else some (s.modifyFlow id fun f => { f with refCnt := f.refCnt + 1 })

end Pmd

section

variable (H : Hashing)

def netdevFlowMaskInit (flow mask : ℕ → BitVec 64) : FlowKey :=
  let map := ((range 63).filter (H.flowWcMap flow).getLsbD).foldl
    (fun map j => if mask j = 0 then map else map ||| BitVec.twoPow 63 j) 0
  .ofWords (H.hash (((range 63).filter map.getLsbD).map mask ++ [map.setWidth 64])
    (8 * count1Bits map 63)) map mask

def netdevFlowKeyInitMasked (flow : ℕ → BitVec 64) (mask : FlowKey) : FlowKey :=
  let value j := flow j &&& mask.mf (1 + count1Bits mask.map j)
  .ofWords (H.hash (((range 63).filter mask.map.getLsbD).map value)
    (8 * count1Bits mask.map 63)) mask.map value

def netdevFlowKeyHashInMask (key mask : FlowKey) : BitVec 32 :=
  H.hash (((range 63).filter mask.map.getLsbD).map fun j =>
    key.get j &&& mask.mf (1 + count1Bits mask.map j)) (8 * count1Bits mask.map 63)

/-- `dpcls_insert()` into the subtables, with the mask that the rule refers to. -/
def dpclsInsert (id : ℕ) (mask : FlowKey) : List Subtable → List Subtable × FlowKey
  | [] => ([⟨mask, [id]⟩], mask)
  | st :: sts =>
    if st.mask.equal mask then ({ st with rules := id :: st.rules } :: sts, st.mask)
    else ((st :: (dpclsInsert id mask sts).1), (dpclsInsert id mask sts).2)

def dpNetdevFlowAdd (s : Pmd) (flow mask : ℕ → BitVec 64) : Pmd :=
  let maskKey := netdevFlowMaskInit H flow mask
  let id := s.flows.length
  { s with
    flows := ⟨id, (dpclsInsert id maskKey s.subtables).2, netdevFlowKeyInitMasked H flow maskKey,
      false, 1⟩ :: s.flows
    subtables := (dpclsInsert id maskKey s.subtables).1 }

/-- `dpcls_remove()`: a subtable without rules goes. -/
def dpclsRemove (id : ℕ) (sts : List Subtable) : List Subtable :=
  (sts.map fun st => { st with rules := st.rules.filter fun i => i ≠ id }).filter
    fun st => st.rules ≠ []

def dpNetdevPmdRemoveFlow (s : Pmd) (id : ℕ) : Pmd :=
  let s := { s with subtables := dpclsRemove id s.subtables }
  (s.modifyFlow id fun f => { f with dead := true }).flowUnref id

/-- The rule of a subtable that `dpcls_lookup()` finds. -/
def Subtable.lookup (s : Pmd) (key : FlowKey) (st : Subtable) : Option ℕ :=
  st.rules.find? fun id =>
    match s.flow id with
    | none => false
    | some f => f.flow.hash = netdevFlowKeyHashInMask H key st.mask && f.matchesKey key

/-- `dpcls_lookup()` of one key. -/
def dpclsLookup (s : Pmd) (key : FlowKey) : Option ℕ :=
  s.subtables.findSome? (Subtable.lookup H s key)

end

/-! ## The cache -/

/-- The positions of `EMC_FOR_EACH_POS_WITH_HASH`. -/
def emcPositions (hash : BitVec 32) : List ℕ :=
  [hash.toNat % emFlowHashEntries, (hash >>> emFlowHashShift).toNat % emFlowHashEntries]

def emcEntryAlive (s : Pmd) (i : ℕ) : Bool :=
  match (s.entries i).flow with
  | none => false
  | some id =>
    match s.flow id with
    | none => false
    | some f => !f.dead

/-- An entry changes. -/
def Pmd.setEntry (s : Pmd) (i : ℕ) (ce : EmcEntry) : Pmd :=
  { s with entries := Function.update s.entries i ce }

def emcClearEntry (s : Pmd) (i : ℕ) : Pmd :=
  match (s.entries i).flow with
  | none => s
  | some id => (s.flowUnref id).setEntry i { s.entries i with flow := none }

/-- The first half of `emc_change_entry()`: the entry has the flow, if there is one to refer to. -/
def emcChangeFlow (s : Pmd) (i id : ℕ) : Pmd :=
  if (s.entries i).flow = some id then s
  else
    let s' := match (s.entries i).flow with
      | none => s
      | some old => s.flowUnref old
    match s'.flowRef id with
    | some s'' => s''.setEntry i { s.entries i with flow := some id }
    | none => s'.setEntry i { s.entries i with flow := none }

def emcChangeEntry (s : Pmd) (i id : ℕ) (key : Option FlowKey) : Pmd :=
  let s := emcChangeFlow s i id
  match key with
  | none => s
  | some key => s.setEntry i { s.entries i with key := (s.entries i).key.clone key }

/-- The replacement policy of `emc_insert()`. -/
def toBeReplaced (s : Pmd) (current : ℕ) : Option ℕ → ℕ
  | none => current
  | some i =>
    if (emcEntryAlive s i && !emcEntryAlive s current) ||
      (s.entries current).key.hash < (s.entries i).key.hash then current
    else i

/-- The loop of `emc_insert()`. -/
def emcInsertLoop (s : Pmd) (key : FlowKey) (id : ℕ) : List ℕ → Option ℕ → Pmd
  | [], none => s
  | [], some i => emcChangeEntry s i id (some key)
  | current :: rest, replaced =>
    if (s.entries current).key.equal key then emcChangeEntry s current id none
    else emcInsertLoop s key id rest (some (toBeReplaced s current replaced))

def emcInsert (s : Pmd) (key : FlowKey) (id : ℕ) : Pmd :=
  emcInsertLoop s key id (emcPositions key.hash) none

def emcLookup (s : Pmd) (key : FlowKey) : Option ℕ :=
  (emcPositions key.hash).findSome? fun i =>
    if (s.entries i).key.hash = key.hash && emcEntryAlive s i &&
      (s.entries i).key.equalMf key.mf then (s.entries i).flow
    else none

def emcCacheUninit (s : Pmd) : Pmd := (range emFlowHashEntries).foldl emcClearEntry s

def emcCacheSlowSweep (s : Pmd) : Pmd :=
  let s' := if emcEntryAlive s s.sweepIdx then s else emcClearEntry s s.sweepIdx
  { s' with sweepIdx := (s.sweepIdx + 1) % emFlowHashEntries }

/-- What happens in any order.  `emc_lookup()` changes nothing.  In an `upcall` the flow that is
added is made from the key, as in `fast_path_processing()`. -/
inductive Step (H : Hashing) : Pmd → Pmd → Prop where
  | add (s : Pmd) (flow mask : ℕ → BitVec 64) : Step H s (dpNetdevFlowAdd H s flow mask)
  | remove {s : Pmd} {f : DpFlow} : s.flow f.id = some f → f.dead = false →
      Step H s (dpNetdevPmdRemoveFlow s f.id)
  | lookup {s : Pmd} {key : FlowKey} {id : ℕ} : key.Complete → dpclsLookup H s key = some id →
      Step H s { s with found := (key, id) :: s.found }
  | upcall (s : Pmd) {key : FlowKey} (mask : ℕ → BitVec 64) : key.Complete →
      Step H s { dpNetdevFlowAdd H s key.get mask with
        found := (key, s.flows.length) :: s.found }
  | insert {s : Pmd} {key : FlowKey} {id : ℕ} : (key, id) ∈ s.found →
      Step H s (emcInsert s key id)
  | sweep (s : Pmd) : Step H s (emcCacheSlowSweep s)
  | uninit (s : Pmd) : Step H s (emcCacheUninit s)

/-- The states that can be reached. -/
inductive Reachable (H : Hashing) : Pmd → Prop where
  | init : Reachable H Pmd.init
  | step {s s' : Pmd} : Reachable H s → Step H s s' → Reachable H s'

end Dpif

end OVS
