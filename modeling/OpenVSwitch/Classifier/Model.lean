import OpenVSwitch.Classifier.Flow
import OpenVSwitch.Classifier.PVector
import OpenVSwitch.Classifier.Tags
import OpenVSwitch.Classifier.Trie

/-!
# The flow classifier

`lib/classifier.c`: rules by mask, one subtable for each mask.  A subtable has a hash table of its
rules, hash tables for the first segments of the words of a flow (its indices), and a prefix trie
of transport ports.  Rules with the same match are in one list by decreasing priority, and only the
head of the list is in these data structures.  The classifier has a vector of the subtables by
priority, for each value of `metadata` a set of tags of subtables, and prefix tries of fields.

**Pointers.**  A rule, with its `struct cls_match`, is known by its number, and a subtable by its
mask, since there is never more than one for a mask.

**Hash tables.**  A `struct cmap` is a list of hash and node.  What it finds for a hash is whatever
the list has for it.  The hash functions are arbitrary functions of the words that are hashed.

Readers that run at the same time as a writer are left out.
-/

namespace OVS

open Flow

def clsMaxIndices : ℕ := 3

def clsMaxTries : ℕ := 3

structure ClsConjunction where
  id : BitVec 32
  clause : ℕ
  nClauses : ℕ
deriving DecidableEq

/-- A `struct cls_rule` and its `struct cls_match`. -/
structure ClsMatch where
  id : ℕ
  minimatch : Match flowBits
  priority : ℤ
  conj : List ClsConjunction
deriving DecidableEq

/-- The head of a list of equal matches in the `rules` of a subtable, with its hash, its partition
and the rest of the list. -/
structure ClsHead where
  hash : BitVec 32
  partition : Option (BitVec 64)
  head : ClsMatch
  rest : List ClsMatch
deriving DecidableEq

/-- The list of equal matches. -/
def ClsHead.list (e : ClsHead) : List ClsMatch := e.head :: e.rest

structure ClsSubtable where
  maxPriority : ℤ
  maxCount : ℕ
  tag : BitVec 32
  indexOfs : List ℕ
  triePlen : ℕ → ℕ
  portsMaskLen : ℕ
  indices : ℕ → List (BitVec 32 × ℕ)
  portsTrie : Trie
  rules : List ClsHead
  mask : Flow

structure ClsPartition where
  metadata : BitVec 64
  tracker : Tracker

/-- The part of `struct mf_field` that prefix lookup uses.  There is no offset for a field on
which it is not possible. -/
structure MfField where
  flowBe32ofs : Option ℕ
  nBits : ℕ
  /-- `mf_are_prereqs_ok()`. -/
  prereqsOk : Flow → Bool

structure ClsTrie where
  field : Option ℕ
  root : Trie

structure Classifier where
  nRules : ℤ
  flowSegments : List ℕ
  subtablesMap : List ClsSubtable
  subtables : PVector Flow
  partitions : List ClsPartition
  tries : ℕ → ClsTrie
  nTries : ℕ
  publish : Bool

/-- What the classifier does not define itself. -/
structure ClsConfig where
  /-- `hash_finish()` of what `hash_add64()` makes of the words. -/
  hashWords : List (BitVec 64) → BitVec 32
  /-- `minimask_hash()`. -/
  minimaskHash : Flow → BitVec 32
  /-- `mf_from_id()`. -/
  mfFromId : ℕ → MfField
  /-- `qsort()` of the vector of subtables. -/
  qsort : PVectorSort Flow

/-- The words of a flow in the range, under the mask, where the mask has any bits. -/
def rangeWords (mask x : Flow) (start stop : ℕ) : List (BitVec 64) :=
  ((List.range' start (stop - start)).filter fun i => word mask i ≠ 0).map (word (x &&& mask))

/-- The words that have been hashed when one segment after another has been, up to the given
offsets. -/
def segmentWords (mask x : Flow) (ofs : List ℕ) : List (BitVec 64) :=
  (ofs.foldl (fun s stop => (s.1 ++ rangeWords mask x s.2 stop, stop)) ([], 0)).1

section

variable (C : ClsConfig)

/-- `minimatch_hash_range()` and `flow_hash_in_minimask_range()`, which have the same values, up to
the end of an index. -/
def indexHash (mask : Flow) (indexOfs : List ℕ) (x : Flow) (i : ℕ) : BitVec 32 :=
  C.hashWords (segmentWords mask x (indexOfs.take (i + 1)))

/-- The same up to the end of the flow. -/
def fullHash (mask : Flow) (indexOfs : List ℕ) (x : Flow) : BitVec 32 :=
  C.hashWords (segmentWords mask x (indexOfs ++ [flowU64s]))

def flowHashInMinimask (mask x : Flow) : BitVec 32 := C.hashWords (rangeWords mask x 0 flowU64s)

end

/-- The length of a mask that is ones, and then zeros only. -/
def prefixLen (bits : List Bool) : ℕ :=
  let n := (bits.takeWhile id).length
  if (bits.drop n).any id then 0 else n

def minimaskGetPrefixLen (mask : Flow) (mf : MfField) : ℕ :=
  match mf.flowBe32ofs with
  | none => 0
  | some ofs => prefixLen (beBits ofs mf.nBits mask)

/-- `minimatch_get_prefix()`, `mlen` bits of it. -/
def minimatchGetPrefix (m : Match flowBits) (mf : MfField) (mlen : ℕ) : List Bool :=
  match mf.flowBe32ofs with
  | none => []
  | some ofs => (beBits ofs mf.nBits m.flow).take mlen

/-- `ports_mask_len`: the bits up to the last one that is set. -/
def portsMaskLen (mask : Flow) : ℕ := ((beBits tpPortsOfs32 32 mask).rdropWhile (!·)).length

/-- The prefix of a match in the trie of transport ports.  Wildcarded bits are zero. -/
def portsPrefix (m : Match flowBits) : List Bool :=
  (beBits tpPortsOfs32 32 (m.flow &&& m.mask)).take (portsMaskLen m.mask)

/-- Whether the mask has all of `metadata`. -/
def metadataExact (mask : Flow) : Bool := word mask metadataOfs64 = BitVec.allOnes 64

/-! ## Subtables -/

/-- The state of the loop of `insert_subtable()` over the segments. -/
structure SegmentState where
  new : Flow
  old : Flow
  prev : ℕ
  indexOfs : List ℕ

/-- One round of the loop. -/
def segmentStep (mask : Flow) (s : SegmentState) (segment : ℕ) : SegmentState :=
  let new := s.new ||| (mask &&& rangeMask s.prev segment)
  if new ≠ s.old then ⟨new, new, segment, s.indexOfs ++ [segment]⟩
  else ⟨new, s.old, segment, s.indexOfs⟩

/-- The indices of a new subtable. -/
def subtableIndexOfs (flowSegments : List ℕ) (mask : Flow) : List ℕ :=
  let s := flowSegments.foldl (segmentStep mask) ⟨0, 0, 0, []⟩
  if s.indexOfs ≠ [] ∧ s.new ||| (mask &&& rangeMask s.prev flowU64s) = s.old then
    s.indexOfs.dropLast
  else s.indexOfs

/-- The length of the prefix of a trie's field in a mask.  There is none in a trie that has no
field. -/
def triePrefixLen (C : ClsConfig) (trie : ClsTrie) (mask : Flow) : ℕ :=
  match trie.field with
  | none => 0
  | some id => minimaskGetPrefixLen mask (C.mfFromId id)

/-- The tag of a subtable. -/
def subtableTag (C : ClsConfig) (mask : Flow) : BitVec 32 :=
  if metadataExact mask then tagCreateDeterministic (C.minimaskHash mask) else tagAll

namespace Classifier

def findSubtable (cls : Classifier) (mask : Flow) : Option ClsSubtable :=
  cls.subtablesMap.find? fun st => st.mask = mask

/-- The subtable that `insert_subtable()` makes. -/
def newSubtable (C : ClsConfig) (cls : Classifier) (mask : Flow) : ClsSubtable where
  maxPriority := 0
  maxCount := 0
  tag := subtableTag C mask
  indexOfs := subtableIndexOfs cls.flowSegments mask
  triePlen i := if i < cls.nTries then triePrefixLen C (cls.tries i) mask else 0
  portsMaskLen := portsMaskLen mask
  indices _ := []
  portsTrie := .nil
  rules := []
  mask := mask

/-- A subtable changes. -/
def setSubtable (cls : Classifier) (st : ClsSubtable) : Classifier :=
  { cls with subtablesMap := cls.subtablesMap.map fun st' =>
      if st'.mask = st.mask then st else st' }

/-- `find_subtable()`, and `insert_subtable()` if there is none. -/
def findOrInsertSubtable (C : ClsConfig) (cls : Classifier) (mask : Flow) :
    Classifier × ClsSubtable :=
  match cls.findSubtable mask with
  | some st => (cls, st)
  | none =>
    let st := newSubtable C cls mask
    ({ cls with subtablesMap := st :: cls.subtablesMap }, st)

end Classifier

def ClsSubtable.findEqual (st : ClsSubtable) (flow : Flow) (hash : BitVec 32) : Option ClsHead :=
  st.rules.find? fun e => e.hash = hash ∧ e.head.minimatch.flow = flow

/-- `cmap_replace()` of an index. -/
def cmapReplace (cmap : List (BitVec 32 × ℕ)) (old new : ℕ) (hash : BitVec 32) :
    List (BitVec 32 × ℕ) :=
  cmap.map fun node => if node = (hash, old) then (hash, new) else node

/-- A list of equal matches has another head or another rest. -/
def ClsSubtable.setHead (st : ClsSubtable) (e e' : ClsHead) : ClsSubtable :=
  { st with rules := st.rules.map fun e'' => if e'' = e then e' else e'' }

/-- `subtable_replace_head_rule()`: the new head is in the place of the old one, and has its
partition. -/
def subtableReplaceHeadRule (C : ClsConfig) (st : ClsSubtable) (e e' : ClsHead) : ClsSubtable :=
  { st.setHead e e' with
    indices := fun i => cmapReplace (st.indices i) e.head.id e'.head.id
      (indexHash C st.mask st.indexOfs e.head.minimatch.flow i) }

/-! ## Insertion -/

def createPartition (partitions : List ClsPartition) (tag : BitVec 32) (metadata : BitVec 64) :
    List ClsPartition :=
  match partitions.find? fun p => p.metadata = metadata with
  | none => ⟨metadata, tagTrackerAdd tagTrackerInit tag⟩ :: partitions
  | some _ => partitions.map fun p =>
    if p.metadata = metadata then { p with tracker := tagTrackerAdd p.tracker tag } else p

def trieInsert (C : ClsConfig) (trie : ClsTrie) (m : Match flowBits) (mlen : ℕ) : ClsTrie :=
  match trie.field with
  | none => trie
  | some id => { trie with
      root := trie.root.insert triePrefixBits (minimatchGetPrefix m (C.mfFromId id) mlen) }

/-- `trie_remove()`, if `trieFits`. -/
def trieRemove (C : ClsConfig) (trie : ClsTrie) (m : Match flowBits) (mlen : ℕ) : ClsTrie :=
  match trie.field with
  | none => trie
  | some id => { trie with
      root := trie.root.remove triePrefixBits (minimatchGetPrefix m (C.mfFromId id) mlen) }

/-- Whether `trie_remove()` stays within `edges[]`. -/
def trieFits (C : ClsConfig) (trie : ClsTrie) (m : Match flowBits) (mlen : ℕ) : Bool :=
  match trie.field with
  | none => true
  | some id => fitsEdges trie.root (minimatchGetPrefix m (C.mfFromId id) mlen)

/-- A rule in a list by decreasing priority, and the rule of equal priority that it replaces. -/
def insertInList (new : ClsMatch) : List ClsMatch → List ClsMatch × Option ClsMatch
  | [] => ([new], none)
  | iter :: rest =>
    if new.priority < iter.priority then
      (iter :: (insertInList new rest).1, (insertInList new rest).2)
    else if new.priority = iter.priority then (new :: rest, some iter)
    else (new :: iter :: rest, none)

/-- A rule in a list of equal matches. -/
def ClsHead.insert (e : ClsHead) (new : ClsMatch) : ClsHead × Option ClsMatch :=
  if new.priority < e.head.priority then
    ({ e with rest := (insertInList new e.rest).1 }, (insertInList new e.rest).2)
  else if new.priority = e.head.priority then ({ e with head := new }, some e.head)
  else ({ e with head := new, rest := e.head :: e.rest }, none)

namespace Classifier

variable (C : ClsConfig)

/-- Whether changes are to be made visible. -/
def publishIf (cls : Classifier) : Classifier :=
  if cls.publish then { cls with subtables := cls.subtables.publish C.qsort } else cls

/-- The end of `classifier_replace()`: a rule was added, not replaced. -/
def ruleAdded (cls : Classifier) (st : ClsSubtable) (nRules : ℕ) (priority : ℤ) : Classifier :=
  let cls := { cls with nRules := cls.nRules + 1 }
  publishIf C (
    if nRules = 1 then
      { cls.setSubtable { st with maxPriority := priority, maxCount := 1 } with
        subtables := cls.subtables.insert st.mask priority }
    else if priority = st.maxPriority then
      cls.setSubtable { st with maxCount := st.maxCount + 1 }
    else if st.maxPriority < priority then
      { cls.setSubtable { st with maxPriority := priority, maxCount := 1 } with
        subtables := cls.subtables.changePriority st.mask priority }
    else cls.setSubtable st)

/-- The part of `classifier_replace()` for a match that is not yet there, in the classifier. -/
def addMatch (cls : Classifier) (st : ClsSubtable) (m : Match flowBits) : Classifier :=
  { cls with
    tries := fun i =>
      if i < cls.nTries ∧ st.triePlen i ≠ 0 then trieInsert C (cls.tries i) m (st.triePlen i)
      else cls.tries i
    partitions :=
      if metadataExact m.mask then
        createPartition cls.partitions st.tag (word m.flow metadataOfs64)
      else cls.partitions }

/-- The partition of a match, if it has one. -/
def matchPartition (m : Match flowBits) : Option (BitVec 64) :=
  if metadataExact m.mask then some (word m.flow metadataOfs64) else none

/-- The part of `classifier_replace()` for a match that is not yet there, in the subtable. -/
def addHead (st : ClsSubtable) (new : ClsMatch) : ClsSubtable :=
  { st with
    portsTrie :=
      if st.portsMaskLen ≠ 0 then st.portsTrie.insert triePrefixBits (portsPrefix new.minimatch)
      else st.portsTrie
    indices := fun i =>
      (indexHash C st.mask st.indexOfs new.minimatch.flow i, new.id) :: st.indices i
    rules := ⟨fullHash C st.mask st.indexOfs new.minimatch.flow, matchPartition new.minimatch,
      new, []⟩ :: st.rules }

/-- The part of `classifier_replace()` for a match that is there. -/
def addEqual (cls : Classifier) (st : ClsSubtable) (e : ClsHead) (new : ClsMatch) :
    Classifier × Option ClsMatch :=
  let e' := (e.insert new).1
  let st' := if new.priority < e.head.priority then st.setHead e e'
    else subtableReplaceHeadRule C st e e'
  match (e.insert new).2 with
  | some old => (cls.setSubtable st', some old)
  | none => (ruleAdded C cls st' 0 new.priority, none)

def replace (cls : Classifier) (new : ClsMatch) : Classifier × Option ClsMatch :=
  let cls' := (cls.findOrInsertSubtable C new.minimatch.mask).1
  let st := (cls.findOrInsertSubtable C new.minimatch.mask).2
  match st.findEqual new.minimatch.flow (fullHash C st.mask st.indexOfs new.minimatch.flow) with
  | none =>
    let st' := addHead C st new
    (ruleAdded C (addMatch C cls' st new.minimatch) st' st'.rules.length new.priority, none)
  | some e => addEqual C cls' st e new

/-! ## Removal -/

/-- The new `max_priority` and `max_count` of a subtable. -/
def maxPriorityLoop : List ClsHead → ℤ → ℕ → ℤ × ℕ
  | [], maxPriority, maxCount => (maxPriority, maxCount)
  | e :: rest, maxPriority, maxCount =>
    if maxPriority < e.head.priority then maxPriorityLoop rest e.head.priority 1
    else if e.head.priority = maxPriority then maxPriorityLoop rest maxPriority (maxCount + 1)
    else maxPriorityLoop rest maxPriority maxCount

/-- `check_priority` in `classifier_remove()`. -/
def checkPriority (cls : Classifier) (st : ClsSubtable) (priority : ℤ) : Classifier :=
  if st.maxPriority = priority then
    if st.maxCount - 1 = 0 then
      let max := maxPriorityLoop st.rules intMin 0
      { cls.setSubtable { st with maxPriority := max.1, maxCount := max.2 } with
        subtables := cls.subtables.changePriority st.mask max.1 }
    else cls.setSubtable { st with maxCount := st.maxCount - 1 }
  else cls.setSubtable st

def destroySubtable (cls : Classifier) (mask : Flow) : Classifier :=
  { cls with
    subtables := cls.subtables.remove mask
    subtablesMap := cls.subtablesMap.filter fun st => st.mask ≠ mask }

/-- What `classifier_remove()` does to a partition: one without tags goes. -/
def subtractPartition (partitions : List ClsPartition) (tag : BitVec 32) (metadata : BitVec 64) :
    List ClsPartition :=
  (partitions.map fun p =>
    if p.metadata = metadata then { p with tracker := tagTrackerSubtract p.tracker tag } else p
  ).filter fun p => p.metadata ≠ metadata ∨ p.tracker.tags ≠ 0

/-- The last rule of a match goes, in the classifier. -/
def removeMatch (cls : Classifier) (st : ClsSubtable) (e : ClsHead) : Classifier :=
  { cls with
    tries := fun i =>
      if i < cls.nTries ∧ st.triePlen i ≠ 0 then
        trieRemove C (cls.tries i) e.head.minimatch (st.triePlen i)
      else cls.tries i
    partitions :=
      match e.partition with
      | none => cls.partitions
      | some metadata => subtractPartition cls.partitions st.tag metadata }

/-- The last rule of a match goes, in the subtable. -/
def removeHead (st : ClsSubtable) (e : ClsHead) : ClsSubtable :=
  { st with
    portsTrie :=
      if st.portsMaskLen ≠ 0 then
        st.portsTrie.remove triePrefixBits (portsPrefix e.head.minimatch)
      else st.portsTrie
    indices := fun i =>
      (st.indices i).erase (indexHash C st.mask st.indexOfs e.head.minimatch.flow i, e.head.id)
    rules := st.rules.erase e }

/-- Whether the calls of `trie_remove_prefix()` for the last rule of a match all stay within
`edges[]`. -/
def removeFits (cls : Classifier) (st : ClsSubtable) (e : ClsHead) : Bool :=
  (st.portsMaskLen = 0 || fitsEdges st.portsTrie (portsPrefix e.head.minimatch)) &&
  (List.range cls.nTries).all fun i =>
    st.triePlen i = 0 || trieFits C (cls.tries i) e.head.minimatch (st.triePlen i)

/-- The last rule of a match goes.  There is no result if `trie_remove_prefix()` writes behind the
end of `edges[]`. -/
def removeLast (cls : Classifier) (st : ClsSubtable) (e : ClsHead) (priority : ℤ) :
    Option Classifier :=
  if removeFits C cls st e then
    let cls := removeMatch C cls st e
    let st := removeHead C st e
    some (publishIf C (
      if st.rules = [] then cls.destroySubtable st.mask else checkPriority cls st priority))
  else none

/-- The other rules of a list, from the one after the given rule on and around.  The lists are
circular: the rule before the head is the last one. -/
def others (rule : ClsMatch) (list : List ClsMatch) : List ClsMatch :=
  (list.dropWhile fun m => m ≠ rule).tail ++ list.takeWhile fun m => m ≠ rule

/-- `classifier_remove()` of a rule from the list of equal matches in which it is. -/
def removeFrom (cls : Classifier) (st : ClsSubtable) (e : ClsHead) (rule : ClsMatch) :
    Option Classifier :=
  let prev := (others rule e.list).getLastD rule
  let next := (others rule e.list).headD rule
  let cls := { cls with nRules := cls.nRules - 1 }
  if rule.priority < prev.priority then
    some (cls.setSubtable (st.setHead e { e with rest := e.rest.erase rule }))
  else if next.priority < rule.priority then
    some (publishIf C (checkPriority cls
      (subtableReplaceHeadRule C st e { e with head := next, rest := (others rule e.list).tail })
      rule.priority))
  else removeLast C cls st e rule.priority

/-- `classifier_remove()`, and whether there was such a rule. -/
def remove (cls : Classifier) (rule : ClsMatch) : Option (Classifier × Bool) :=
  match cls.findSubtable rule.minimatch.mask with
  | none => some (cls, false)
  | some st =>
    match st.rules.find? fun e => rule ∈ e.list with
    | none => some (cls, false)
    | some e => (removeFrom C cls st e rule).map (·, true)

/-! ## Prefix fields -/

/-- One round of the loop of `trie_init()`: the heads of a subtable. -/
def trieInsertSubtable (trie : ClsTrie) (st : ClsSubtable) : ClsTrie :=
  let plen := triePrefixLen C trie st.mask
  if plen ≠ 0 then st.rules.foldl (fun trie e => trieInsert C trie e.head.minimatch plen) trie
  else trie

/-- The trie that `trie_init()` makes of the heads of the subtables. -/
def trieOf (field : Option ℕ) (subtables : List ClsSubtable) : ClsTrie :=
  subtables.foldl (trieInsertSubtable C) ⟨field, .nil⟩

def trieInit (cls : Classifier) (i : ℕ) (field : Option ℕ) : Classifier :=
  { cls with
    tries := Function.update cls.tries i (trieOf C field cls.subtablesMap)
    subtablesMap := cls.subtablesMap.map fun st =>
      { st with triePlen :=
          Function.update st.triePlen i (triePrefixLen C ⟨field, .nil⟩ st.mask) } }

/-- The loop of `classifier_set_prefix_fields()` that collects the fields. -/
def newTrieFields : List ℕ → List ℕ → List ℕ
  | [], fields => fields
  | id :: ids, fields =>
    if fields.length < clsMaxTries then
      if (C.mfFromId id).flowBe32ofs = none ∨ (C.mfFromId id).nBits % 32 ≠ 0 ∨ id ∈ fields then
        newTrieFields ids fields
      else newTrieFields ids (fields ++ [id])
    else fields

/-- Whether a trie has another field than before. -/
def trieChanged (cls : Classifier) (i id : ℕ) : Bool :=
  cls.nTries ≤ i || (cls.tries i).field ≠ some id

def setPrefixFields (cls : Classifier) (trieFields : List ℕ) : Classifier :=
  let fields := newTrieFields C trieFields []
  let changed := fields.zipIdx.filter fun f => cls.trieChanged f.2 f.1
  if changed ≠ [] ∨ fields.length < cls.nTries then
    let cls' := changed.foldl (fun cls f => trieInit C cls f.2 (some f.1)) cls
    let cls'' := (List.range' fields.length (cls.nTries - fields.length)).foldl
      (fun cls i => trieInit C cls i none) cls'
    { cls'' with nTries := fields.length }
  else cls

def init (flowSegments : List ℕ) : Classifier where
  nRules := 0
  flowSegments := (flowSegments.takeWhile (· < flowU64s)).take clsMaxIndices
  subtablesMap := []
  subtables := .init
  partitions := []
  tries _ := ⟨none, .nil⟩
  nTries := 0
  publish := true

def defer (cls : Classifier) : Classifier := { cls with publish := false }

/-- `classifier_publish()`. -/
def publishNow (cls : Classifier) : Classifier :=
  { cls with publish := true, subtables := cls.subtables.publish C.qsort }

end Classifier

end OVS
