import OpenVSwitch.Classifier.Runs

/-!
# Lookup in a classifier

`classifier_lookup()` walks the published vector of subtables from the greatest priority down and
looks into each subtable (`findMatchWc`).  It stops when no subtable can have a better rule.  On the
way it collects in `wc` the bits of the flow that it depends on.

**Soft matches.**  A rule with conjunctions is not a match by itself.  If there are any, a second
loop looks for an id of which every clause has a match at the greatest priority (`softLoop`), and
looks the flow up again with that `conj_id`.

The results of lookups in tries are not cached here: the flow does not change while a cache is in
use.
-/

namespace OVS

open Flow

section

variable (C : ClsConfig)

/-! ## One subtable -/

/-- `trie_lookup()`: how many bits decide it, and whether rules have a prefix of a given length. -/
def trieLookup (trie : ClsTrie) (flow : Flow) : ℕ × (ℕ → Bool) :=
  match trie.field with
  | none => (0, fun _ => true)
  | some id =>
    match (C.mfFromId id).flowBe32ofs with
    | none => (0, fun _ => true)
    | some ofs =>
      if (C.mfFromId id).prereqsOk flow then
        let res := trie.root.lookup (beBits ofs (C.mfFromId id).nBits flow)
        (res.1, fun l => l ∈ res.2)
      else (0, fun _ => true)

/-- Where the field of a trie is. -/
def trieBe32ofs (trie : ClsTrie) : ℕ :=
  match trie.field with
  | none => 0
  | some id => ((C.mfFromId id).flowBe32ofs).getD 0

/-- `check_tries()`: the new wildcards if the rest of the subtable can be skipped. -/
def checkTries (tries : ℕ → ClsTrie) (plen : ℕ → ℕ) (start stop : ℕ) (flow wc : Flow) :
    List ℕ → Option Flow
  | [] => none
  | j :: js =>
    let ofs := trieBe32ofs C (tries j)
    if plen j ≠ 0 ∧ start ≤ ofs / 2 ∧ ofs / 2 < stop then
      let res := trieLookup C (tries j) flow
      if !res.2 (plen j) then
        if res.1 ≤ plen j then some (wc ||| prefixMask ofs res.1)
        else if prefixMask ofs res.1 &&& ~~~wc = 0 then some wc
        else checkTries tries plen start stop flow wc js
      else checkTries tries plen start stop flow wc js
    else checkTries tries plen start stop flow wc js

def rightmost1Bit (x : BitVec 64) : BitVec 64 := x &&& -x

/-- `miniflow_and_mask_matches_flow_wc()` from the given words on. -/
def matchesFlowWc (m : Match flowBits) (target wc : Flow) : List ℕ → Bool × Flow
  | [] => (true, wc)
  | i :: is =>
    let mask := word m.mask i
    let diff := (word m.flow i ^^^ word target i) &&& mask
    if diff ≠ 0 then
      (false, if word wc i &&& diff = 0 then wc ||| ofWord i (rightmost1Bit diff) else wc)
    else matchesFlowWc m target (wc ||| ofWord i mask) is

/-- The words in which the mask has bits. -/
def maskWords (mask : Flow) : List ℕ := (List.range flowU64s).filter fun i => word mask i ≠ 0

def findMatch (st : ClsSubtable) (flow : Flow) (hash : BitVec 32) : Option ClsHead :=
  st.rules.find? fun e => e.hash = hash ∧ e.head.minimatch.Matches flow

def fillRangeWc (st : ClsSubtable) (wc : Flow) (stop : ℕ) : Flow :=
  wc ||| (st.mask &&& rangeMask 0 stop)

/-- The part of `find_match_wc()` after the indices. -/
def findMatchFinal (cls : Classifier) (st : ClsSubtable) (flow wc : Flow) (start : ℕ) :
    Option ClsHead × Flow :=
  match checkTries C cls.tries st.triePlen start flowU64s flow wc (List.range cls.nTries) with
  | some wc => (none, fillRangeWc st wc start)
  | none =>
    match findMatch st flow (fullHash C st.mask st.indexOfs flow) with
    | some e => (some e, wc ||| st.mask)
    | none =>
      if st.portsMaskLen ≠ 0 then
        let mbits := (st.portsTrie.lookup (beBits tpPortsOfs32 32 (flow &&& st.mask))).1
        (none, fillRangeWc st (wc ||| (st.mask &&& prefixMask tpPortsOfs32 mbits)) tpPortsOfs64)
      else (none, wc ||| st.mask)

/-- The loop of `find_match_wc()` over the indices.  The rule of a node is found by its number. -/
def findMatchIndices (cls : Classifier) (st : ClsSubtable) (flow wc : Flow) :
    ℕ → ℕ → List ℕ → Option ClsHead × Flow
  | start, _, [] => findMatchFinal C cls st flow wc start
  | start, i, stop :: ofs =>
    match checkTries C cls.tries st.triePlen start stop flow wc (List.range cls.nTries) with
    | some wc => (none, fillRangeWc st wc start)
    | none =>
      let hash := indexHash C st.mask st.indexOfs flow i
      match (st.indices i).filter fun node => node.1 = hash with
      | [] => (none, fillRangeWc st wc stop)
      | [inode] =>
        match st.rules.find? fun e => e.head.id = inode.2 with
        | none => (none, wc)
        | some e =>
          let res := matchesFlowWc e.head.minimatch flow wc (maskWords st.mask)
          (if res.1 then some e else none, res.2)
      | _ => findMatchIndices cls st flow wc stop (i + 1) ofs

def findMatchWc (cls : Classifier) (st : ClsSubtable) (flow : Flow) :
    Option Flow → Option ClsHead × Option Flow
  | none => (findMatch st flow (flowHashInMinimask C st.mask flow), none)
  | some wc =>
    let res := findMatchIndices C cls st flow wc 0 0 st.indexOfs
    (res.1, some res.2)

/-! ## All subtables -/

/-- A rule with conjunctions that matches, and the rules of lower priority with the same match. -/
abbrev SoftMatch := ClsMatch × List ClsMatch

/-- The local variables of `classifier_lookup__()`. -/
structure LookupState where
  wc : Option Flow
  hard : Option ClsMatch
  soft : List SoftMatch

def hardPri (hard : Option ClsMatch) : ℤ := hard.elim intMin ClsMatch.priority

/-- The tags of the subtables that can have rules for the flow. -/
def lookupTags (cls : Classifier) (flow : Flow) : BitVec 32 :=
  match cls.partitions.find? fun p => p.metadata = word flow metadataOfs64 with
  | some p => p.tracker.tags
  | none => tagArbitrary

/-- What the main loop does with the match in a subtable. -/
def lookupMatch (allowConjunctiveMatches : Bool) (s : LookupState) :
    Option ClsHead → LookupState
  | none => s
  | some e =>
    if e.head.priority ≤ hardPri s.hard then s
    else if e.head.conj = [] then { s with hard := some e.head }
    else if allowConjunctiveMatches then { s with soft := s.soft ++ [(e.head, e.rest)] }
    else s

/-- The main loop of `classifier_lookup__()`. -/
def lookupLoop (cls : Classifier) (flow : Flow) (allowConjunctiveMatches : Bool) :
    List (PVectorEntry Flow) → LookupState → LookupState
  | [], s => s
  | entry :: entries, s =>
    if hardPri s.hard < entry.priority then
      match entry.ptr.bind cls.findSubtable with
      | none => s
      | some st =>
        if tagIntersects (lookupTags cls flow) st.tag then
          let res := findMatchWc C cls st flow s.wc
          lookupLoop cls flow allowConjunctiveMatches entries
            (lookupMatch allowConjunctiveMatches { s with wc := res.2 } res.1)
        else lookupLoop cls flow allowConjunctiveMatches entries s
    else s

/-- The main loop from its start. -/
def lookupMain (cls : Classifier) (flow : Flow) (wc : Option Flow)
    (allowConjunctiveMatches : Bool) : LookupState :=
  lookupLoop C cls flow allowConjunctiveMatches cls.subtables.impl.vector ⟨wc, none, []⟩

/-- `classifier_lookup__()` without conjunctive matches. -/
def lookupHard (cls : Classifier) (flow : Flow) (wc : Option Flow) :
    Option ClsMatch × Option Flow :=
  let s := lookupMain C cls flow wc false
  (s.hard, s.wc)

end

/-! ## Conjunctive matches -/

def minNClauses (conj : List ClsConjunction) : ℕ :=
  ((conj.map ClsConjunction.nClauses).min?).getD 0

/-- The `struct conjunctive_match`es: the clauses of an id that have a match. -/
abbrev ConjunctiveMatches := List (BitVec 32 × BitVec 64)

/-- The clauses of the id of a conjunction.  Those from `n_clauses` on are there from the start. -/
def conjClauses (ms : ConjunctiveMatches) (c : ClsConjunction) : BitVec 64 :=
  (ms.lookup c.id).getD (BitVec.allOnes 64 <<< (c.nClauses % 64))

/-- The loop of `find_conjunctive_match()`. -/
def findConjunctiveMatchLoop (maxNClauses : ℕ) :
    List ClsConjunction → ConjunctiveMatches → Option (BitVec 32) × ConjunctiveMatches
  | [], ms => (none, ms)
  | c :: cs, ms =>
    if maxNClauses < c.nClauses then findConjunctiveMatchLoop maxNClauses cs ms
    else
      let clauses := conjClauses ms c ||| (1#64 <<< c.clause)
      let ms := (c.id, clauses) :: ms
      if clauses = BitVec.allOnes 64 then (some c.id, ms)
      else findConjunctiveMatchLoop maxNClauses cs ms

def findConjunctiveMatch (conj : List ClsConjunction) (maxNClauses : ℕ) (ms : ConjunctiveMatches) :
    Option (BitVec 32) × ConjunctiveMatches :=
  if maxNClauses < minNClauses conj then (none, ms)
  else findConjunctiveMatchLoop maxNClauses conj ms

/-- The flow with another `conj_id`. -/
def setConjId (flow : Flow) (id : BitVec 32) : Flow :=
  (flow &&& ~~~((BitVec.allOnes 32).setWidth flowBits <<< (32 * conjIdOfs32))) |||
    (id.setWidth flowBits <<< (32 * conjIdOfs32))

/-- The loop that deletes soft matches: the last one takes the place of one that goes. -/
def deleteSoft (hard : ℤ) : ℕ → List (Option SoftMatch) → List SoftMatch
  | 0, _ => []
  | _ + 1, [] => []
  | fuel + 1, m :: ms =>
    match m with
    | some m =>
      if m.1.priority ≤ hard then
        match ms.getLast? with
        | none => []
        | some last => deleteSoft hard fuel (last :: ms.dropLast)
      else m :: deleteSoft hard fuel ms
    | none =>
      match ms.getLast? with
      | none => []
      | some last => deleteSoft hard fuel (last :: ms.dropLast)

def softPri (soft : List SoftMatch) : ℤ :=
  soft.foldl (fun pri m => max pri m.1.priority) intMin

section

variable (C : ClsConfig)

/-- The loop over the soft matches of the greatest priority, and the ids that are looked up. -/
def conjunctiveLookup (cls : Classifier) (flow : Flow) (pri : ℤ) (nSoftPri : ℕ) :
    List SoftMatch → ConjunctiveMatches → Option Flow →
      Option ClsMatch × Option Flow × List (BitVec 32)
  | [], _, wc => (none, wc, [])
  | m :: soft, ms, wc =>
    if m.1.priority = pri then
      let res := findConjunctiveMatch m.1.conj nSoftPri ms
      match res.1 with
      | none => conjunctiveLookup cls flow pri nSoftPri soft res.2 wc
      | some id =>
        let found := lookupHard C cls (setConjId flow id) wc
        match found.1 with
        | some rule => (some rule, found.2, [id])
        | none =>
          let rest := conjunctiveLookup cls flow pri nSoftPri soft res.2 found.2
          (rest.1, rest.2.1, id :: rest.2.2)
    else conjunctiveLookup cls flow pri nSoftPri soft ms wc

/-- The next rule with the same match as a soft match. -/
def nextSoft (pri : ℤ) (hard : Option ClsMatch) :
    List SoftMatch → Option ClsMatch × List (Option SoftMatch)
  | [] => (hard, [])
  | m :: soft =>
    if m.1.priority ≠ pri then
      let res := nextSoft pri hard soft
      (res.1, some m :: res.2)
    else
      match m.2 with
      | [] =>
        let res := nextSoft pri hard soft
        (res.1, none :: res.2)
      | next :: rest =>
        if next.conj = [] then
          let hard := if hardPri hard < next.priority then some next else hard
          let res := nextSoft pri hard soft
          (res.1, none :: res.2)
        else
          let res := nextSoft pri hard soft
          (res.1, some (next, rest) :: res.2)

/-- The soft match loop of `classifier_lookup__()`, and for each round its priority and the ids that
are looked up. -/
def softLoop (cls : Classifier) (flow : Flow) : ℕ → Option Flow → Option ClsMatch →
    List (Option SoftMatch) → Option ClsMatch × Option Flow × List (ℤ × List (BitVec 32))
  | 0, wc, hard, _ => (hard, wc, [])
  | fuel + 1, wc, hard, soft =>
    let soft := deleteSoft (hardPri hard) soft.length soft
    if soft = [] then (hard, wc, [])
    else
      let pri := softPri soft
      let nSoftPri := soft.countP fun m => m.1.priority = pri
      let res := conjunctiveLookup C cls flow pri nSoftPri soft [] wc
      match res.1 with
      | some rule => (some rule, res.2.1, [(pri, res.2.2)])
      | none =>
        let next := nextSoft pri hard soft
        let rest := softLoop cls flow fuel res.2.1 next.1 next.2
        (rest.1, rest.2.1, (pri, res.2.2) :: rest.2.2)

/-- How many rounds the soft match loop can have. -/
def softRounds (soft : List (Option SoftMatch)) : ℕ :=
  (soft.map fun m => m.elim 0 fun m => m.2.length + 1).sum

/-- `classifier_lookup__()`: the rule, the wildcards, and the rounds of the soft match loop. -/
def lookupRounds (cls : Classifier) (flow : Flow) (wc : Option Flow) :
    Option ClsMatch × Option Flow × List (ℤ × List (BitVec 32)) :=
  let s := lookupMain C cls flow wc true
  if softPri s.soft ≤ hardPri s.hard then (s.hard, s.wc, [])
  else softLoop C cls flow (softRounds (s.soft.map some) + 1) s.wc s.hard (s.soft.map some)

/-- `classifier_lookup()`: the rule, and the wildcards. -/
def lookup (cls : Classifier) (flow : Flow) (wc : Option Flow) : Option ClsMatch × Option Flow :=
  let res := lookupRounds C cls flow wc
  (res.1, res.2.1)

end

end OVS
