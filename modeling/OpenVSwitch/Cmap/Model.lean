import Mathlib.Data.BitVec
import OpenVSwitch.Lib.Linked
import OpenVSwitch.Lib.Cuckoo

/-!
# The concurrent hash map

`lib/cmap.c`, as its single writer runs it: `cmap_init()`, `cmap_insert()`, `cmap_replace()` and
`cmap_find()`.  The state is a `Cmap`: the current `struct cmap_impl` and the `next` pointers of
all nodes, which live in the client's memory.  Pointers to nodes are natural numbers and a null
pointer is `none`.

* The function that `rehash()` mixes a basis into a client hash with, `hash_finish()`, is a
  parameter: the build selects one of two implementations, and nothing depends on which.
* `random_uint32()` is an oracle, a list of bases consumed one by one.  An operation whose
  rehashing runs out of bases, or meets a failed assertion on the way, ends in
  `Failure.rehash`.
* A null pointer that is followed, or the failed assertion of `cmap_replace()`, is
  `Failure.crash`.

The counters that let concurrent readers retry are left out: a reader that runs when the writer
does not reads every bucket once.
-/

namespace OVS

open Function

/-- A computation that returns is made of computations that return. -/
lemma bind_eq_ok {ε α β : Type} {x : Except ε α} {f : α → Except ε β} {r : β} :
    x >>= f = .ok r ↔ ∃ a, x = .ok a ∧ f a = .ok r := by
  cases x <;> simp [bind, Except.bind]

/-- A computation fails where one of its parts fails. -/
lemma bind_eq_error {ε α β : Type} {x : Except ε α} {f : α → Except ε β} {e : ε} :
    x >>= f = .error e ↔ x = .error e ∨ ∃ a, x = .ok a ∧ f a = .error e := by
  cases x <;> simp [bind, Except.bind]

/-- `CMAP_K`: entries per bucket, on a 64-bit machine. -/
def cmapK : ℕ := 5

/-- `CMAP_MAX_LOAD`, 85% of `UINT32_MAX`. -/
def cmapMaxLoad : ℕ := 3650722200

/-- `CMAP_MIN_LOAD`, 20% of `UINT32_MAX`. -/
def cmapMinLoad : ℕ := 858993459

def otherHash (hash : BitVec 32) : BitVec 32 := (hash <<< 16) ||| (hash >>> 16)

/-- `calc_max_n()`: 32-bit `mask + 1`, 64-bit product, truncated to 32 bits. -/
def calcMaxN (mask : BitVec 32) : ℕ :=
  (mask + 1).toNat * cmapK * cmapMaxLoad % 2 ^ 64 / 2 ^ 32 % 2 ^ 32

def calcMinN (mask : BitVec 32) : ℕ :=
  (mask + 1).toNat * cmapK * cmapMinLoad % 2 ^ 64 / 2 ^ 32 % 2 ^ 32

def isPow2 (x : BitVec 32) : Bool := x != 0 && x &&& (x - 1) == 0

/-- A slot of a `struct cmap_bucket`. -/
abbrev CmapSlot := Cuckoo.Slot (BitVec 32) ℕ

/-- The buckets of a `struct cmap_impl`, by index. -/
abbrev CmapBuckets := Cuckoo.Table (BitVec 32) (BitVec 32) ℕ cmapK

/-- `struct cmap_impl`.  `max_n` and `min_n` are functions of the mask. -/
structure CmapImpl where
  n : ℕ
  mask : BitVec 32
  basis : BitVec 32
  buckets : CmapBuckets

namespace CmapImpl

def maxN (impl : CmapImpl) : ℕ := calcMaxN impl.mask

def minN (impl : CmapImpl) : ℕ := calcMinN impl.mask

/-- `cmap_impl_create()`, with the basis that `random_uint32()` returned.  The buckets are
zeroed, so every slot is dead and has the hash 0. -/
def create (mask basis : BitVec 32) : CmapImpl where
  n := 0
  mask := mask
  basis := basis
  buckets := fun _ _ => ⟨0, none⟩

variable (hashFinish : BitVec 32 → BitVec 32 → BitVec 32) (impl : CmapImpl)

def rehash (hash : BitVec 32) : BitVec 32 := hashFinish impl.basis hash

/-- The index of the first candidate bucket. -/
def bucket₁ (hash : BitVec 32) : BitVec 32 := impl.rehash hashFinish hash &&& impl.mask

/-- The index of the second candidate bucket. -/
def bucket₂ (hash : BitVec 32) : BitVec 32 := otherHash (impl.rehash hashFinish hash) &&& impl.mask

/-- `cmap_find()`. -/
def find (hash : BitVec 32) : Option ℕ :=
  Cuckoo.lookup (impl.bucket₁ hashFinish) (impl.bucket₂ hashFinish) impl.buckets hash

/-- `cmap_find_bucket_protected()`. -/
def findBucketProtected (hash h : BitVec 32) : Option ℕ :=
  Cuckoo.findInBucket (impl.buckets (h &&& impl.mask)) hash

/-- `cmap_find_protected()`.  It takes the second bucket from the client's hash. -/
def findProtected (hash : BitVec 32) : Option ℕ :=
  let h₁ := impl.rehash hashFinish hash
  let h₂ := otherHash hash
  match impl.findBucketProtected hash h₁ with
  | some node => some node
  | none => impl.findBucketProtected hash h₂

/-- `cmap_find_empty_slot_protected()`. -/
def findEmptySlot (b : BitVec 32) : Option (Fin cmapK) :=
  Fin.find? fun i => (impl.buckets b i).node.isNone

/-- `cmap_find_slot_protected()`. -/
def findSlot (b hash : BitVec 32) : Option (Fin cmapK) :=
  Fin.find? fun i => decide ((impl.buckets b i).hash = hash) && (impl.buckets b i).node.isSome

/-- `cmap_set_bucket()`. -/
def setBucket (b : BitVec 32) (i : Fin cmapK) (node : Option ℕ) (hash : BitVec 32) : CmapImpl :=
  { impl with buckets := Cuckoo.set impl.buckets b i ⟨hash, node⟩ }

/-- `other_bucket_protected()`. -/
def otherBucket (b : BitVec 32) (slot : Fin cmapK) : BitVec 32 :=
  let h₁ := impl.rehash hashFinish (impl.buckets b slot).hash
  let h₂ := otherHash h₁
  let other := if h₁ &&& impl.mask = b then h₂ else h₁
  other &&& impl.mask

/-! ## Breadth-first search for room -/

def maxDepth : ℕ := 4

def maxQueue : ℕ := 500

/-- `struct cmap_path`: a path from one bucket to another, by the slots of its hops. -/
structure Path where
  start : BitVec 32
  fin : BitVec 32
  slots : List (Fin cmapK)

/-- What a search that succeeds has found: follow the path, then slot `hop`, and slot `empty` of
the bucket you arrive at is empty. -/
structure Room where
  path : Path
  hop : Fin cmapK
  empty : Fin cmapK

/-- The inner loop of `cmap_insert_bfs()`: the slots of the bucket at the end of a path.  It ends
with a success or with the paths still to explore and `head`, the number of paths that were
ever queued. -/
def scanSlots (path : Path) : List (Fin cmapK) → List Path → ℕ → Room ⊕ (List Path × ℕ)
  | [], queue, head => .inr (queue, head)
  | i :: is, queue, head =>
    let next := impl.otherBucket hashFinish path.fin i
    if path.fin = next then scanSlots path is queue head
    else
      match impl.findEmptySlot next with
      | some j => .inl ⟨path, i, j⟩
      | none =>
        if path.slots.length < maxDepth ∧ head < maxQueue then
          scanSlots path is (queue ++ [⟨path.start, next, path.slots ++ [i]⟩]) (head + 1)
        else scanSlots path is queue head

/-- The outer loop of `cmap_insert_bfs()`.  Every round takes a path off the queue, and at most
`maxQueue` paths are ever queued, so that many rounds are enough. -/
def bfsLoop : ℕ → List Path → ℕ → Option Room
  | 0, _, _ => none
  | _ + 1, [], _ => none
  | fuel + 1, path :: queue, head =>
    match impl.scanSlots hashFinish path (List.finRange cmapK) queue head with
    | .inl room => some room
    | .inr (queue, head) => bfsLoop fuel queue head

/-- The search, from both candidate buckets. -/
def findRoom (b₁ b₂ : BitVec 32) : Option Room :=
  if b₁ ≠ b₂ then impl.bfsLoop hashFinish maxQueue [⟨b₁, b₁, []⟩, ⟨b₂, b₂, []⟩] 2
  else impl.bfsLoop hashFinish maxQueue [⟨b₁, b₁, []⟩] 1

/-- The positions along a sequence of slots, starting from a bucket. -/
def positions (b : BitVec 32) : List (Fin cmapK) → List (BitVec 32 × Fin cmapK)
  | [] => []
  | slot :: slots => (b, slot) :: positions (impl.otherBucket hashFinish b slot) slots

/-- `cmap_insert_bfs()`: moves nodes back along the path that was found and stores the new node at
its beginning. -/
def insertBfs (node : ℕ) (hash b₁ b₂ : BitVec 32) : Option CmapImpl :=
  match impl.findRoom hashFinish b₁ b₂ with
  | none => none
  | some room =>
    let slots := room.path.slots ++ [room.hop, room.empty]
    let ps := impl.positions hashFinish room.path.start slots
    let moved := { impl with buckets := Cuckoo.moveBack ps impl.buckets }
    match ps with
    | [] => none
    | (b, i) :: _ => some (moved.setBucket b i (some node) hash)

/-! ## Insertion -/

/-- The end of the chain that starts at a node, found in at most `fuel` steps. -/
def chainEnd (next : ℕ → Option ℕ) : ℕ → ℕ → ℕ
  | 0, p => p
  | fuel + 1, p =>
    match next p with
    | none => p
    | some q => chainEnd next fuel q

/-- `cmap_insert_dup()` for the bucket `b`.  The first slot with the hash is reused: if it has a
node, the new chain is spliced in front of it.  `fuel` bounds the length of the new chain. -/
def insertDup (fuel : ℕ) (next : ℕ → Option ℕ) (newNode : ℕ) (hash b : BitVec 32) :
    Option ((ℕ → Option ℕ) × CmapImpl) :=
  match Fin.find? fun i => decide ((impl.buckets b i).hash = hash) with
  | none => none
  | some i =>
    let next' :=
      match (impl.buckets b i).node with
      | some node => update next (chainEnd next fuel newNode) (some node)
      | none => next
    some (next', impl.setBucket b i (some newNode) hash)

/-- `cmap_insert_bucket()`. -/
def insertBucket (node : ℕ) (hash b : BitVec 32) : Option CmapImpl :=
  match impl.findEmptySlot b with
  | none => none
  | some i => some (impl.setBucket b i (some node) hash)

/-- `cmap_try_insert()`.  `none` is a failure, which leaves everything as it was. -/
def tryInsert (fuel : ℕ) (next : ℕ → Option ℕ) (node : ℕ) (hash : BitVec 32) :
    Option ((ℕ → Option ℕ) × CmapImpl) :=
  let b₁ := impl.bucket₁ hashFinish hash
  let b₂ := impl.bucket₂ hashFinish hash
  impl.insertDup fuel next node hash b₁ <|>
  impl.insertDup fuel next node hash b₂ <|>
  (impl.insertBucket node hash b₁).map (next, ·) <|>
  (impl.insertBucket node hash b₂).map (next, ·) <|>
  (impl.insertBfs hashFinish node hash b₁ b₂).map (next, ·)

/-- The chains of a map, with their hashes, in the order in which `cmap_try_rehash()` visits
them. -/
def chains : List (ℕ × BitVec 32) :=
  (List.range (impl.mask.toNat + 1)).flatMap fun b =>
    (List.finRange cmapK).filterMap fun i =>
      (impl.buckets (BitVec.ofNat 32 b) i).node.map
        (·, (impl.buckets (BitVec.ofNat 32 b) i).hash)

/-- `cmap_try_rehash()` over a list of chains.  A failure leaves the new map half filled. -/
def tryRehash (fuel : ℕ) : List (ℕ × BitVec 32) → (ℕ → Option ℕ) → CmapImpl →
    Bool × (ℕ → Option ℕ) × CmapImpl
  | [], next, new => (true, next, new)
  | (node, hash) :: rest, next, new =>
    match new.tryInsert hashFinish fuel next node hash with
    | none => (false, next, new)
    | some (next, new) => tryRehash fuel rest next new

end CmapImpl

/-- How an operation can fail to return. -/
inductive CmapFailure where
  /-- No basis is left to try, or an assertion failed while rehashing. -/
  | rehash
  /-- A null pointer was followed or the node to replace was not found. -/
  | crash
deriving DecidableEq

/-- `struct cmap` together with the memory of its nodes. -/
structure Cmap where
  impl : CmapImpl
  next : ℕ → Option ℕ

namespace Cmap

open CmapImpl

variable (hashFinish : BitVec 32 → BitVec 32 → BitVec 32)

def init (basis : BitVec 32) (next : ℕ → Option ℕ) : Cmap := ⟨CmapImpl.create 0 basis, next⟩

def find (cmap : Cmap) (hash : BitVec 32) : Option ℕ := cmap.impl.find hashFinish hash

def findProtected (cmap : Cmap) (hash : BitVec 32) : Option ℕ :=
  cmap.impl.findProtected hashFinish hash

def count (cmap : Cmap) : ℕ := cmap.impl.n

/-- The loop of `cmap_rehash()`: one basis after the other, until all chains have been
inserted. -/
def rehashLoop (old : CmapImpl) (mask : BitVec 32) :
    (ℕ → Option ℕ) → List (BitVec 32) → Except CmapFailure (Cmap × List (BitVec 32))
  | _, [] => .error .rehash
  | next, basis :: bases =>
    match tryRehash hashFinish old.n old.chains next (CmapImpl.create mask basis) with
    | (true, next, new) => .ok (⟨{ new with n := old.n }, next⟩, bases)
    | (false, next, _) => rehashLoop old mask next bases

/-- `cmap_rehash()`, with its assertions. -/
def rehash (cmap : Cmap) (mask : BitVec 32) (bases : List (BitVec 32)) :
    Except CmapFailure (Cmap × List (BitVec 32)) :=
  if isPow2 (mask + 1) ∧ cmap.impl.n < calcMaxN mask then
    rehashLoop hashFinish cmap.impl mask cmap.next bases
  else .error .rehash

/-- `while (!cmap_try_insert(impl, node, hash))`.  Every round consumes a basis, so one round more
than there are bases is enough. -/
def insertLoop (node : ℕ) (hash : BitVec 32) :
    ℕ → Cmap → List (BitVec 32) → Except CmapFailure Cmap
  | 0, _, _ => .error .rehash
  | fuel + 1, cmap, bases =>
    match cmap.impl.tryInsert hashFinish cmap.impl.n cmap.next node hash with
    | some (next, impl) => .ok ⟨{ impl with n := (impl.n + 1) % 2 ^ 32 }, next⟩
    | none => do
      let (cmap, bases) ← cmap.rehash hashFinish cmap.impl.mask bases
      insertLoop node hash fuel cmap bases

def insert (cmap : Cmap) (node : ℕ) (hash : BitVec 32) (bases : List (BitVec 32)) :
    Except CmapFailure Cmap := do
  let cmap := { cmap with next := update cmap.next node none }
  if cmap.impl.n ≥ cmap.impl.maxN then
    let (cmap, bases) ← cmap.rehash hashFinish ((cmap.impl.mask <<< 1) ||| 1) bases
    insertLoop hashFinish node hash (bases.length + 1) cmap bases
  else insertLoop hashFinish node hash (bases.length + 1) cmap bases

/-- The loop of `cmap_replace__()` behind the first node of a chain: the link to `node` is made to
point to `replacement`.  `none` is a null pointer followed. -/
def relink (node : ℕ) (replacement : Option ℕ) (next : ℕ → Option ℕ) :
    ℕ → ℕ → Option (ℕ → Option ℕ)
  | 0, _ => none
  | fuel + 1, iter =>
    match next iter with
    | none => none
    | some q =>
      if q = node then some (update next iter replacement)
      else relink node replacement next fuel q

/-- What the link to `node` is changed to: the replacement, or the next node. -/
def replacementFor (cmap : Cmap) (node : ℕ) : Option ℕ → Option ℕ
  | none => cmap.next node
  | some r => some r

/-- A replacement takes the position of `node` in the list. -/
def linkReplacement (cmap : Cmap) (node : ℕ) : Option ℕ → Cmap
  | none => cmap
  | some r => { cmap with next := update cmap.next r (cmap.next node) }

/-- The loop of `cmap_replace__()`, from the slot whose chain starts with `first`. -/
def relinkSlot (cmap : Cmap) (node : ℕ) (replacement : Option ℕ) (hash b : BitVec 32)
    (slot : Fin cmapK) (first : ℕ) : Except CmapFailure Cmap :=
  -- the slot itself is the link in front of the first node
  if first = node then .ok { cmap with impl := cmap.impl.setBucket b slot replacement hash }
  else
    match relink node replacement cmap.next cmap.impl.n first with
    | none => .error .crash
    | some next => .ok { cmap with next := next }

/-- `cmap_replace__()` for the bucket `b`.  `none` is the return value `false`. -/
def replaceIn (cmap : Cmap) (node : ℕ) (replacement : Option ℕ) (hash b : BitVec 32) :
    Except CmapFailure (Option Cmap) :=
  match cmap.impl.findSlot b hash with
  | none => .ok none
  | some slot =>
    match (cmap.impl.buckets b slot).node with
    | none => .error .crash
    | some first =>
      ((cmap.linkReplacement node replacement).relinkSlot node
        (cmap.replacementFor node replacement) hash b slot first).map some

/-- `impl->n--`. -/
def decrement (cmap : Cmap) : Cmap :=
  { cmap with impl := { cmap.impl with n := (cmap.impl.n + 2 ^ 32 - 1) % 2 ^ 32 } }

/-- The end of `cmap_replace()`: a map that has become too sparse is shrunk. -/
def shrink (cmap : Cmap) (bases : List (BitVec 32)) : Except CmapFailure Cmap :=
  if cmap.impl.n < cmap.impl.minN then do
    let (cmap, _) ← cmap.rehash hashFinish (cmap.impl.mask >>> 1) bases
    return cmap
  else return cmap

/-- `cmap_replace()`; without a new node it is `cmap_remove()`. -/
def replace (cmap : Cmap) (oldNode : ℕ) (newNode : Option ℕ) (hash : BitVec 32)
    (bases : List (BitVec 32)) : Except CmapFailure Cmap := do
  let r₁ ← cmap.replaceIn oldNode newNode hash (cmap.impl.bucket₁ hashFinish hash)
  let r₂ ← match r₁ with
    | some c => pure (some c)
    | none => cmap.replaceIn oldNode newNode hash (cmap.impl.bucket₂ hashFinish hash)
  match r₂ with
  | none => .error .crash
  | some cmap => if newNode.isNone then cmap.decrement.shrink hashFinish bases else return cmap

end Cmap

end OVS
