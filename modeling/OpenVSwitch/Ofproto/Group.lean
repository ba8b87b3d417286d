import Mathlib.Data.List.Nodup
import Mathlib.Data.List.Perm.Basic
import OpenVSwitch.Ofproto.Actions

/-!
# The group table

Groups of buckets (`ofproto/ofproto.c`), and the decoding of the messages that change them
(`lib/ofp-util.c`), after the bytes of a message have been taken apart.

**Buckets.**  A group is built from the buckets of a message (`initGroup`), which also fixes its
`n_buckets`.  The two bucket commands of OpenFlow 1.5 then add buckets of the old group to the new
one: `copyBucketsForInsertBucket` and `copyBucketsForRemoveBucket`.  They leave `n_buckets` alone,
and compare no bucket identifiers between the message and the old group.

**Undefined behaviour.**  `listSplice` moves a part of a linked list in front of one of its
elements.  If that element is the first of the part itself the links become circular; the model
then has no result.  Nor has it one where the code takes the first element of an empty list.

* `group_counts` — the counters count groups, identifiers are unique: after any group mods.
* `group_table_invariant` — the buckets are as they should be, too, if no bucket command has had
  anything to copy.  `group_table_miscounted` shows that otherwise they are not.
-/

namespace OVS

namespace Ofproto

open List Function

/-! ## Groups -/

/-- `enum ofp11_group_type`. -/
inductive GroupType where
  | all
  | select
  | indirect
  | ff
deriving DecidableEq

/-- `struct ofputil_bucket`. -/
structure Bucket where
  bucketId : ℕ
  watchPort : ℕ
  watchGroup : ℕ
  ofpacts : List Ofpact

/-- `struct ofgroup`. -/
structure Group where
  groupId : ℕ
  type : GroupType
  buckets : List Bucket
  nBuckets : ℕ

/-- The commands of a group mod. -/
inductive GroupCommand where
  | add
  | modify
  | delete
  | insertBucket
  | removeBucket
deriving DecidableEq

/-- `struct ofputil_group_mod`. -/
structure GroupMod where
  command : GroupCommand
  type : GroupType
  groupId : ℕ
  buckets : List Bucket
  commandBucketId : ℕ

/-- The errors of group mods. -/
inductive GroupError where
  | badBucket
  | invalidGroup
  | watchUnsupported
  | chainingUnsupported
  | outOfGroups
  | groupExists
  | unknownGroup
  | unknownBucket
  | bucketExists
deriving DecidableEq

/-- `OFPG15_BUCKET_MAX`. -/
def bucketMax : ℕ := 0xffffff00

/-- `OFPG15_BUCKET_FIRST`. -/
def bucketFirst : ℕ := 0xfffffffd

/-- `OFPG15_BUCKET_LAST`. -/
def bucketLast : ℕ := 0xfffffffe

/-- `OFPG15_BUCKET_ALL`. -/
def bucketAll : ℕ := 0xffffffff

/-! ## Buckets -/

/-- `ofputil_bucket_has_liveness()`. -/
def Bucket.hasLiveness (b : Bucket) : Bool := b.watchPort ≠ ofppAny ∨ b.watchGroup ≠ ofpgAny

/-- `ofputil_bucket_find()`, as the position in the list. -/
def bucketFind (buckets : List Bucket) (bucketId : ℕ) : Option ℕ :=
  if bucketId > bucketMax then none else buckets.findIdx? fun b => b.bucketId = bucketId

/-- `ofputil_bucket_check_duplicate_id()`. -/
def bucketCheckDuplicateId : List Bucket → Bool
  | [] => false
  | b :: bs => (bs.any fun b' => b.bucketId = b'.bucketId) || bucketCheckDuplicateId bs

/-- `list_splice()`.  Positions count the elements; that of the list's head is the length.  In
front of its own first element the part becomes circular, with the list's head leading into
it; in front of another one of its elements it is lost. -/
def listSplice {α : Type} (l : List α) (before first last : ℕ) : Option (List α) :=
  if first = last then some l
  else if before = first then none
  else if first < before ∧ before < last then some (l.take first ++ l.drop last)
  else if before < first then
    some (l.take before ++ (l.drop first).take (last - first) ++
      (l.drop before).take (first - before) ++ l.drop last)
  else
    some (l.take first ++ (l.drop last).take (before - last) ++
      (l.drop first).take (last - first) ++ l.drop before)

lemma bucketCheckDuplicateId_eq_false {bs : List Bucket} :
    bucketCheckDuplicateId bs = false ↔ (bs.map Bucket.bucketId).Nodup := by
  induction bs with
  | nil => simp [bucketCheckDuplicateId]
  | cons b bs ih =>
    simp only [bucketCheckDuplicateId, Bool.or_eq_false_iff, ih, map_cons,
      nodup_cons, any_eq_false, decide_eq_true_eq, mem_map, not_exists, not_and]
    exact and_congr_left' (forall₂_congr fun b' _ => not_congr eq_comm)

/-! ## Decoding -/

/-- A group mod message.  `commandBucketId` and the identifiers of the buckets are those of the
message, which only OpenFlow 1.5 has. -/
structure GroupMessage where
  /-- The minor version of OpenFlow. -/
  version : ℕ
  command : GroupCommand
  type : GroupType
  groupId : ℕ
  commandBucketId : ℕ
  buckets : List Bucket

/-- `ofputil_pull_ofp11_group_mod()`: buckets are numbered. -/
def pullOfp11GroupMod (m : GroupMessage) : Except GroupError GroupMod :=
  if 3 ≤ m.version ∧ m.command = .delete ∧ m.buckets ≠ [] then .error .invalidGroup
  else .ok
    { command := m.command, type := m.type, groupId := m.groupId
      buckets := m.buckets.zipIdx.map fun p => { p.1 with bucketId := p.2 }
      commandBucketId := bucketAll }

/-- The command bucket identifiers that `ofputil_pull_ofp15_group_mod()` accepts. -/
def commandBucketIdOk (command : GroupCommand) (id : ℕ) : Bool :=
  match command with
  | .removeBucket => id = bucketAll ∨ id ≤ bucketMax ∨ id = bucketFirst ∨ id = bucketLast
  | .insertBucket => id ≤ bucketMax ∨ id = bucketFirst ∨ id = bucketLast
  | _ => id = bucketAll

/-- `ofputil_pull_ofp15_group_mod()`. -/
def pullOfp15GroupMod (m : GroupMessage) : Except GroupError GroupMod :=
  if commandBucketIdOk m.command m.commandBucketId = false then .error .badBucket
  else if m.buckets.any fun b => b.bucketId > bucketMax then .error .badBucket
  else if bucketCheckDuplicateId m.buckets then .error .badBucket
  else .ok ⟨m.command, m.type, m.groupId, m.buckets, m.commandBucketId⟩

/-- The check of the watched ports and groups in `ofputil_decode_group_mod()`. -/
def checkLiveness (type : GroupType) (b : Bucket) : Option GroupError :=
  match type with
  | .all | .indirect => if b.hasLiveness then some .watchUnsupported else none
  | .select => none
  | .ff => if b.hasLiveness then none else some .invalidGroup

/-- The part of `ofputil_decode_group_mod()` that checks what has been pulled. -/
def checkGroupMod (gm : GroupMod) : Option GroupError :=
  if gm.type = .indirect ∧ gm.buckets.length ≠ 1 then some .invalidGroup
  else if gm.command = .removeBucket ∧ gm.buckets ≠ [] then some .badBucket
  else gm.buckets.findSome? (checkLiveness gm.type)

/-- `ofputil_decode_group_mod()`. -/
def decodeGroupMod (m : GroupMessage) : Except GroupError GroupMod :=
  match if m.version = 5 then pullOfp15GroupMod m else pullOfp11GroupMod m with
  | .error e => .error e
  | .ok gm =>
    match checkGroupMod gm with
    | some e => .error e
    | none => .ok gm

/-! ## The table -/

/-- `groups` and `n_groups` of an ofproto. -/
structure GroupTable where
  groups : List Group
  nGroups : GroupType → ℕ

/-- The table of a new ofproto. -/
def GroupTable.empty : GroupTable := ⟨[], fun _ => 0⟩

/-- `init_group()`, with `group_construct()`. -/
def initGroup (gm : GroupMod) : Except GroupError Group :=
  if gm.groupId > ofpgMax then .error .invalidGroup
  else if gm.buckets.any fun b => b.ofpacts.any fun a => (a matches .action (.group _)) then
    .error .chainingUnsupported
  else .ok ⟨gm.groupId, gm.type, gm.buckets, gm.buckets.length⟩

/-- `ofproto_group_lookup__()`. -/
def GroupTable.lookup (t : GroupTable) (groupId : ℕ) : Option Group :=
  t.groups.find? fun g => g.groupId = groupId

/-- `hmap_remove()`. -/
def GroupTable.remove (t : GroupTable) (groupId : ℕ) : List Group :=
  t.groups.filter fun g => g.groupId ≠ groupId

section

variable (maxGroups : GroupType → ℕ)

def addGroup (t : GroupTable) (gm : GroupMod) : Except GroupError GroupTable := do
  let group ← initGroup gm
  if t.nGroups gm.type ≥ maxGroups gm.type then throw .outOfGroups
  if (t.lookup gm.groupId).isSome then throw .groupExists
  return ⟨group :: t.groups, update t.nGroups group.type (t.nGroups group.type + 1)⟩

/-- `copy_buckets_for_insert_bucket()`: the buckets of the new group.  `none` is undefined
behaviour. -/
def copyBucketsForInsertBucket (old new : List Bucket) (commandBucketId : ℕ) :
    Option (Except GroupError (List Bucket)) :=
  if commandBucketId ≤ bucketMax ∧ bucketFind old commandBucketId = none then
    some (.error .unknownBucket)
  -- the identifiers that are compared are those of the old group
  else if bucketCheckDuplicateId old then some (.error .bucketExists)
  else if commandBucketId = bucketLast then do
    let first ← old.head?
    let newFirst ← bucketFind (new ++ old) first.bucketId
    let buckets ← listSplice (new ++ old) 0 newFirst (new ++ old).length
    return .ok buckets
  else if commandBucketId ≤ bucketMax ∧ new ≠ [] then do
    let after ← bucketFind (new ++ old) commandBucketId
    let buckets ← listSplice (new ++ old) (after + 1) 0 new.length
    return .ok buckets
  else some (.ok (new ++ old))

/-- `copy_buckets_for_remove_bucket()`: the buckets of the new group. -/
def copyBucketsForRemoveBucket (old new : List Bucket) (commandBucketId : ℕ) :
    Except GroupError (List Bucket) :=
  if commandBucketId = bucketAll then .ok new
  else if commandBucketId = bucketFirst then .ok (new ++ old.drop 1)
  else if commandBucketId = bucketLast then .ok (new ++ old.dropLast)
  else
    match bucketFind old commandBucketId with
    | none => .error .unknownBucket
    | some skip => .ok (new ++ old.eraseIdx skip)

/-- The middle of `modify_group()`: the buckets of the new group. -/
def newBuckets (gm : GroupMod) (old : Group) : Option (Except GroupError (List Bucket)) :=
  match gm.command with
  | .insertBucket => copyBucketsForInsertBucket old.buckets gm.buckets gm.commandBucketId
  | .removeBucket => some (copyBucketsForRemoveBucket old.buckets gm.buckets gm.commandBucketId)
  | _ => some (.ok gm.buckets)

/-- The end of `modify_group()`: the new group takes the place of the old one. -/
def GroupTable.replace (t : GroupTable) (old new : Group) : GroupTable :=
  ⟨new :: t.remove old.groupId, if old.type ≠ new.type then
      let n := update t.nGroups old.type (t.nGroups old.type - 1)
      update n new.type (n new.type + 1)
    else t.nGroups⟩

def modifyGroup (t : GroupTable) (gm : GroupMod) : Option (Except GroupError GroupTable) :=
  match initGroup gm with
  | .error e => some (.error e)
  | .ok group =>
    match t.lookup gm.groupId with
    | none => some (.error .unknownGroup)
    | some old =>
      if old.type ≠ gm.type ∧ t.nGroups gm.type ≥ maxGroups gm.type then
        some (.error .outOfGroups)
      else (newBuckets gm old).map fun r =>
        r.map fun buckets => t.replace old { group with buckets := buckets }

/-- The end of `delete_group__()`. -/
def GroupTable.delete (t : GroupTable) (group : Group) : GroupTable :=
  ⟨t.remove group.groupId, update t.nGroups group.type (t.nGroups group.type - 1)⟩

/-- `delete_group()`, as far as groups are concerned. -/
def deleteGroup (t : GroupTable) (groupId : ℕ) : GroupTable :=
  if groupId = ofpgAll then t.groups.foldl GroupTable.delete t
  else
    match t.lookup groupId with
    | none => t
    | some group => t.delete group

/-- `handle_group_mod()` of a message that has been decoded. -/
def handleGroupMod (t : GroupTable) (gm : GroupMod) : Option (Except GroupError GroupTable) :=
  match gm.command with
  | .add => some (addGroup maxGroups t gm)
  | .modify | .insertBucket | .removeBucket => modifyGroup maxGroups t gm
  | .delete => some (.ok (deleteGroup t gm.groupId))

end

/-! ## Invariants -/

/-- A table whose counters count its groups, within their bounds, whose groups have different
identifiers and all satisfy `B`. -/
structure GroupTable.Valid (maxGroups : GroupType → ℕ) (B : Group → Prop) (t : GroupTable) :
    Prop where
  unique : (t.groups.map Group.groupId).Nodup
  counts : ∀ type, t.nGroups type = t.groups.countP fun g => g.type = type
  bounds : ∀ type, t.nGroups type ≤ maxGroups type
  groups : ∀ g ∈ t.groups, B g

/-- The buckets of a group, counted and with different identifiers. -/
structure Group.Sound (g : Group) : Prop where
  counted : g.nBuckets = g.buckets.length
  distinct : (g.buckets.map Bucket.bucketId).Nodup

variable {t : GroupTable} {gm : GroupMod} {m : GroupMessage} {g : Group}

lemma GroupTable.lookup_eq_some {id : ℕ} (h : t.lookup id = some g) :
    g ∈ t.groups ∧ g.groupId = id :=
  ⟨mem_of_find?_eq_some h, by simpa using find?_some h⟩

lemma GroupTable.not_mem_of_lookup {id : ℕ} (h : t.lookup id = none) :
    id ∉ t.groups.map Group.groupId := by
  simpa [GroupTable.lookup] using h

/-- The groups are the one with an identifier and those that are left without it. -/
lemma GroupTable.perm_remove (hunique : (t.groups.map Group.groupId).Nodup) (hg : g ∈ t.groups) :
    t.groups.Perm (g :: t.remove g.groupId) := by
  obtain ⟨l1, l2, h⟩ := append_of_mem hg
  rw [h, map_append, map_cons, nodup_middle, nodup_cons] at hunique
  have hne : ∀ x ∈ l1 ++ l2, x.groupId ≠ g.groupId := fun x hx he =>
    hunique.1 (by rw [← map_append]; exact mem_map.2 ⟨x, hx, he⟩)
  have hrest : t.remove g.groupId = l1 ++ l2 := by
    simp only [GroupTable.remove, h, filter_append, filter_cons]
    simp only [ne_eq, not_true_eq_false, decide_false, Bool.false_eq_true, if_false]
    rw [← filter_append, filter_eq_self]
    exact fun x hx => by simpa using hne x hx
  rw [h, hrest]
  exact perm_middle

namespace GroupTable.Valid

variable {maxGroups : GroupType → ℕ} {B : Group → Prop} {t : GroupTable}

lemma empty : GroupTable.empty.Valid maxGroups B where
  unique := nodup_nil
  counts _ := rfl
  bounds _ := Nat.zero_le _
  groups _ h := absurd h not_mem_nil

section

variable (h : t.Valid maxGroups B)
include h

/-- The identifiers and types of a valid table, with one of its groups first. -/
lemma split (hg : g ∈ t.groups) : g.groupId ∉ (t.remove g.groupId).map Group.groupId ∧
      ((t.remove g.groupId).map Group.groupId).Nodup ∧
      ∀ type, t.nGroups type =
        (t.remove g.groupId).countP (fun g => g.type = type) + if g.type = type then 1 else 0 := by
  have hperm := GroupTable.perm_remove h.unique hg
  have hnodup := (hperm.map Group.groupId).nodup_iff.1 h.unique
  rw [map_cons, nodup_cons] at hnodup
  refine ⟨hnodup.1, hnodup.2, fun type => ?_⟩
  rw [h.counts, hperm.countP_eq, countP_cons]
  simp

lemma groups_remove (id : ℕ) : ∀ g ∈ t.remove id, B g :=
  fun g hg => h.groups g (mem_of_mem_filter hg)

lemma insert (hg : B g) (hnew : g.groupId ∉ t.groups.map Group.groupId)
    (hroom : t.nGroups g.type < maxGroups g.type) : Valid maxGroups B
      ⟨g :: t.groups, update t.nGroups g.type (t.nGroups g.type + 1)⟩ where
  unique := nodup_cons.2 ⟨hnew, h.unique⟩
  counts type := by
    have hcount := h.counts type
    grind [update_apply]
  bounds type := by
    have hbound := h.bounds type
    grind [update_apply]
  groups := forall_mem_cons.2 ⟨hg, h.groups⟩

lemma delete (hg : g ∈ t.groups) : (t.delete g).Valid maxGroups B where
  unique := (h.split hg).2.1
  counts type := by
    have hcount := (h.split hg).2.2 type
    simp only [GroupTable.delete, update_apply]
    grind
  bounds type := by
    have hbound := h.bounds type
    simp only [GroupTable.delete, update_apply]
    grind
  groups := h.groups_remove g.groupId

lemma replace {old new : Group} (hold : old ∈ t.groups) (hid : new.groupId = old.groupId)
    (hnew : B new) (hroom : old.type ≠ new.type → t.nGroups new.type < maxGroups new.type) :
    (t.replace old new).Valid maxGroups B := by
  obtain ⟨hnot, hnodup, hcount⟩ := h.split hold
  have hcounts : ∀ type, (t.replace old new).nGroups type =
      (t.remove old.groupId).countP (fun g => g.type = type) +
        if new.type = type then 1 else 0 := by
    intro type
    have hcount := hcount type
    simp only [GroupTable.replace, ite_apply, update_apply]
    grind
  refine ⟨?_, fun type => ?_, fun type => ?_, ?_⟩
  · exact nodup_cons.2 ⟨hid ▸ hnot, hnodup⟩
  · rw [hcounts, GroupTable.replace, countP_cons]
    simp
  · rw [hcounts]
    have hbound := h.bounds type
    have hcount := hcount type
    grind
  · exact forall_mem_cons.2 ⟨hnew, h.groups_remove old.groupId⟩

omit h in
/-- Deleting groups one after the other. -/
lemma foldl_delete {l : List Group} (hnodup : (l.map Group.groupId).Nodup) :
    ∀ {t : GroupTable}, t.Valid maxGroups B → (∀ g ∈ l, g ∈ t.groups) →
      (l.foldl GroupTable.delete t).Valid maxGroups B := by
  induction l with
  | nil => exact fun h _ => h
  | cons g l ih =>
    intro t h hsub
    rw [map_cons, nodup_cons] at hnodup
    refine ih hnodup.2 (h.delete (hsub g mem_cons_self)) fun x hx => ?_
    -- the identifier of a later group is another one
    have hne : x.groupId ≠ g.groupId := fun he => hnodup.1 (mem_map.2 ⟨x, hx, he⟩)
    simpa [GroupTable.delete, GroupTable.remove, hne] using
      hsub x (mem_cons_of_mem g hx)

lemma deleteGroup (id : ℕ) : (deleteGroup t id).Valid maxGroups B := by
  unfold Ofproto.deleteGroup
  split
  · exact foldl_delete h.unique h fun g hg => hg
  · cases hlookup : t.lookup id with
    | none => exact h
    | some g => exact h.delete (GroupTable.lookup_eq_some hlookup).1

end

end GroupTable.Valid

/-! ## What a group mod does -/

lemma initGroup_eq_ok (h : initGroup gm = .ok g) :
    g = ⟨gm.groupId, gm.type, gm.buckets, gm.buckets.length⟩ := by
  unfold initGroup at h
  split_ifs at h
  exact (Except.ok.inj h).symm

section

variable {maxGroups : GroupType → ℕ} {B : Group → Prop} {t t' : GroupTable} {gm : GroupMod}

lemma addGroup_valid (h : t.Valid maxGroups B) (hok : addGroup maxGroups t gm = .ok t')
    (hB : ∀ g, initGroup gm = .ok g → B g) : t'.Valid maxGroups B := by
  unfold addGroup at hok
  cases hinit : initGroup gm with
  | error e => simp [hinit, bind, Except.bind] at hok
  | ok g =>
    by_cases hroom : t.nGroups gm.type ≥ maxGroups gm.type
    · simp [hinit, hroom, bind, Except.bind] at hok
    · cases hlookup : t.lookup gm.groupId with
      | some g' =>
        simp [hinit, hroom, hlookup, bind, Except.bind] at hok
      | none =>
        simp only [hinit, hroom, hlookup] at hok
        obtain rfl := Except.ok.inj hok
        have hg := initGroup_eq_ok hinit
        refine h.insert (hB g hinit) ?_ ?_
        · rw [hg]
          exact GroupTable.not_mem_of_lookup hlookup
        · rw [hg]
          exact Nat.lt_of_not_ge hroom

lemma modifyGroup_valid (h : t.Valid maxGroups B)
    (hok : modifyGroup maxGroups t gm = some (.ok t'))
    (hB : ∀ g old bs, initGroup gm = .ok g → old ∈ t.groups → old.groupId = gm.groupId →
      newBuckets gm old = some (.ok bs) → B { g with buckets := bs }) :
    t'.Valid maxGroups B := by
  unfold modifyGroup at hok
  cases hinit : initGroup gm with
  | error e => simp [hinit] at hok
  | ok g =>
    cases hlookup : t.lookup gm.groupId with
    | none => simp [hinit, hlookup] at hok
    | some old =>
      by_cases hroom : old.type ≠ gm.type ∧ t.nGroups gm.type ≥ maxGroups gm.type
      · simp [hinit, hlookup, hroom] at hok
      · simp only [hinit, hlookup, hroom, if_false, Option.map_eq_some_iff] at hok
        obtain ⟨r, hnew, hr⟩ := hok
        cases r with
        | error e => cases hr
        | ok bs =>
          obtain rfl := Except.ok.inj hr
          obtain ⟨hold, hid⟩ := GroupTable.lookup_eq_some hlookup
          have hg := initGroup_eq_ok hinit
          refine h.replace hold ?_ (hB g old bs hinit hold hid hnew) ?_
          · rw [hg, hid]
          · rw [hg]
            exact fun hne => Nat.lt_of_not_ge fun hge => hroom ⟨hne, hge⟩

/-- A group mod keeps a table valid if the groups it can build are as they should be. -/
lemma handleGroupMod_valid (h : t.Valid maxGroups B)
    (hok : handleGroupMod maxGroups t gm = some (.ok t'))
    (hadd : ∀ g, initGroup gm = .ok g → B g)
    (hmodify : ∀ g old bs, initGroup gm = .ok g → old ∈ t.groups → old.groupId = gm.groupId →
      newBuckets gm old = some (.ok bs) → B { g with buckets := bs }) :
    t'.Valid maxGroups B := by
  unfold handleGroupMod at hok
  cases hcommand : gm.command <;> simp only [hcommand, Option.some.injEq] at hok
  case add => exact addGroup_valid h hok hadd
  case delete =>
    obtain rfl := Except.ok.inj hok
    exact h.deleteGroup gm.groupId
  all_goals exact modifyGroup_valid h hok hmodify

end

/-- What the handlers may rely on in a decoded message. -/
structure GroupMod.Decoded (gm : GroupMod) : Prop where
  distinct : (gm.buckets.map Bucket.bucketId).Nodup
  remove : gm.command = .removeBucket → gm.buckets = []

lemma decodeGroupMod_decoded (h : decodeGroupMod m = .ok gm) : gm.Decoded := by
  unfold decodeGroupMod at h
  cases hpull : (if m.version = 5 then pullOfp15GroupMod m else pullOfp11GroupMod m) with
  | error e => rw [hpull] at h; cases h
  | ok gm' =>
    have hdistinct : (gm'.buckets.map Bucket.bucketId).Nodup := by
      split at hpull
      · unfold pullOfp15GroupMod at hpull
        split_ifs at hpull with _ _ hdup
        obtain rfl := Except.ok.inj hpull
        exact bucketCheckDuplicateId_eq_false.1 (Bool.not_eq_true _ ▸ hdup)
      · unfold pullOfp11GroupMod at hpull
        split_ifs at hpull
        obtain rfl := Except.ok.inj hpull
        rw [map_map]
        exact zipIdx_map_snd 0 m.buckets ▸ nodup_range'
    rw [hpull] at h
    cases hcheck : checkGroupMod gm' with
    | some e => simp [hcheck] at h
    | none =>
      simp only [hcheck] at h
      obtain rfl := Except.ok.inj h
      refine ⟨hdistinct, fun hcommand => by_contra fun hne => ?_⟩
      unfold checkGroupMod at hcheck
      split_ifs at hcheck with hone hempty
      exact hempty ⟨hcommand, hne⟩

/-! ## Runs -/

/-- The tables that group mods lead to from the empty one, as far as each of them satisfies `P`
where it is handled.  A message that fails changes nothing. -/
inductive GroupReachable (maxGroups : GroupType → ℕ) (P : GroupTable → GroupMod → Prop) :
    GroupTable → Prop where
  | empty : GroupReachable maxGroups P GroupTable.empty
  | step {t t' : GroupTable} {m : GroupMessage} {gm : GroupMod} :
      GroupReachable maxGroups P t → decodeGroupMod m = .ok gm → P t gm →
      handleGroupMod maxGroups t gm = some (.ok t') → GroupReachable maxGroups P t'

lemma bucketFind_append_ne_none {old : List Bucket} {id : ℕ} (h : bucketFind old id ≠ none)
    (new : List Bucket) : bucketFind (new ++ old) id ≠ none := by
  unfold bucketFind at h ⊢
  split_ifs at h ⊢
  · exact h
  · simp only [ne_eq, findIdx?_eq_none_iff, mem_append] at h ⊢
    exact fun hall => h fun b hb => hall b (.inr hb)

lemma listSplice_succ_ne_none {α : Type} (l : List α) (before last : ℕ) :
    listSplice l (before + 1) 0 last ≠ none := by
  unfold listSplice
  split_ifs <;> simp_all

/-- Undefined behaviour comes only from buckets that are inserted at the end.  Those that are
inserted behind another one are never put in front of their own first one. -/
lemma copyBucketsForInsertBucket_ne_none {old new : List Bucket} {id : ℕ} (hid : id ≠ bucketLast) :
    copyBucketsForInsertBucket old new id ≠ none := by
  unfold copyBucketsForInsertBucket
  split
  · simp
  rename_i hknown
  split
  · simp
  split
  · rename_i hmax
    obtain ⟨after, hafter⟩ := Option.ne_none_iff_exists'.1
      (bucketFind_append_ne_none (fun h => hknown ⟨hmax.1, h⟩) new)
    obtain ⟨buckets, hbuckets⟩ := Option.ne_none_iff_exists'.1
      (listSplice_succ_ne_none (new ++ old) after new.length)
    simp [hafter, hbuckets]
  · simp

lemma modifyGroup_eq_none {maxGroups : GroupType → ℕ} (h : modifyGroup maxGroups t gm = none) :
    gm.command = .insertBucket ∧ gm.commandBucketId = bucketLast := by
  unfold modifyGroup at h
  split at h
  · cases h
  split at h
  · cases h
  split_ifs at h
  rw [Option.map_eq_none_iff] at h
  unfold newBuckets at h
  split at h
  case h_1 hcommand =>
    exact ⟨hcommand, by_contra fun hne => copyBucketsForInsertBucket_ne_none hne h⟩
  all_goals cases h

/-- A bucket without actions that watches nothing. -/
def plainBucket (bucketId : ℕ) : Bucket := ⟨bucketId, ofppAny, ofpgAny, []⟩

/-- An OpenFlow 1.5 message about group 7. -/
def groupSeven (command : GroupCommand) (commandBucketId : ℕ) (bucketIds : List ℕ) :
    GroupMessage :=
  ⟨5, command, .all, 7, commandBucketId, bucketIds.map plainBucket⟩

/-- A bucket command that finds no bucket to copy in the group: buckets are inserted only into an
empty group, and not at its end, and are removed only with all the others. -/
def CopiesNothing (t : GroupTable) (gm : GroupMod) : Prop :=
  ∀ g ∈ t.groups, g.groupId = gm.groupId →
    (gm.command = .insertBucket → g.buckets = [] ∧ gm.commandBucketId ≠ bucketLast) ∧
    (gm.command = .removeBucket → gm.commandBucketId = bucketAll ∨ g.buckets.length ≤ 1)

instance (t : GroupTable) (gm : GroupMod) : Decidable (CopiesNothing t gm) :=
  inferInstanceAs (Decidable (∀ g ∈ t.groups, g.groupId = gm.groupId →
    (gm.command = .insertBucket → g.buckets = [] ∧ gm.commandBucketId ≠ bucketLast) ∧
    (gm.command = .removeBucket → gm.commandBucketId = bucketAll ∨ g.buckets.length ≤ 1)))

/-- Without anything to copy the new group has the buckets of the message. -/
lemma newBuckets_of_copiesNothing {old : Group} (hgm : gm.Decoded) (hcopies : CopiesNothing t gm)
    (hold : old ∈ t.groups) (hid : old.groupId = gm.groupId) :
    ∃ r, newBuckets gm old = some r ∧ ∀ bs, r = .ok bs → bs = gm.buckets := by
  obtain ⟨hinsert, hremove⟩ := hcopies old hold hid
  unfold newBuckets
  cases hcommand : gm.command <;> simp only [Option.some.injEq, exists_eq_left']
  case insertBucket =>
    obtain ⟨hempty, hlast⟩ := hinsert hcommand
    unfold copyBucketsForInsertBucket
    simp only [hempty, hlast, bucketCheckDuplicateId]
    by_cases hmax : gm.commandBucketId ≤ bucketMax
    · simp [hmax, bucketFind]
    · simp [hmax]
  case removeBucket =>
    have hnil := hgm.remove hcommand
    unfold copyBucketsForRemoveBucket
    rcases hremove hcommand with hall | hone
    · simp [hall]
    · have hdrop : old.buckets.drop 1 = [] := drop_eq_nil_of_le hone
      have hlast : old.buckets.dropLast = [] := by
        rw [dropLast_eq_take, Nat.sub_eq_zero_of_le hone, take_zero]
      have herase : ∀ i, bucketFind old.buckets gm.commandBucketId = some i →
          old.buckets.eraseIdx i = [] := by
        intro i hi
        unfold bucketFind at hi
        split at hi
        · cases hi
        · have hlt := (findIdx?_eq_some_iff_getElem.1 hi).1
          rw [← length_eq_zero_iff, length_eraseIdx_of_lt hlt]
          omega
      simp only [hdrop, hlast]
      split_ifs
      iterate 3 simp
      · cases hfind : bucketFind old.buckets gm.commandBucketId with
        | none => simp
        | some i => simp [herase i hfind]
  all_goals simp

/-- **The group table is as it should be, as long as bucket commands have nothing to copy.**
Every such group mod is also handled without undefined behaviour. -/
theorem group_table_invariant {maxGroups : GroupType → ℕ} {t : GroupTable}
    (h : GroupReachable maxGroups CopiesNothing t) :
    t.Valid maxGroups Group.Sound ∧
      ∀ m gm, decodeGroupMod m = .ok gm → CopiesNothing t gm →
        handleGroupMod maxGroups t gm ≠ none := by
  refine ⟨?_, fun m gm hdecode hcopies => ?_⟩
  · induction h with
    | empty => exact GroupTable.Valid.empty
    | step _ hdecode hcopies hstep ih =>
      have hgm := decodeGroupMod_decoded hdecode
      refine handleGroupMod_valid ih hstep (fun g hinit => ?_)
        fun g old bs hinit hold hid hnew => ?_
      · rw [initGroup_eq_ok hinit]
        exact ⟨rfl, hgm.distinct⟩
      · obtain ⟨r, hr, hbs⟩ := newBuckets_of_copiesNothing hgm hcopies hold hid
        rw [hbs bs (Option.some.inj (hr.symm.trans hnew)), initGroup_eq_ok hinit]
        exact ⟨rfl, hgm.distinct⟩
  · have hgm := decodeGroupMod_decoded hdecode
    have hmodify : modifyGroup maxGroups t gm ≠ none := by
      unfold modifyGroup
      cases hinit : initGroup gm with
      | error e => simp
      | ok g =>
        cases hlookup : t.lookup gm.groupId with
        | none => simp
        | some old =>
          obtain ⟨hold, hid⟩ := GroupTable.lookup_eq_some hlookup
          obtain ⟨r, hr, -⟩ := newBuckets_of_copiesNothing hgm hcopies hold hid
          dsimp only
          split_ifs <;> simp [hr]
    unfold handleGroupMod
    cases gm.command <;> simp [hmodify]

theorem group_table_invariant_groupSeven :
    ∃ t, GroupReachable (fun _ => 1) CopiesNothing t ∧
      t.groups.map (fun g => (g.nBuckets, g.buckets.map Bucket.bucketId)) = [(2, [0, 1])] ∧
      t.Valid (fun _ => 1) Group.Sound := by
  have hadd : decodeGroupMod (groupSeven .add bucketAll []) = .ok ⟨.add, .all, 7, [], bucketAll⟩ :=
    rfl
  have hinsert : decodeGroupMod (groupSeven .insertBucket bucketFirst [0, 1]) =
      .ok ⟨.insertBucket, .all, 7, [plainBucket 0, plainBucket 1], bucketFirst⟩ := rfl
  have hreach : GroupReachable (fun _ => 1) CopiesNothing _ :=
    .step (.step .empty hadd (by decide) rfl) hinsert (by decide) rfl
  exact ⟨_, hreach, rfl, (group_table_invariant hreach).1⟩

/-- **A bucket that is inserted is not counted, and may have the identifier of another one.** -/
theorem group_table_miscounted :
    ∃ t, GroupReachable (fun _ => ofpgMax) (fun _ _ => True) t ∧
      t.groups.map (fun g => (g.nBuckets, g.buckets.map Bucket.bucketId)) = [(1, [0, 0])] := by
  have hadd : decodeGroupMod (groupSeven .add bucketAll [0]) =
      .ok ⟨.add, .all, 7, [plainBucket 0], bucketAll⟩ := rfl
  have hinsert : decodeGroupMod (groupSeven .insertBucket bucketFirst [0]) =
      .ok ⟨.insertBucket, .all, 7, [plainBucket 0], bucketFirst⟩ := rfl
  exact ⟨_, .step (.step .empty hadd trivial rfl) hinsert trivial rfl, rfl⟩

end Ofproto

end OVS
