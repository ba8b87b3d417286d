import OpenVSwitch.Lib.Keyed
import OpenVSwitch.Ovsdb.Lock

/-!
# What sessions know about locks

The server keeps for each lock a queue of waiters, and each operation is an operation on one queue:
`lock` appends, `steal` puts a waiter in front and drops one that has stolen the lock itself, and
`unlock` erases a waiter.

* Only the first waiter of a queue can have stolen the lock, and the others are in the order of
  their requests (`QueueOk`).
* What sessions believe is what the first waiters of the queues say (`Agrees`).
* A waiter that is not the first one and goes away makes the server notify the owner once more.
-/

namespace OVS

open List LockEvent LockWaiter Function

variable {σ : Type}

namespace LockServer

/-! ## The queues -/

/-- The locks have different names, and the names are those of their waiters. -/
structure Named (srv : LockServer σ) : Prop where
  names : (srv.locks.map OvsdbLock.name).Nodup
  waiters : ∀ lock ∈ srv.locks, ∀ waiter ∈ lock.waiters, waiter.lockName = lock.name

variable {srv : LockServer σ} {name name' : CString} {waiter : LockWaiter σ}
  {ws : List (LockWaiter σ)} {s : σ} {belief : LockBelief σ}

/-- With distinct names the queue of a name is the list of waiters of the lock that has it. -/
lemma Named.queue_eq (h : srv.Named) {lock : OvsdbLock σ} (hlock : lock ∈ srv.locks) :
    srv.queue lock.name = lock.waiters := by
  rw [queue, find_of_key h.names hlock]

/-- A queue with a waiter is the list of a lock. -/
lemma exists_lock_of_mem_queue (h : waiter ∈ srv.queue name) :
    ∃ lock ∈ srv.locks, lock.name = name ∧ lock.waiters = srv.queue name := by
  unfold queue at h ⊢
  cases hfind : srv.locks.find? fun l => l.name = name with
  | none => simp [hfind] at h
  | some lock => exact ⟨lock, mem_of_find?_eq_some hfind, by simpa using find?_some hfind, rfl⟩

lemma Named.lockName (h : srv.Named) (hw : waiter ∈ srv.queue name) : waiter.lockName = name := by
  obtain ⟨lock, hlock, rfl, hwaiters⟩ := exists_lock_of_mem_queue hw
  exact h.waiters lock hlock waiter (hwaiters ▸ hw)

@[simp] lemma names_setWaiters (name : CString) (ws : List (LockWaiter σ)) :
    (srv.setWaiters name ws).locks.map OvsdbLock.name = srv.locks.map OvsdbLock.name := by
  simp only [setWaiters, map_map]
  refine map_congr_left fun lock _ => ?_
  simp only [Function.comp_apply]
  split <;> rfl

/-- Writing the waiters of one lock changes the queue of its name and no other. -/
lemma queue_setWaiters (ws : List (LockWaiter σ)) (hname : name ∈ srv.locks.map OvsdbLock.name) :
    (srv.setWaiters name ws).queue = update srv.queue name ws := by
  funext name'
  rw [update_apply]
  unfold queue setWaiters
  have hcomp : ((fun lock : OvsdbLock σ => decide (lock.name = name')) ∘ fun lock =>
      if lock.name = name then { lock with waiters := ws } else lock) =
        fun lock => decide (lock.name = name') := by
    funext lock
    simp only [Function.comp_apply]
    split <;> rfl
  rw [find?_map, hcomp]
  cases hfind : srv.locks.find? fun lock => lock.name = name' with
  | none =>
    obtain ⟨lock, hlock, rfl⟩ := mem_map.1 hname
    have hne : lock.name ≠ name' := by simpa using find?_eq_none.1 hfind lock hlock
    simp [Ne.symm hne]
  | some lock =>
    obtain rfl : lock.name = name' := by simpa using find?_some hfind
    simp only [Option.map_some]
    split <;> rfl

lemma Named.setWaiters (h : srv.Named) (hws : ∀ waiter ∈ ws, waiter.lockName = name) :
    (srv.setWaiters name ws).Named := by
  refine ⟨by simpa using h.names, ?_⟩
  intro lock hlock waiter hwaiter
  obtain ⟨lock', hlock', rfl⟩ := mem_map.1 hlock
  by_cases hname : lock'.name = name
  · rw [if_pos hname] at hwaiter ⊢
    exact (hws waiter hwaiter).trans hname.symm
  · rw [if_neg hname] at hwaiter ⊢
    exact h.waiters lock' hlock' waiter hwaiter

/-- Destroying a lock empties the queue of its name and no other. -/
lemma queue_filter :
    queue { srv with locks := srv.locks.filter fun l => l.name ≠ name } =
      update srv.queue name [] := by
  funext name'
  unfold queue
  rw [find?_filter]
  simp only [decide_eq_true_eq]
  by_cases heq : name' = name
  · subst heq
    have hnone : (srv.locks.find? fun l => decide (l.name ≠ name' ∧ l.name = name')) = none := by
      simp
    rw [hnone, update_self]
  · have hfun : (fun l : OvsdbLock σ => decide (l.name ≠ name ∧ l.name = name')) =
        fun l => decide (l.name = name') := by
      funext l
      by_cases hl : l.name = name'
      · simp [hl, heq]
      · simp [hl]
    rw [hfun, update_of_ne heq]

/-- A lock that is made has no waiters. -/
lemma queue_createLock : (srv.createLock name).queue = srv.queue := by
  unfold createLock
  split
  · rfl
  · rename_i hname
    funext name'
    unfold queue
    by_cases heq : name = name'
    · subst heq
      have hnone : (srv.locks.find? fun lock => lock.name = name) = none := by
        refine find?_eq_none.2 fun lock hlock => ?_
        simpa using fun h => hname (mem_map.2 ⟨lock, hlock, h⟩)
      simp [hnone]
    · simp [heq]

/-- A lock is created only if its name is new, so names stay distinct. -/
lemma Named.createLock (h : srv.Named) (name : CString) : (srv.createLock name).Named ∧
      name ∈ (srv.createLock name).locks.map OvsdbLock.name := by
  unfold LockServer.createLock
  split
  · rename_i hname
    exact ⟨h, hname⟩
  · rename_i hname
    refine ⟨⟨nodup_cons.2 ⟨hname, h.names⟩, ?_⟩, mem_cons_self⟩
    rw [forall_mem_cons]
    exact ⟨by simp, h.waiters⟩

/-! ## The order of a queue -/

/-- Only the first waiter can have stolen the lock.  The others are in the order of their
requests. -/
structure QueueOk (queue : List (LockWaiter σ)) : Prop where
  nodup : queue.Nodup
  behind : ∀ waiter ∈ queue.tail, waiter.mode = .wait
  sorted : (queue.filter fun waiter => waiter.mode = .wait).Pairwise fun a b => a.id < b.id

lemma queueOk_nil : QueueOk ([] : List (LockWaiter σ)) := ⟨by simp, by simp, by simp⟩

variable {queue : List (LockWaiter σ)}

/-- A session that waits goes to the end of the queue, behind those with smaller numbers. -/
lemma QueueOk.append (h : QueueOk queue) (hmode : waiter.mode = .wait)
    (hid : ∀ w ∈ queue, w.id < waiter.id) : QueueOk (queue ++ [waiter]) := by
  refine ⟨?_, fun w hw => ?_, ?_⟩
  · refine nodup_append.2 ⟨h.nodup, by simp, ?_⟩
    rintro w hw w' hw' rfl
    obtain rfl := mem_singleton.1 hw'
    exact lt_irrefl _ (hid w hw)
  · cases queue with
    | nil => simp at hw
    | cons first queue =>
      obtain hw | hw := mem_append.1 hw
      · exact h.behind w hw
      · rw [mem_singleton.1 hw, hmode]
  · rw [filter_append, pairwise_append]
    refine ⟨h.sorted, by simp [hmode], fun w hw w' hw' => ?_⟩
    obtain rfl : w' = waiter := by simpa using (mem_filter.1 hw').1
    exact hid w (mem_of_mem_filter hw)

/-- The waiters that stay behind a new one that steals the lock. -/
def stayBehind (queue : List (LockWaiter σ)) : List (LockWaiter σ) :=
  match queue with
  | [] => []
  | victim :: rest => if victim.mode = .steal then rest else victim :: rest

lemma stayBehind_sublist (queue : List (LockWaiter σ)) : (stayBehind queue).Sublist queue := by
  cases queue with
  | nil => exact Sublist.refl _
  | cons victim rest =>
    unfold stayBehind
    simp only
    split
    · exact sublist_cons_self _ _
    · exact Sublist.refl _

/-- A session that steals goes to the front, and an owner that had stolen the lock as well leaves
the queue. -/
lemma QueueOk.steal (h : QueueOk queue) (waiter : LockWaiter σ) (hmode : waiter.mode = .steal)
    (hid : ∀ w ∈ queue, w.id < waiter.id) : QueueOk (waiter :: stayBehind queue) := by
  have hsub := stayBehind_sublist queue
  refine ⟨nodup_cons.2 ⟨fun hmem => ?_, h.nodup.sublist hsub⟩, fun w hw => ?_, ?_⟩
  · exact lt_irrefl _ (hid waiter (hsub.subset hmem))
  · cases queue with
    | nil => simp [stayBehind] at hw
    | cons victim rest =>
      unfold stayBehind at hw
      simp only [tail_cons] at hw
      split at hw
      · exact h.behind w hw
      · rename_i hvictim
        obtain rfl | hw := mem_cons.1 hw
        · cases hm : w.mode with
          | wait => rfl
          | steal => exact absurd hm hvictim
        · exact h.behind w hw
  · rw [filter_cons_of_neg (by simp [hmode])]
    exact h.sorted.sublist (hsub.filter _)

/-! ## The invariant -/

/-- The locks and the sessions have the same waiters. -/
structure Linked (srv : LockServer σ) : Prop extends srv.Named where
  nonempty : ∀ name ∈ srv.locks.map OvsdbLock.name, srv.queue name ≠ []
  known : ∀ name, ∀ waiter ∈ srv.queue name, waiter ∈ srv.waiters
  keys : (srv.waiters.map fun waiter => (waiter.session, waiter.lockName)).Nodup
  fresh : ∀ waiter ∈ srv.waiters, waiter.id < srv.next

/-- Everything about the locks of a server is right. -/
structure Ok (srv : LockServer σ) : Prop extends srv.Linked where
  queues : ∀ name, QueueOk (srv.queue name)

lemma ok_init : (init : LockServer σ).Ok :=
  ⟨⟨⟨by simp [init], by simp [init]⟩, by simp [init], by simp [init, queue], by simp [init],
    by simp [init]⟩, fun _ => queueOk_nil⟩

/-- A session has one waiter for a lock. -/
lemma Linked.eq_of_key (h : srv.Linked) {w w' : LockWaiter σ} (hw : w ∈ srv.waiters)
    (hw' : w' ∈ srv.waiters) (hsession : w.session = w'.session)
    (hname : w.lockName = w'.lockName) : w = w' :=
  inj_on_of_nodup_map h.keys hw hw' (Prod.ext hsession hname)

@[simp] lemma createLock_waiters (srv : LockServer σ) (name : CString) :
    (srv.createLock name).waiters = srv.waiters := by
  unfold createLock
  split <;> rfl

@[simp] lemma createLock_next : (srv.createLock name).next = srv.next := by
  unfold createLock
  split <;> rfl

/-- Inserting a waiter writes the queue of its lock, created before if need be. -/
lemma queue_insertWaiter (h : srv.Named) (waiter : LockWaiter σ) (ws : List (LockWaiter σ)) :
    ((srv.createLock waiter.lockName).insertWaiter waiter ws).queue =
      update srv.queue waiter.lockName ws := by
  have hqueue := queue_setWaiters ws (h.createLock waiter.lockName).2
  rw [queue_createLock] at hqueue
  exact hqueue

/-- The queues are right if the one of a lock is. -/
lemma Ok.of_queue (h : srv.Ok) {srv' : LockServer σ} (hlinked : srv'.Linked)
    (hqueue : srv'.queue = update srv.queue name queue) (hq : QueueOk queue) : srv'.Ok :=
  ⟨hlinked, hqueue ▸ (forall_update_iff srv.queue fun _ q => QueueOk q).2
    ⟨hq, fun name' _ => h.queues name'⟩⟩

/-- The session that owns a lock. -/
def owner (srv : LockServer σ) (name : CString) : Option σ :=
  (srv.queue name).head?.map LockWaiter.session

/-- A session without a waiter for a lock does not own it. -/
lemma Ok.owner_ne (h : srv.Ok) (hnone : ∀ w ∈ srv.waiters, w.session = s → w.lockName ≠ name) :
    srv.owner name ≠ some s := by
  intro howner
  obtain ⟨w, hw, hsession⟩ := Option.map_eq_some_iff.1 howner
  have hmem := mem_of_mem_head? hw
  exact hnone w (h.known name w hmem) hsession (h.lockName hmem)

lemma parseLockName_eq_some {params : List Json} (h : parseLockName params = some name) :
    params = [.string name] := by
  unfold parseLockName at h
  split at h
  · split at h
    · rw [Option.some.inj h]
    · cases h
  · cases h

/-! ## The operations -/

variable [DecidableEq σ] {event : LockEvent σ}

/-- The lock of a waiter. -/
lemma Named.waiterLock_of_mem (h : srv.Named) (hw : waiter ∈ srv.queue name) :
    ∃ lock ∈ srv.locks, srv.waiterLock waiter = some lock ∧ lock.name = name ∧
      lock.waiters = srv.queue name := by
  obtain ⟨lock, hlock, rfl, hwaiters⟩ := exists_lock_of_mem_queue hw
  have hmem : waiter ∈ lock.waiters := hwaiters ▸ hw
  refine ⟨lock, hlock, find_of_unique hlock (by simpa using hmem) fun lock' hlock' hmem' => ?_,
    rfl, hwaiters⟩
  refine inj_on_of_nodup_map h.names hlock' hlock ?_
  rw [← h.waiters lock' hlock' waiter (by simpa using hmem'), ← h.waiters lock hlock waiter hmem]

/-- A waiter in no queue has lost its lock. -/
lemma Named.waiterLock_of_not_mem (h : srv.Named) (hw : waiter ∉ srv.queue waiter.lockName) :
    srv.waiterLock waiter = none := by
  refine find?_eq_none.2 fun lock hlock hmem => hw ?_
  have hmem' : waiter ∈ lock.waiters := by simpa using hmem
  rw [h.waiters lock hlock waiter hmem', h.queue_eq hlock]
  exact hmem'

/-- The owner is the first of the queue. -/
lemma Named.waiterIsOwner_iff (h : srv.Named) (waiter : LockWaiter σ) :
    srv.waiterIsOwner waiter = true ↔ (srv.queue waiter.lockName).head? = some waiter := by
  unfold waiterIsOwner
  by_cases hw : waiter ∈ srv.queue waiter.lockName
  · obtain ⟨lock, -, hlock, -, hwaiters⟩ := h.waiterLock_of_mem hw
    rw [hlock]
    simp [getOwner, hwaiters]
  · rw [h.waiterLock_of_not_mem hw]
    simp only [Bool.false_eq_true, false_iff]
    exact fun hhead => hw (mem_of_mem_head? hhead)

/-- **A waiter goes from its queue.** -/
lemma Named.queue_waiterRemove (h : srv.Named) (hw : waiter ∈ srv.queue waiter.lockName) :
    (srv.waiterRemove waiter).1 =
        ((srv.queue waiter.lockName).erase waiter).head?.map session ∧
      (srv.waiterRemove waiter).2.queue =
        update srv.queue waiter.lockName ((srv.queue waiter.lockName).erase waiter) := by
  obtain ⟨lock, hlock, hfind, hname, hwaiters⟩ := h.waiterLock_of_mem hw
  unfold waiterRemove
  simp only [hfind, hwaiters, hname]
  split
  · rename_i hnil
    exact ⟨by rw [hnil]; rfl, by rw [queue_filter, hnil]⟩
  · exact ⟨rfl, queue_setWaiters _ (mem_map.2 ⟨lock, hlock, hname⟩)⟩

lemma Named.waiterRemove (h : srv.Named) (waiter : LockWaiter σ) :
    (srv.waiterRemove waiter).2.Named := by
  unfold LockServer.waiterRemove
  split
  · exact h
  · rename_i lock hfind
    simp only
    split
    · exact ⟨h.names.sublist (filter_sublist.map _), fun l hl => h.waiters l (mem_of_mem_filter hl)⟩
    · exact h.setWaiters fun w hw =>
        h.waiters lock (mem_of_find?_eq_some hfind) w (mem_of_mem_erase hw)

@[simp] lemma waiters_waiterRemove (srv : LockServer σ) (waiter : LockWaiter σ) :
    (srv.waiterRemove waiter).2.waiters = srv.waiters ∧
      (srv.waiterRemove waiter).2.next = srv.next := by
  unfold waiterRemove
  split
  · exact ⟨rfl, rfl⟩
  · simp only
    split <;> exact ⟨rfl, rfl⟩

/-- A lock whose last waiter is removed is destroyed, so no lock is left with an empty queue. -/
lemma Named.nonempty_waiterRemove (h : srv.Named) (hw : waiter ∈ srv.queue waiter.lockName)
    (hne : ∀ name ∈ srv.locks.map OvsdbLock.name, srv.queue name ≠ []) :
    ∀ name ∈ (srv.waiterRemove waiter).2.locks.map OvsdbLock.name,
      (srv.waiterRemove waiter).2.queue name ≠ [] := by
  intro name hname
  rw [(h.queue_waiterRemove hw).2, update_apply]
  obtain ⟨lock, hlock, hfind, hlockname, hwaiters⟩ := h.waiterLock_of_mem hw
  unfold LockServer.waiterRemove at hname
  simp only [hfind, hwaiters, hlockname] at hname
  split at hname
  · obtain ⟨lock', hlock', rfl⟩ := mem_map.1 hname
    obtain ⟨hlock', hname'⟩ := mem_filter.1 hlock'
    rw [if_neg (by simpa using hname')]
    exact hne _ (mem_map_of_mem hlock')
  · rename_i hnil
    rw [names_setWaiters] at hname
    split_ifs with heq
    · exact heq ▸ hnil
    · exact hne name hname

lemma QueueOk.erase (h : QueueOk queue) (waiter : LockWaiter σ) : QueueOk (queue.erase waiter) := by
  refine ⟨h.nodup.erase waiter, fun w hw => h.behind w ?_,
    h.sorted.sublist (erase_sublist.filter _)⟩
  cases queue with
  | nil => simp at hw
  | cons first queue =>
    by_cases heq : first = waiter
    · subst heq
      rw [erase_cons_head] at hw
      exact mem_of_mem_tail hw
    · rw [erase_cons_tail (by simpa using heq)] at hw
      exact mem_of_mem_erase hw

/-- **A waiter is put into the list of a lock**, which is made if there is none. -/
lemma Linked.insertWaiter (h : srv.Linked) (waiter : LockWaiter σ) (ws : List (LockWaiter σ))
    (hid : waiter.id = srv.next) (hnone : srv.getLockWaiter waiter.session waiter.lockName = none)
    (hws : ∀ w ∈ ws, w = waiter ∨ w ∈ srv.queue waiter.lockName) (hne : ws ≠ []) :
    ((srv.createLock waiter.lockName).insertWaiter waiter ws).Linked := by
  obtain ⟨hnamed, hname⟩ := h.toNamed.createLock waiter.lockName
  have hqueue := queue_insertWaiter h.toNamed waiter ws
  have hwaiters : ((srv.createLock waiter.lockName).insertWaiter waiter ws).waiters =
      srv.waiters ++ [waiter] := by simp [LockServer.insertWaiter]
  have hnamed' := hnamed.setWaiters fun w hw => (hws w hw).elim
    (fun heq => by rw [heq]) fun hmem => h.lockName hmem
  refine ⟨⟨hnamed'.names, hnamed'.waiters⟩, fun name hmem => ?_, fun name w hw => ?_, ?_, ?_⟩
  · rw [hqueue, update_apply]
    split_ifs with heq
    · exact hne
    · refine h.nonempty name ?_
      have hmem' : name ∈ (srv.createLock waiter.lockName).locks.map OvsdbLock.name := by
        rwa [← names_setWaiters waiter.lockName ws]
      unfold createLock at hmem'
      split at hmem'
      · exact hmem'
      · exact (mem_cons.1 hmem').resolve_left heq
  · rw [hqueue, update_apply] at hw
    rw [hwaiters]
    split_ifs at hw
    · obtain rfl | hw := hws w hw
      · exact mem_append_right _ (mem_singleton_self _)
      · exact mem_append_left _ (h.known _ w hw)
    · exact mem_append_left _ (h.known _ w hw)
  · rw [hwaiters, map_append, nodup_append]
    refine ⟨h.keys, by simp, ?_⟩
    rintro key hkey key' hkey' rfl
    obtain ⟨w, hw, rfl⟩ := mem_map.1 hkey
    have heq : w.session = waiter.session ∧ w.lockName = waiter.lockName := by simpa using hkey'
    have hfind := find?_eq_none.1 hnone w hw
    simp [heq] at hfind
  · intro w hw
    rw [hwaiters] at hw
    have hnext : ((srv.createLock waiter.lockName).insertWaiter waiter ws).next = srv.next + 1 := by
      simp [LockServer.insertWaiter]
    rw [hnext]
    obtain hw | hw := mem_append.1 hw
    · exact (h.fresh w hw).trans (Nat.lt_succ_self _)
    · rw [mem_singleton.1 hw, hid]
      exact Nat.lt_succ_self _

/-- After a removal the waiters in queues are still among those the sessions have. -/
lemma Linked.waiterRemove (h : srv.Linked) (hw : waiter ∈ srv.queue waiter.lockName) :
    (srv.waiterRemove waiter).2.Linked := by
  obtain ⟨hwaiters, hnext⟩ := srv.waiters_waiterRemove waiter
  refine ⟨h.toNamed.waiterRemove waiter, h.nonempty_waiterRemove hw h.nonempty,
    fun name w hmem => ?_, by rw [hwaiters]; exact h.keys, by rw [hwaiters, hnext]; exact h.fresh⟩
  rw [(h.queue_waiterRemove hw).2, update_apply] at hmem
  rw [hwaiters]
  split_ifs at hmem
  · exact h.known _ w (mem_of_mem_erase hmem)
  · exact h.known name w hmem

/-- A waiter that is in no queue goes. -/
lemma Linked.waiterDestroy (h : srv.Linked) (hw : waiter ∉ srv.queue waiter.lockName) :
    (srv.waiterDestroy waiter).Linked := by
  refine ⟨⟨h.names, h.waiters⟩, h.nonempty, fun name w hmem => ?_,
    h.keys.sublist (erase_sublist.map _), fun w hw => h.fresh w (mem_of_mem_erase hw)⟩
  refine (mem_erase_of_ne ?_).2 (h.known name w hmem)
  rintro rfl
  have hmem' : w ∈ srv.queue name := hmem
  rw [h.lockName hmem'] at hw
  exact hw hmem'

/-- A waiter in front drops the one behind it if that one has stolen the lock. -/
lemma Linked.dropVictim (h : srv.Linked) {others : CString → List (LockWaiter σ)}
    (hq : srv.queue = update others name (waiter :: queue))
    (hnot : waiter ∉ queue) : let srv' := match queue.head? with
      | none => srv
      | some victim => if victim.mode = LockMode.steal then (srv.waiterRemove victim).2 else srv
    srv'.Linked ∧ srv'.queue = update others name (waiter :: stayBehind queue) := by
  cases queue with
  | nil => exact ⟨h, hq⟩
  | cons victim rest =>
    simp only [head?_cons, stayBehind]
    split_ifs
    · have hmem : victim ∈ srv.queue name := by simp [hq]
      have hne : waiter ≠ victim := fun heq => hnot (by simp [heq])
      obtain rfl := h.lockName hmem
      refine ⟨h.waiterRemove hmem, ?_⟩
      rw [(h.queue_waiterRemove hmem).2, hq, update_self, update_idem,
        erase_cons_tail (by simpa using hne), erase_cons_head]
    · exact ⟨h, hq⟩

/-- **What `ovsdb_server_lock()` does to the queues.** -/
lemma Ok.serverLock (h : srv.Ok) (hnone : srv.getLockWaiter s name = none) (mode : LockMode) :
    let res := srv.serverLock s name mode
    let waiter : LockWaiter σ := ⟨srv.next, mode, name, s⟩
    res.1 = waiter ∧ res.2.1.Ok ∧
      res.2.1.queue = update srv.queue name (match mode with
        | .wait => srv.queue name ++ [waiter]
        | .steal => waiter :: stayBehind (srv.queue name)) ∧
      res.2.2 = match mode with
        | .wait => none
        | .steal => (srv.queue name).head?.map session := by
  intro res waiter
  have hids : ∀ w ∈ srv.queue name, w.id < srv.next := fun w hw => h.fresh w (h.known name w hw)
  cases mode with
  | wait =>
    have hlinked := h.insertWaiter waiter (srv.queue name ++ [waiter]) rfl hnone
      (fun w hw => (mem_append.1 hw).symm.imp_left mem_singleton.1) (by simp)
    have hqueue := queue_insertWaiter h.toNamed waiter (srv.queue name ++ [waiter])
    have hres : res = (waiter, (srv.createLock name).insertWaiter waiter
        (srv.queue name ++ [waiter]), none) := by
      simp [res, waiter, LockServer.serverLock, queue_createLock]
    rw [hres]
    exact ⟨rfl, h.of_queue hlinked hqueue ((h.queues name).append rfl hids), hqueue, rfl⟩
  | steal =>
    have hlinked := h.insertWaiter waiter (waiter :: srv.queue name) rfl hnone
      (fun w hw => by simpa using hw) (by simp)
    obtain ⟨hlinked', hqueue⟩ := hlinked.dropVictim
      (queue_insertWaiter h.toNamed waiter (waiter :: srv.queue name))
      fun hmem => lt_irrefl _ (hids waiter hmem)
    simp only [res, LockServer.serverLock, queue_createLock, createLock_next, if_true]
    exact ⟨rfl, h.of_queue hlinked' hqueue ((h.queues name).steal waiter rfl hids), hqueue, trivial⟩

/-- **What `ovsdb_jsonrpc_session_unlock__()` does**: the next session hears that it owns the
lock. -/
lemma Ok.unlockWaiter (h : srv.Ok) (waiter : LockWaiter σ) : (srv.unlockWaiter waiter).1.Ok ∧
      (srv.unlockWaiter waiter).1.queue =
        update srv.queue waiter.lockName ((srv.queue waiter.lockName).erase waiter) ∧
      (∀ w, w ∈ (srv.unlockWaiter waiter).1.waiters ↔ w ≠ waiter ∧ w ∈ srv.waiters) ∧
      (srv.unlockWaiter waiter).2 = if waiter ∈ srv.queue waiter.lockName then
        ((srv.unlockWaiter waiter).1.owner waiter.lockName).toList.map fun owner =>
          (owner, .notify .locked waiter.lockName) else [] := by
  have hnodup : srv.waiters.Nodup := h.keys.of_map _
  by_cases hw : waiter ∈ srv.queue waiter.lockName
  · obtain ⟨lock, hlock, hfind, hname, -⟩ := h.waiterLock_of_mem hw
    obtain ⟨howner, hqueue⟩ := h.queue_waiterRemove hw
    have hgone : waiter ∉ (srv.waiterRemove waiter).2.queue waiter.lockName := by
      rw [hqueue, update_self]
      exact (h.queues _).nodup.not_mem_erase
    have hunlock : srv.unlockWaiter waiter = ((srv.waiterRemove waiter).2.waiterDestroy waiter,
        ((srv.waiterRemove waiter).2.owner waiter.lockName).toList.map fun owner =>
          (owner, .notify .locked waiter.lockName)) := by
      unfold LockServer.unlockWaiter
      simp only [hfind, howner, hname, owner, hqueue, update_self]
    rw [hunlock, if_pos hw]
    refine ⟨h.of_queue ((h.toLinked.waiterRemove hw).waiterDestroy hgone) hqueue
      ((h.queues _).erase waiter), hqueue, fun w => ?_, rfl⟩
    rw [LockServer.waiterDestroy, (srv.waiters_waiterRemove waiter).1]
    exact hnodup.mem_erase_iff
  · have hunlock : srv.unlockWaiter waiter = (srv.waiterDestroy waiter, []) := by
      unfold LockServer.unlockWaiter
      rw [h.waiterLock_of_not_mem hw]
    rw [hunlock, if_neg hw, erase_of_not_mem hw, update_eq_self]
    exact ⟨⟨h.toLinked.waiterDestroy hw, h.queues⟩, rfl, fun w => hnodup.mem_erase_iff, rfl⟩

/-- The owners of other locks stay, and that of its lock if the waiter is not in the queue. -/
lemma Ok.owner_unlockWaiter (h : srv.Ok)
    (hsame : ¬ (waiter ∈ srv.queue waiter.lockName ∧ name = waiter.lockName)) :
    (srv.unlockWaiter waiter).1.owner name = srv.owner name := by
  rw [owner, (h.unlockWaiter waiter).2.1, owner, update_apply]
  split_ifs with hname
  · rw [erase_of_not_mem fun hw => hsame ⟨hw, hname⟩, hname]
  · rfl

/-! ## What sessions believe -/

/-- A session has a waiter that owns the lock. -/
def owns (srv : LockServer σ) (s : σ) (name : CString) : Bool :=
  srv.waiters.any fun waiter =>
    waiter.session = s ∧ waiter.lockName = name ∧ srv.waiterIsOwner waiter

/-- A session owns a lock for the server exactly when it is the first in the queue. -/
lemma Ok.owns_iff (h : srv.Ok) (s : σ) (name : CString) :
    srv.owns s name = true ↔ srv.owner name = some s := by
  simp only [owns, owner, any_eq_true, decide_eq_true_eq, Option.map_eq_some_iff]
  constructor
  · rintro ⟨w, -, rfl, rfl, howner⟩
    exact ⟨w, (h.waiterIsOwner_iff w).1 howner, rfl⟩
  · rintro ⟨w, hw, rfl⟩
    have hmem := mem_of_mem_head? hw
    have hname := h.lockName hmem
    exact ⟨w, h.known name w hmem, rfl, hname, (h.waiterIsOwner_iff w).2 (hname ▸ hw)⟩

/-- Sessions are right about the locks of which `D` holds. -/
def AgreesOn (D : σ → CString → Prop) (srv : LockServer σ) (belief : LockBelief σ) : Prop :=
  ∀ s name, D s name → (belief s name = true ↔ srv.owner name = some s)

/-- A session hears about a lock. -/
lemma foldl_notify (victim : Option σ) (method : LockNotify) (s' : σ) :
    (victim.toList.map fun v => (v, LockMsg.notify method name)).foldl event.receive belief s'
        name' = if victim = some s' ∧ name' = name then decide (method = .locked)
          else belief s' name' := by
  cases victim with
  | none => simp
  | some v => cases method <;> simp [receive, LockBelief.set, eq_comm]

/-- **When a waiter goes, the other sessions stay right.** -/
lemma Ok.agreesOn_unlockWaiter (h : srv.Ok) (waiter : LockWaiter σ) {D : σ → CString → Prop}
    (hD : ¬ D waiter.session waiter.lockName) (hbelief : AgreesOn D srv belief)
    (event : LockEvent σ) : AgreesOn D (srv.unlockWaiter waiter).1
      ((srv.unlockWaiter waiter).2.foldl event.receive belief) := by
  intro s name hs
  have hold := hbelief s name hs
  have hkept : srv.owner name = some s → (srv.unlockWaiter waiter).1.owner name = some s := by
    intro howner
    obtain ⟨first, hfirst, rfl⟩ := Option.map_eq_some_iff.1 howner
    rw [owner, (h.unlockWaiter waiter).2.1, update_apply]
    split_ifs with hname
    · subst hname
      obtain ⟨rest, hq⟩ := head?_eq_some_iff.1 hfirst
      rw [hq, erase_cons_tail]
      · rfl
      · simp only [beq_iff_eq]
        rintro rfl
        exact hD hs
    · exact howner
  rw [(h.unlockWaiter waiter).2.2.2]
  split_ifs with hw
  · rw [foldl_notify]
    split_ifs with htold
    · obtain ⟨howner, rfl⟩ := htold
      simp [howner]
    · refine hold.trans ⟨hkept, fun hnew => ?_⟩
      have hname : name ≠ waiter.lockName := by
        rintro rfl
        exact htold ⟨hnew, rfl⟩
      rwa [h.owner_unlockWaiter fun hboth => hname hboth.2] at hnew
  · rw [h.owner_unlockWaiter fun hboth => hw hboth.1]
    exact hold

/-- The loop of `ovsdb_jsonrpc_session_unlock_all()`. -/
lemma Ok.unlockAll (h : srv.Ok) (hws : ∀ w ∈ ws, w.session = s)
    (hbelief : AgreesOn (fun s' _ => s' ≠ s) srv belief) (event : LockEvent σ) :
    (LockServer.unlockAll ws srv).1.Ok ∧
      AgreesOn (fun s' _ => s' ≠ s) (LockServer.unlockAll ws srv).1
        ((LockServer.unlockAll ws srv).2.foldl event.receive belief) ∧
      ∀ w, w ∈ (LockServer.unlockAll ws srv).1.waiters → w ∈ srv.waiters ∧ w ∉ ws := by
  induction ws generalizing srv belief with
  | nil => exact ⟨h, hbelief, fun w hw => ⟨hw, by simp⟩⟩
  | cons w ws ih =>
    obtain ⟨hw, hws'⟩ := forall_mem_cons.1 hws
    obtain ⟨hok, -, hwaiters, -⟩ := h.unlockWaiter w
    have hagree := h.agreesOn_unlockWaiter w (by simp [hw]) hbelief event
    obtain ⟨hok', hagree', hgone⟩ := ih hok hws' hagree
    unfold LockServer.unlockAll
    simp only [foldl_append]
    refine ⟨hok', hagree', fun w' hw' => ?_⟩
    obtain ⟨hmem, hnot⟩ := hgone w' hw'
    obtain ⟨hne, hmem⟩ := (hwaiters w').1 hmem
    exact ⟨hmem, by simp [hne, hnot]⟩

/-- The waiter found for a session and a name belongs to both. -/
lemma getLockWaiter_eq_some (h : srv.getLockWaiter s name = some waiter) :
    waiter ∈ srv.waiters ∧ waiter.session = s ∧ waiter.lockName = name :=
  ⟨mem_of_find?_eq_some h, by simpa using find?_some h⟩

/-- The server and what sessions believe agree. -/
structure Agrees (srv : LockServer σ) (belief : LockBelief σ) : Prop where
  ok : srv.Ok
  agrees : ∀ s name, belief s name = true ↔ srv.owner name = some s

/-- Who owns a lock after `ovsdb_server_lock()`, and whom it was taken from. -/
lemma Ok.owner_serverLock (h : srv.Ok) (hnone : srv.getLockWaiter s name = none) (mode : LockMode) :
    let res := srv.serverLock s name mode
    res.2.1.Ok ∧
      (∀ name', res.2.1.owner name' = if name' = name then
        (if mode = .steal then some s else some ((srv.owner name).getD s)) else srv.owner name') ∧
      (res.2.1.waiterIsOwner res.1 = true ↔ res.2.1.owner name = some s) ∧
      res.2.2 = if mode = .steal then srv.owner name else none := by
  intro res
  obtain ⟨hwaiter, hok, hqueue, hvictim⟩ := h.serverLock hnone mode
  refine ⟨hok, fun name' => ?_, ?_, ?_⟩
  · rw [owner, hqueue, update_apply, owner]
    split_ifs with hname hmode
    · subst hmode
      rfl
    · cases mode with
      | wait => cases srv.queue name <;> rfl
      | steal => exact absurd rfl hmode
    · rfl
  · -- the new waiter is the only one of its session
    have hmem : res.1 ∈ res.2.1.queue name := by
      rw [hqueue, hwaiter, update_self]
      cases mode <;> simp
    have hname : res.1.lockName = name := hok.lockName hmem
    have hsession : res.1.session = s := by rw [hwaiter]
    rw [hok.waiterIsOwner_iff, hname, owner, Option.map_eq_some_iff]
    constructor
    · exact fun hhead => ⟨res.1, hhead, hsession⟩
    · rintro ⟨w, hhead, hw⟩
      have hmem' := mem_of_mem_head? hhead
      rw [hhead, hok.eq_of_key (hok.known _ w hmem') (hok.known _ _ hmem) (hw.trans hsession.symm)
        ((hok.lockName hmem').trans hname.symm)]
  · rw [hvictim]
    cases mode <;> rfl

/-- **`lock` and `steal` keep the sessions right.** -/
lemma Agrees.sessionLock (h : Agrees srv belief) (s : σ) (method : LockMethod) (params : List Json)
    (mode : LockMode) : Agrees (srv.sessionLock s method params mode).1
      ((srv.sessionLock s method params mode).2.foldl
        (request s method params).receive belief) := by
  unfold LockServer.sessionLock
  split
  · exact h
  · rename_i name hparams
    obtain rfl := parseLockName_eq_some hparams
    split
    · exact h
    · rename_i hnone
      obtain ⟨hok, howner, hlocked, hvictim⟩ := h.ok.owner_serverLock hnone mode
      refine ⟨hok, fun s' name' => ?_⟩
      simp only [foldl_append, foldl_cons, foldl_nil, receive,
        LockBelief.set, foldl_notify]
      by_cases hs : s' = s ∧ name' = name
      · obtain ⟨rfl, rfl⟩ := hs
        simpa using hlocked
      · rw [if_neg hs, howner, hvictim]
        have hold := h.agrees s' name'
        by_cases hname : name' = name
        · subst hname
          have hs' : s ≠ s' := fun heq => hs ⟨heq.symm, rfl⟩
          cases mode with
          | wait =>
            cases howner' : srv.owner name' with
            | none => simp [hs', hold, howner']
            | some s'' => simp [hold, howner']
          | steal =>
            by_cases howner' : srv.owner name' = some s'
            · simp [howner', hs']
            · simp [hs', hold]
        · simp [hname, hold]

/-- A session does not own a lock that it has given up. -/
lemma Ok.owner_unlockWaiter_ne (h : srv.Ok) (hmem : waiter ∈ srv.waiters) :
    (srv.unlockWaiter waiter).1.owner waiter.lockName ≠ some waiter.session := by
  obtain ⟨hok, -, hwaiters, -⟩ := h.unlockWaiter waiter
  refine hok.owner_ne fun w hw hsession hname => ?_
  obtain ⟨hne, hw⟩ := (hwaiters w).1 hw
  exact hne (h.eq_of_key hw hmem hsession hname)

/-- `unlock` fails, or drops the waiter of the session. -/
lemma sessionUnlock_cases (srv : LockServer σ) (s : σ) (params : List Json) :
    (∃ details json, srv.sessionUnlock s params = (srv, [(s, .reply (.error details json))])) ∨
      ∃ name waiter, parseLockName params = some name ∧
        srv.getLockWaiter s name = some waiter ∧ srv.sessionUnlock s params =
          ((srv.unlockWaiter waiter).1,
            (srv.unlockWaiter waiter).2 ++ [(s, .reply .unlocked)]) := by
  unfold LockServer.sessionUnlock
  split
  · exact .inl ⟨_, _, rfl⟩
  · rename_i name hparams
    split
    · exact .inl ⟨_, _, rfl⟩
    · rename_i waiter hsome
      exact .inr ⟨name, waiter, hparams, hsome, rfl⟩

/-- **`unlock` keeps the sessions right.** -/
lemma Agrees.sessionUnlock (h : Agrees srv belief) (s : σ) (params : List Json) :
    Agrees (srv.sessionUnlock s params).1
      ((srv.sessionUnlock s params).2.foldl (request s .unlock params).receive
        belief) := by
  obtain ⟨details, json, hres⟩ | ⟨name, waiter, hparams, hsome, hres⟩ :=
    srv.sessionUnlock_cases s params
  · rw [hres]
    exact h
  · obtain rfl := parseLockName_eq_some hparams
    obtain ⟨hmem, rfl, rfl⟩ := getLockWaiter_eq_some hsome
    obtain ⟨hok, -⟩ := h.ok.unlockWaiter waiter
    have hagree := h.ok.agreesOn_unlockWaiter waiter
      (D := fun s name => ¬ (s = waiter.session ∧ name = waiter.lockName)) (by simp)
      (fun s name _ => h.agrees s name) (.request waiter.session .unlock [.string waiter.lockName])
    have hgone := h.ok.owner_unlockWaiter_ne hmem
    rw [hres]
    refine ⟨hok, fun s' name' => ?_⟩
    simp only [foldl_append, foldl_cons, foldl_nil]
    by_cases hs : s' = waiter.session ∧ name' = waiter.lockName
    · obtain ⟨rfl, rfl⟩ := hs
      simp [receive, LockBelief.set, hgone]
    · have hold := hagree s' name' hs
      simp only [receive, LockBelief.set, if_neg hs]
      exact hold

/-- The waiters of a session, in the order of their visits. -/
lemma mem_order_filter (hmap : HmapOrder (LockWaiter σ)) (s : σ) {w : LockWaiter σ} :
    w ∈ hmap.order (srv.waiters.filter fun w => w.session = s) ↔
      w ∈ srv.waiters ∧ w.session = s := by
  rw [(hmap.perm _).mem_iff, mem_filter, decide_eq_true_eq]

/-- **A session that goes away keeps the others right.** -/
lemma Agrees.disconnect (h : Agrees srv belief) (hmap : HmapOrder (LockWaiter σ)) (s : σ) :
    Agrees (srv.step hmap (.disconnect s)).1
      ((disconnect s).replay (srv.step hmap (.disconnect s)).2 belief) := by
  obtain ⟨hok, hagree, hgone⟩ := h.ok.unlockAll
    (fun w hw => ((mem_order_filter hmap s).1 hw).2) (fun s' name _ => h.agrees s' name)
    (.disconnect s)
  refine ⟨hok, fun s' name => ?_⟩
  by_cases hs : s' = s
  · have hne : (srv.step hmap (.disconnect s)).1.owner name ≠ some s' := by
      refine hok.owner_ne fun w hw hsession => ?_
      obtain ⟨hw, hnot⟩ := hgone w hw
      exact absurd ((mem_order_filter hmap s).2 ⟨hw, hsession.trans hs⟩) hnot
    simp [replay, hs, hs ▸ hne]
  · have hold := hagree s' name hs
    simp only [replay, if_neg hs]
    exact hold

/-- One event keeps the beliefs of the sessions in agreement with the server, once its messages
are read. -/
lemma Agrees.step (h : Agrees srv belief) (hmap : HmapOrder (LockWaiter σ)) (event : LockEvent σ) :
    Agrees (srv.step hmap event).1 (event.replay (srv.step hmap event).2 belief) := by
  cases event with
  | request s method params =>
    cases method with
    | lock => exact h.sessionLock s .lock params .wait
    | steal => exact h.sessionLock s .steal params .steal
    | unlock => exact h.sessionUnlock s params
  | disconnect s => exact h.disconnect hmap s

/-! ## Notifications -/

/-- A notification to a session that it owns a lock. -/
def isLocked (s : σ) (name : CString) : σ × LockMsg → Bool
  | (s', .notify .locked name') => s' = s ∧ name' = name
  | _ => false

/-- **A waiter that owns its lock makes the server notify the next one**, and no other session. -/
lemma Ok.countP_unlockWaiter (h : srv.Ok) (hmem : waiter ∈ srv.waiters)
    (howner : waiter ∈ srv.queue waiter.lockName →
      (srv.queue waiter.lockName).head? = some waiter) (s : σ) (name : CString) :
    (srv.unlockWaiter waiter).2.countP (isLocked s name) =
      if (srv.unlockWaiter waiter).1.owner name = some s ∧ srv.owner name ≠ some s then 1
      else 0 := by
  have hgone := h.owner_unlockWaiter_ne hmem
  rw [(h.unlockWaiter waiter).2.2.2]
  split_ifs with hw hpass hpass
  · obtain ⟨hnew, hold⟩ := hpass
    have hname : name = waiter.lockName := by
      by_contra hname
      exact hold ((h.owner_unlockWaiter fun hboth => hname hboth.2).symm.trans hnew)
    subst hname
    simp [hnew, isLocked]
  · cases hnew : (srv.unlockWaiter waiter).1.owner waiter.lockName with
    | none => rfl
    | some s' =>
      have hother : ¬ (s' = s ∧ waiter.lockName = name) := by
        rintro ⟨rfl, rfl⟩
        refine hpass ⟨hnew, fun hold => hgone ?_⟩
        rw [owner, howner hw] at hold
        rw [hnew, ← hold]
        rfl
      simp [isLocked, hother]
  · rw [h.owner_unlockWaiter fun hboth => hw hboth.1] at hpass
    exact absurd hpass.1 hpass.2
  · rfl

/-- The same for all waiters of a session. -/
lemma Ok.countP_unlockAll (h : srv.Ok) (hmem : ∀ w ∈ ws, w ∈ srv.waiters)
    (hnames : (ws.map lockName).Nodup)
    (howner : ∀ w ∈ ws, w ∈ srv.queue w.lockName → (srv.queue w.lockName).head? = some w) (s : σ)
    (name : CString) : (name ∉ ws.map lockName →
        (LockServer.unlockAll ws srv).1.owner name = srv.owner name) ∧
      (LockServer.unlockAll ws srv).2.countP (isLocked s name) =
        if (LockServer.unlockAll ws srv).1.owner name = some s ∧ srv.owner name ≠ some s then 1
        else 0 := by
  induction ws generalizing srv with
  | nil => simp [LockServer.unlockAll]
  | cons w ws ih =>
    obtain ⟨hw, hws⟩ := forall_mem_cons.1 hmem
    obtain ⟨hown, hown'⟩ := forall_mem_cons.1 howner
    rw [map_cons, nodup_cons] at hnames
    obtain ⟨hok, hqueue, hwaiters, -⟩ := h.unlockWaiter w
    have hfirst := h.countP_unlockWaiter hw hown s name
    have hne : ∀ w' ∈ ws, w'.lockName ≠ w.lockName := fun w' hw' heq =>
      hnames.1 (heq ▸ mem_map_of_mem hw')
    obtain ⟨hkeep, hrest⟩ := ih hok (fun w' hw' =>
        (hwaiters w').2 ⟨fun heq => hne w' hw' (by rw [heq]), hws w' hw'⟩)
      hnames.2 (fun w' hw' => by
        rw [hqueue, update_of_ne (hne w' hw')]
        exact hown' w' hw')
    have hother : name ≠ w.lockName → (srv.unlockWaiter w).1.owner name = srv.owner name :=
      fun hname => h.owner_unlockWaiter fun hboth => hname hboth.2
    unfold LockServer.unlockAll
    simp only [countP_append]
    constructor
    · intro hname
      rw [map_cons, mem_cons, not_or] at hname
      rw [hkeep hname.2, hother hname.1]
    · rw [hfirst, hrest]
      by_cases hname : name = w.lockName
      · rw [hkeep (hname ▸ hnames.1)]
        simp
      · rw [hother hname]
        simp

/-- A waiter owns its lock, or has been taken off the list of its lock. -/
def OwnsOrOff (srv : LockServer σ) (waiter : LockWaiter σ) : Prop :=
  srv.waiterIsOwner waiter = true ∨ srv.waiterLock waiter = none

/-- No session gives up a lock while it waits for it. -/
def GivesUpOwned (srv : LockServer σ) : LockEvent σ → Prop
  | .request s .unlock params => ∀ name, parseLockName params = some name →
      ∀ waiter, srv.getLockWaiter s name = some waiter → srv.OwnsOrOff waiter
  | .request _ _ _ => True
  | .disconnect s => ∀ waiter ∈ srv.waiters, waiter.session = s → srv.OwnsOrOff waiter

lemma Ok.head_of_ownsOrOff (h : srv.Ok) (hwaiter : srv.OwnsOrOff waiter)
    (hmem : waiter ∈ srv.queue waiter.lockName) :
    (srv.queue waiter.lockName).head? = some waiter := by
  obtain howner | hoff := hwaiter
  · exact (h.waiterIsOwner_iff waiter).1 howner
  · obtain ⟨lock, -, hlock, -⟩ := h.waiterLock_of_mem hmem
    rw [hoff] at hlock
    cases hlock

/-- `lock` and `steal` do not say `locked` to anyone, and only the session itself gets the lock. -/
lemma Ok.countP_sessionLock (h : srv.Ok) (s0 : σ) (method : LockMethod) (params : List Json)
    (mode : LockMode) (s : σ) (name : CString) :
    (srv.sessionLock s0 method params mode).2.countP (isLocked s name) = 0 ∧
      (s0 ≠ s → (srv.sessionLock s0 method params mode).1.owner name = some s →
        srv.owner name = some s) := by
  unfold LockServer.sessionLock
  split
  · simp [isLocked]
  · rename_i name' hparams
    split
    · simp [isLocked]
    · rename_i hnone
      obtain ⟨-, howner, -, hvictim⟩ := h.owner_serverLock hnone mode
      constructor
      · simp only [countP_append, Nat.add_eq_zero_iff]
        constructor
        · cases (srv.serverLock s0 name' mode).2.2 <;> simp [isLocked]
        · simp [isLocked]
      · intro hs howner'
        simp only [howner] at howner'
        split_ifs at howner' with hname hmode
        · exact absurd (Option.some.inj howner') hs
        · subst hname
          cases hold : srv.owner name with
          | none => simp [hold, hs] at howner'
          | some s' => simpa [hold] using howner'
        · exact howner'

/-- **A session hears that it owns a lock exactly when the lock passes to it.** -/
lemma Ok.countP_step (h : srv.Ok) (hmap : HmapOrder (LockWaiter σ))
    (hevent : srv.GivesUpOwned event) (s : σ) (name : CString) :
    (srv.step hmap event).2.countP (isLocked s name) =
      if (srv.step hmap event).1.owner name = some s ∧ srv.owner name ≠ some s ∧
        event.isRequestOf s = false then 1 else 0 := by
  cases event with
  | request s0 method params =>
    have hlock : ∀ mode, (srv.sessionLock s0 method params mode).2.countP (isLocked s name) =
        if (srv.sessionLock s0 method params mode).1.owner name = some s ∧
          srv.owner name ≠ some s ∧ (request s0 method params).isRequestOf s = false
        then 1 else 0 := by
      intro mode
      obtain ⟨hcount, howner⟩ := h.countP_sessionLock s0 method params mode s name
      rw [hcount, if_neg]
      rintro ⟨hnew, hold, hs⟩
      exact hold (howner (by simpa [isRequestOf] using hs) hnew)
    cases method with
    | lock => exact hlock .wait
    | steal => exact hlock .steal
    | unlock =>
      rw [step]
      obtain ⟨details, json, hres⟩ | ⟨name', waiter, hparams, hsome, hres⟩ :=
        srv.sessionUnlock_cases s0 params
      · rw [hres, if_neg fun hpass => hpass.2.1 hpass.1]
        rfl
      · obtain ⟨hmem, rfl, rfl⟩ := getLockWaiter_eq_some hsome
        have hgone := h.owner_unlockWaiter_ne hmem
        have hcount := h.countP_unlockWaiter hmem
          (h.head_of_ownsOrOff (hevent _ hparams _ hsome)) s name
        have hother : (srv.unlockWaiter waiter).1.owner name = some s ∧ srv.owner name ≠ some s →
            waiter.session ≠ s := by
          rintro ⟨hnew, hold⟩ rfl
          by_cases hname : name = waiter.lockName
          · exact hgone (hname ▸ hnew)
          · exact hold ((h.owner_unlockWaiter fun hboth => hname hboth.2).symm.trans hnew)
        rw [hres]
        simp only [countP_append, hcount, isRequestOf, decide_eq_false_iff_not]
        exact if_congr ⟨fun hpass => ⟨hpass.1, hpass.2, hother hpass⟩, fun hpass =>
          ⟨hpass.1, hpass.2.1⟩⟩ rfl rfl
  | disconnect s0 =>
    have hmem : ∀ w ∈ _, w ∈ srv.waiters ∧ w.session = s0 := fun w hw =>
      (mem_order_filter hmap s0).1 hw
    have hnames : ((hmap.order (srv.waiters.filter fun w => w.session = s0)).map
        lockName).Nodup := by
      refine (((hmap.perm _).map _).nodup_iff).2 (Nodup.map_on ?_ ?_)
      · intro w hw w' hw' hname
        simp only [mem_filter, decide_eq_true_eq] at hw hw'
        exact h.eq_of_key hw.1 hw'.1 (hw.2.trans hw'.2.symm) hname
      · have hnodup : srv.waiters.Nodup := h.keys.of_map _
        exact hnodup.filter _
    have hcount := (h.countP_unlockAll (fun w hw => (hmem w hw).1) hnames
      (fun w hw => h.head_of_ownsOrOff (hevent w (hmem w hw).1 (hmem w hw).2)) s name).2
    simpa [isRequestOf, LockServer.step] using hcount

end LockServer

variable [DecidableEq σ]

/-- So they agree after any run. -/
lemma LockRun.agrees {hmap : HmapOrder (LockWaiter σ)} {srv : LockServer σ}
    {belief : LockBelief σ} (h : LockRun hmap srv belief) : srv.Agrees belief := by
  induction h with
  | init => exact ⟨LockServer.ok_init,
      by simp [LockServer.owner, LockServer.init, LockServer.queue]⟩
  | step event _ ih => exact ih.step hmap event

open LockServer in
/-- What the protocol promises in a state. -/
structure LocksCorrect (hmap : HmapOrder (LockWaiter σ)) (srv : LockServer σ)
    (belief : LockBelief σ) : Prop where
  /-- A lock has waiters, and exactly one owner. -/
  oneOwner : ∀ lock ∈ srv.locks, lock.waiters ≠ [] ∧
    ∃! waiter, waiter ∈ srv.waiters ∧ waiter.lockName = lock.name ∧
      srv.waiterIsOwner waiter = true
  /-- An owner that has not stolen its lock has asked before all others that wait for it. -/
  requestOrder : ∀ lock ∈ srv.locks, ∀ owner ∈ lock.waiters, owner.mode = .wait →
    srv.waiterIsOwner owner = true → ∀ waiter ∈ lock.waiters, waiter ≠ owner →
      waiter.mode = .wait ∧ owner.id < waiter.id
  /-- Sessions know which locks they own. -/
  believes : ∀ s name, belief s name = srv.owns s name
  /-- A session hears that it owns a lock exactly when the lock passes to it, unless a session
      gives up a lock while it waits for it. -/
  notified : ∀ event, srv.GivesUpOwned event → ∀ s name,
    (srv.step hmap event).2.countP (isLocked s name) =
      if (srv.step hmap event).1.owns s name = true ∧ srv.owns s name = false ∧
        event.isRequestOf s = false then 1 else 0

/-- **The lock protocol**, for any sessions and any sequence of requests and disconnections. -/
theorem locks_correct {hmap : HmapOrder (LockWaiter σ)} {srv : LockServer σ}
    {belief : LockBelief σ} (h : LockRun hmap srv belief) : LocksCorrect hmap srv belief := by
  obtain ⟨hok, hagrees⟩ := h.agrees
  have hok' := fun event => (h.agrees.step hmap event).ok
  refine ⟨fun lock hlock => ?_, fun lock hlock w hw hmode howner w' hw' hne => ?_,
    fun s name => ?_, fun event hevent s name => ?_⟩
  · have hqueue := hok.queue_eq hlock
    have hne : lock.waiters ≠ [] := hqueue ▸ hok.nonempty _ (mem_map_of_mem hlock)
    obtain ⟨w, rest, hwaiters⟩ := exists_cons_of_ne_nil hne
    have hhead : (srv.queue lock.name).head? = some w := by rw [hqueue, hwaiters]; rfl
    have hmem := mem_of_mem_head? hhead
    have hname := hok.lockName hmem
    refine ⟨hne, w, ⟨hok.known _ w hmem, hname, (hok.waiterIsOwner_iff w).2 (hname ▸ hhead)⟩, ?_⟩
    rintro w' ⟨-, hname', howner'⟩
    have hhead' := (hok.waiterIsOwner_iff w').1 howner'
    rw [hname', hhead] at hhead'
    exact (Option.some.inj hhead').symm
  · have hqueue := hok.queue_eq hlock
    have hname := hok.waiters lock hlock w hw
    have hhead := (hok.waiterIsOwner_iff w).1 howner
    rw [hname, hqueue] at hhead
    obtain ⟨rest, hwaiters⟩ := head?_eq_some_iff.1 hhead
    have hq := hok.queues lock.name
    rw [hqueue, hwaiters] at hq
    have hrest : w' ∈ rest := by
      rw [hwaiters] at hw'
      exact (mem_cons.1 hw').resolve_left hne
    have hmode' := hq.behind w' hrest
    have hsorted := hq.sorted
    rw [filter_cons_of_pos (by simpa using hmode), pairwise_cons] at hsorted
    exact ⟨hmode', hsorted.1 w' (mem_filter.2 ⟨hrest, by simpa using hmode'⟩)⟩
  · rw [Bool.eq_iff_iff, hagrees, hok.owns_iff]
  · rw [hok.countP_step hmap hevent]
    simp only [(hok' event).owns_iff, ← Bool.not_eq_true, hok.owns_iff]

/-- The order of a list. -/
def listOrder (α : Type) : HmapOrder α := ⟨id, fun _ => .refl _⟩

/-- A request for the lock `l`. -/
def lockRequest (s : ℕ) (method : LockMethod) : LockEvent ℕ :=
  .request s method [.string (.lit "l")]

/-- Two sessions ask for a lock. -/
def twoSessions : LockServer ℕ :=
  ((LockServer.init.step (listOrder _) (lockRequest 1 .lock)).1.step (listOrder _)
    (lockRequest 2 .lock)).1

/-- The sessions of `twoSessions`. -/
theorem locks_correct_twoSessions :
    ∃ belief, LocksCorrect (listOrder _) twoSessions belief ∧
      twoSessions.owns 1 (.lit "l") = true ∧ twoSessions.owns 2 (.lit "l") = false :=
  ⟨_, locks_correct (.step _ (.step _ .init)), by decide, by decide⟩

/-- **A session that owns a lock can hear again that it owns it**, when another one gives up to
wait for the lock. -/
theorem locked_sent_to_owner :
    ∃ belief, LockRun (listOrder _) twoSessions belief ∧
      twoSessions.owns 1 (.lit "l") = true ∧
      (twoSessions.step (listOrder _) (lockRequest 2 .unlock)).2.countP
        (LockServer.isLocked 1 (.lit "l")) = 1 :=
  ⟨_, .step _ (.step _ .init), by decide, by decide⟩

end OVS
