import OpenVSwitch.Json.Value

/-!
# Locks of the database server

The locks of `ovsdb/server.c`, and the requests of `ovsdb/jsonrpc-server.c` that use them.  A lock
has a list of waiters, and the one at its front owns it.  A request to `lock` goes to the end of the
list, and one to `steal` goes to the front.

**Pointers.**  Waiters have numbers in the order in which they are made, so a waiter of a smaller
number has asked earlier.  The pointer from a waiter to its lock is the lock whose list has it, and
is null for a waiter that has been taken off its list.

**Sessions.**  The waiters of all sessions are in one list.  A session finds its own in it by the
name of the lock.  When it goes away it drops them in the order of a hash table, which is any order
(`order`).
-/

namespace OVS

/-! ## Locks and waiters -/

/-- `enum ovsdb_lock_mode`. -/
inductive LockMode
  | wait
  | steal
deriving DecidableEq

/-- `struct ovsdb_lock_waiter`. -/
structure LockWaiter (σ : Type) where
  id : ℕ
  mode : LockMode
  lockName : CString
  session : σ
deriving DecidableEq

structure OvsdbLock (σ : Type) where
  name : CString
  waiters : List (LockWaiter σ)

/-- The part of `struct ovsdb_server` for locks, and the waiters of its sessions. -/
structure LockServer (σ : Type) where
  locks : List (OvsdbLock σ)
  waiters : List (LockWaiter σ)
  next : ℕ

namespace LockServer

variable {σ : Type} [DecidableEq σ]

/-- `ovsdb_server_init()`. -/
def init : LockServer σ := ⟨[], [], 0⟩

/-- `ovsdb_session_get_lock_waiter()`. -/
def getLockWaiter (srv : LockServer σ) (session : σ) (lockName : CString) :
    Option (LockWaiter σ) :=
  srv.waiters.find? fun waiter => waiter.session = session ∧ waiter.lockName = lockName

/-- `ovsdb_lock_get_owner()`. -/
def getOwner (lock : OvsdbLock σ) : Option (LockWaiter σ) := lock.waiters.head?

/-- `waiter->lock`. -/
def waiterLock (srv : LockServer σ) (waiter : LockWaiter σ) : Option (OvsdbLock σ) :=
  srv.locks.find? fun lock => waiter ∈ lock.waiters

/-- `ovsdb_lock_waiter_is_owner()`. -/
def waiterIsOwner (srv : LockServer σ) (waiter : LockWaiter σ) : Bool :=
  match srv.waiterLock waiter with
  | none => false
  | some lock => getOwner lock = some waiter

/-- The server with another list of waiters for a lock. -/
def setWaiters (srv : LockServer σ) (lockName : CString) (waiters : List (LockWaiter σ)) :
    LockServer σ :=
  { srv with
    locks := srv.locks.map fun lock =>
      if lock.name = lockName then { lock with waiters := waiters } else lock }

/-- `ovsdb_lock_waiter_remove()`: the session that now owns the lock. -/
def waiterRemove (srv : LockServer σ) (waiter : LockWaiter σ) : Option σ × LockServer σ :=
  match srv.waiterLock waiter with
  | none => (none, srv)
  | some lock =>
    let waiters := lock.waiters.erase waiter
    if waiters = [] then
      (none, { srv with locks := srv.locks.filter fun l => l.name ≠ lock.name })
    else (waiters.head?.map LockWaiter.session, srv.setWaiters lock.name waiters)

/-- `ovsdb_lock_waiter_destroy()`. -/
def waiterDestroy (srv : LockServer σ) (waiter : LockWaiter σ) : LockServer σ :=
  { srv with waiters := srv.waiters.erase waiter }

/-- `ovsdb_server_create_lock__()`. -/
def createLock (srv : LockServer σ) (lockName : CString) : LockServer σ :=
  if lockName ∈ srv.locks.map OvsdbLock.name then srv
  else { srv with locks := ⟨lockName, []⟩ :: srv.locks }

/-- The waiters of a lock. -/
def queue (srv : LockServer σ) (lockName : CString) : List (LockWaiter σ) :=
  match srv.locks.find? fun lock => lock.name = lockName with
  | none => []
  | some lock => lock.waiters

/-- A waiter is made, with the list of its lock that it is put into. -/
def insertWaiter (srv : LockServer σ) (waiter : LockWaiter σ) (waiters : List (LockWaiter σ)) :
    LockServer σ :=
  { srv.setWaiters waiter.lockName waiters with
    waiters := srv.waiters ++ [waiter]
    next := srv.next + 1 }

/-- `ovsdb_server_lock()`: the waiter, and the session of the previous owner of a lock that is
stolen. -/
def serverLock (srv : LockServer σ) (session : σ) (lockName : CString) (mode : LockMode) :
    LockWaiter σ × LockServer σ × Option σ :=
  let srv := srv.createLock lockName
  let victim := if mode = .steal then (srv.queue lockName).head? else none
  let waiter : LockWaiter σ := ⟨srv.next, mode, lockName, session⟩
  let waiters := if mode = .steal then waiter :: srv.queue lockName
    else srv.queue lockName ++ [waiter]
  let srv := srv.insertWaiter waiter waiters
  let srv := match victim with
    | none => srv
    | some victim => if victim.mode = .steal then (srv.waiterRemove victim).2 else srv
  (waiter, srv, victim.map LockWaiter.session)

end LockServer

/-! ## Requests -/

/-- `isalpha()` in the C locale. -/
def isalpha (c : UInt8) : Bool :=
  (ch 'a' ≤ c && c ≤ ch 'z') || (ch 'A' ≤ c && c ≤ ch 'Z')

def ovsdbParserIsId (string : CString) : Bool :=
  match string.bytes with
  | [] => false
  | c :: cs => (isalpha c || c = ch '_') && cs.all fun c => isalpha c || isdigit c || c = ch '_'

/-- The requests about locks. -/
inductive LockMethod
  | lock
  | steal
  | unlock
deriving DecidableEq

/-- The name of a method. -/
def LockMethod.name : LockMethod → String
  | .lock => "lock"
  | .steal => "steal"
  | .unlock => "unlock"

/-- The results of requests about locks.  An error is a `"syntax error"` with its details and the
parameters of the request. -/
inductive LockResult
  | locked (locked : Bool)
  | unlocked
  | error (details : String) (json : List Json)

/-- The notifications about locks. -/
inductive LockNotify
  | locked
  | stolen
deriving DecidableEq

/-- What the server sends to sessions. -/
inductive LockMsg
  | reply (result : LockResult)
  | notify (method : LockNotify) (lockName : CString)

/-- `ovsdb_jsonrpc_session_parse_lock_name()`. -/
def parseLockName : List Json → Option CString
  | [.string lockName] => if ovsdbParserIsId lockName then some lockName else none
  | _ => none

/-- The error if the parameters have no name of a lock. -/
def lockNameError (method : LockMethod) (params : List Json) : LockResult :=
  .error (method.name ++ " request params must be <id>") params

namespace LockServer

variable {σ : Type} [DecidableEq σ]

/-- `ovsdb_jsonrpc_session_lock()`. -/
def sessionLock (srv : LockServer σ) (s : σ) (method : LockMethod) (params : List Json)
    (mode : LockMode) : LockServer σ × List (σ × LockMsg) :=
  match parseLockName params with
  | none => (srv, [(s, .reply (lockNameError method params))])
  | some lockName =>
    match srv.getLockWaiter s lockName with
    | some _ =>
      (srv, [(s, .reply (.error ("must issue \"unlock\" before new \"" ++ method.name ++ "\"")
        params))])
    | none =>
      let res := srv.serverLock s lockName mode
      let stolen := res.2.2.toList.map fun victim => (victim, LockMsg.notify .stolen lockName)
      (res.2.1, stolen ++ [(s, .reply (.locked (res.2.1.waiterIsOwner res.1)))])

/-- `ovsdb_jsonrpc_session_unlock__()`. -/
def unlockWaiter (srv : LockServer σ) (waiter : LockWaiter σ) :
    LockServer σ × List (σ × LockMsg) :=
  match srv.waiterLock waiter with
  | none => (srv.waiterDestroy waiter, [])
  | some lock =>
    let res := srv.waiterRemove waiter
    (res.2.waiterDestroy waiter,
      res.1.toList.map fun newOwner => (newOwner, .notify .locked lock.name))

/-- `ovsdb_jsonrpc_session_unlock()`. -/
def sessionUnlock (srv : LockServer σ) (s : σ) (params : List Json) :
    LockServer σ × List (σ × LockMsg) :=
  match parseLockName params with
  | none => (srv, [(s, .reply (lockNameError .unlock params))])
  | some lockName =>
    match srv.getLockWaiter s lockName with
    | none => (srv, [(s, .reply (.error "\"unlock\" without \"lock\" or \"steal\"" params))])
    | some waiter =>
      let res := srv.unlockWaiter waiter
      (res.1, res.2 ++ [(s, .reply .unlocked)])

/-- The loop of `ovsdb_jsonrpc_session_unlock_all()`. -/
def unlockAll : List (LockWaiter σ) → LockServer σ → LockServer σ × List (σ × LockMsg)
  | [], srv => (srv, [])
  | waiter :: waiters, srv =>
    let first := srv.unlockWaiter waiter
    let rest := unlockAll waiters first.1
    (rest.1, first.2 ++ rest.2)

end LockServer

/-- What happens to the server: a session sends a request, or goes away. -/
inductive LockEvent (σ : Type)
  | request (s : σ) (method : LockMethod) (params : List Json)
  | disconnect (s : σ)

/-- The event is a request of the session. -/
def LockEvent.isRequestOf {σ : Type} [DecidableEq σ] (s : σ) : LockEvent σ → Bool
  | .request s' _ _ => s' = s
  | .disconnect _ => false

/-- The order in which `HMAP_FOR_EACH_SAFE` visits waiters. -/
structure HmapOrder (α : Type) where
  order : List α → List α
  perm : ∀ l, (order l).Perm l

/-- One event, and what the server sends. -/
def LockServer.step {σ : Type} [DecidableEq σ] (hmap : HmapOrder (LockWaiter σ))
    (srv : LockServer σ) : LockEvent σ → LockServer σ × List (σ × LockMsg)
  | .request s .lock params => srv.sessionLock s .lock params .wait
  | .request s .steal params => srv.sessionLock s .steal params .steal
  | .request s .unlock params => srv.sessionUnlock s params
  | .disconnect s =>
    unlockAll (hmap.order (srv.waiters.filter fun waiter => waiter.session = s)) srv

/-- Which session believes to own which lock. -/
abbrev LockBelief (σ : Type) := σ → CString → Bool

section

variable {σ : Type} [DecidableEq σ]

/-- A session changes its mind about a lock. -/
def LockBelief.set (belief : LockBelief σ) (s : σ) (lockName : CString) (owns : Bool) :
    LockBelief σ :=
  fun s' name => if s' = s ∧ name = lockName then owns else belief s' name

/-- A session gets a message.  A reply is for the request that the session has just sent. -/
def LockEvent.receive (event : LockEvent σ) (belief : LockBelief σ) :
    σ × LockMsg → LockBelief σ
  | (s, .notify .locked lockName) => belief.set s lockName true
  | (s, .notify .stolen lockName) => belief.set s lockName false
  | (s, .reply (.locked locked)) =>
    match event with
    | .request _ _ [.string lockName] => belief.set s lockName locked
    | _ => belief
  | (s, .reply .unlocked) =>
    match event with
    | .request _ _ [.string lockName] => belief.set s lockName false
    | _ => belief
  | (_, .reply (.error _ _)) => belief

/-- The sessions replay what they get.  One that goes away owns nothing any more. -/
def LockEvent.replay (event : LockEvent σ) (msgs : List (σ × LockMsg)) (belief : LockBelief σ) :
    LockBelief σ :=
  let belief := msgs.foldl event.receive belief
  match event with
  | .request _ _ _ => belief
  | .disconnect s => fun s' name => if s' = s then false else belief s' name

/-- The states that sequences of events lead to. -/
inductive LockRun (hmap : HmapOrder (LockWaiter σ)) : LockServer σ → LockBelief σ → Prop
  | init : LockRun hmap .init fun _ _ => false
  | step {srv : LockServer σ} {belief : LockBelief σ} (event : LockEvent σ)
      (h : LockRun hmap srv belief) :
      LockRun hmap (srv.step hmap event).1 (event.replay (srv.step hmap event).2 belief)

end

end OVS
