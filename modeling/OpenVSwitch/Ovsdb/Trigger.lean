import OpenVSwitch.Ovsdb.ExecutionView

/-!
# Triggers

`ovsdb/trigger.c`: a request that cannot be completed yet, because of a `wait` operation, is kept
and tried again when the database has changed or its time is over.

**The main result** is `triggers_quiet`.  Along every run, when `ovsdb_trigger_run()` leaves
`run_triggers` false, each trigger that is left would block if it were tried now: no change of the
database has been missed.  It also has a deadline that is yet to come, provided that no wait of its
request may wait longer than one before it.

**Without the condition** the deadline may be over.  `ovsdb_execute_wait()` lets every wait lower
the deadline of its request, also one that is satisfied.  In `trigger_spins` a wait that is
satisfied and must not block is followed by one that blocks: the trigger has a deadline in the past,
and `ovsdb_trigger_wait()` does not let the server sleep.

**UUIDs.**  `ovsdb_execute_insert()` draws new UUIDs whenever a request is tried, so that a request
is a function of them, and the run chooses them at each try.
-/

namespace OVS

namespace Ovsdb

open List Option

variable {n : ℕ} {flag : Bool}

/-! ## The functions -/

/-- A request, which depends on the UUIDs of the rows that it inserts. -/
abbrev Request (n : ℕ) := (ℕ → Uuid) → Option (List (Operation n))

/-- `struct ovsdb_trigger`, without its result, and the UUIDs of its last try. -/
structure Trigger (n : ℕ) where
  request : Request n
  created : ℤ
  timeoutMsec : ℤ
  uuids : ℕ → Uuid

/-- The request as it was tried last. -/
def Trigger.tried (t : Trigger n) : Option (List (Operation n)) := t.request t.uuids

/-- What is unspecified when a request is tried. -/
structure Attempt (n : ℕ) extends Choice n where
  uuids : ℕ → Uuid

/-- The members of `struct ovsdb` that concern triggers. -/
structure TriggerState (n : ℕ) where
  db : Db n
  triggers : List (Trigger n)
  runTriggers : Bool

section

variable (σ : Schema n) (now : ℤ)

/-- `ovsdb_trigger_try()`: what is left of the trigger, and the new `run_triggers`. -/
def triggerTry (ch : Attempt n) (t : Trigger n) (db : Db n) (flag : Bool) :
    Option (Option (Trigger n) × Db n × Bool) :=
  match execute σ ch.toChoice (now - t.created) (t.request ch.uuids) db with
  | none => none
  | some (.done runTriggers, db) => some (none, db, flag || runTriggers)
  | some (.blocked timeoutMsec, db) =>
    some (some { t with timeoutMsec, uuids := ch.uuids }, db, flag)

/-- The loop of `ovsdb_trigger_run()`. -/
def triggerLoop (runTriggers : Bool) (ch : ℕ → Attempt n) :
    List (Trigger n) → Db n → Bool → Option (List (Trigger n) × Db n × Bool)
  | [], db, flag => some ([], db, flag)
  | t :: ts, db, flag =>
    match
      if runTriggers || t.timeoutMsec ≤ now - t.created then
        triggerTry σ now (ch ts.length) t db flag
      else some (some t, db, flag) with
    | none => none
    | some (kept, db, flag) =>
      (triggerLoop runTriggers ch ts db flag).map fun rest =>
        (kept.toList ++ rest.1, rest.2)

def triggerRun (ch : ℕ → Attempt n) (S : TriggerState n) : Option (TriggerState n) :=
  (triggerLoop σ now S.runTriggers ch S.triggers S.db false).map fun res =>
    ⟨res.2.1, res.1, res.2.2⟩

def triggerInit (ch : Attempt n) (request : Request n) (S : TriggerState n) :
    Option (TriggerState n) :=
  (triggerTry σ now ch ⟨request, now, llongMax, ch.uuids⟩ S.db S.runTriggers).map fun res =>
    ⟨res.2.1, S.triggers ++ res.1.toList, res.2.2⟩

/-- What happens to a database with triggers. -/
inductive TriggerEvent (n : ℕ) where
  | init (request : Request n) (ch : Attempt n)
  | run (ch : ℕ → Attempt n)
  /-- A transaction that no trigger makes. -/
  | commit (ops : List (Op n)) (ch : Choice n)
  /-- `ovsdb_trigger_destroy()` of a trigger that has not been completed. -/
  | destroy (i : ℕ)

/-- One event.  There is no result if an assertion fails. -/
def TriggerState.step (S : TriggerState n) : TriggerEvent n → Option (TriggerState n)
  | .init request ch => triggerInit σ now ch request S
  | .run ch => triggerRun σ now ch S
  | .commit ops ch =>
    match Prog.each (Op.run ch.gen) ops S.db with
    | (.error _, _) => none
    | (.ok _, s) =>
      (commitTxn σ ch s).map fun res => { S with
        db := res.2
        runTriggers := S.runTriggers || res.1 }
  | .destroy i => some { S with triggers := S.triggers.eraseIdx i }

end

/-- The runs of a database with triggers, and the time of the last event. -/
inductive TriggerRun (σ : Schema n) : TriggerState n → ℤ → Prop
  | start {db : Db n} (h : Reachable σ (fun _ => True) db) : TriggerRun σ ⟨db, [], false⟩ 0
  | step {S S' : TriggerState n} {clock now : ℤ} {ev : TriggerEvent n} (h : TriggerRun σ S clock)
      (hle : clock ≤ now) (hmax : now < llongMax) (hev : S.step σ now ev = some S') :
      TriggerRun σ S' now

/-! ## Executing a request -/

section Execute

variable {σ : Schema n} {c c' s s' : Db n} {ch ch' : Choice n} {elapsed elapsed' : ℤ}
  {request : Option (List (Operation n))}

section

variable (hc : Consistent σ (fun _ _ _ => True) c)
include hc

/-- A commit keeps the database consistent, and sets `run_triggers` if it changes what operations
see. -/
lemma commitTxn_spec (hs : Begun σ (fun _ _ _ => True) c s) {res : Bool × Db n}
    (hres : commitTxn σ ch s = some res) :
    Consistent σ (fun _ _ _ => True) res.2 ∧ (res.1 = false → res.2.view = c.view) := by
  rcases commitObserve_spec hc hs hres with ⟨-, hrestored⟩ | ⟨s0, hp, hf, hseen⟩
  · exact ⟨hc.restored hrestored, fun _ => hrestored.view hc.committed⟩
  · refine ⟨hc.finished hp hf, fun hfalse => ?_⟩
    rw [hfalse] at hseen
    cases hseen

/-- Aborting a transaction returns its result and restores the database. -/
lemma abortTxn_spec (hs : Begun σ (fun _ _ _ => True) c s) (ch : Choice n) (res : ExecResult) :
    ∃ s', abortTxn ch res s = some (res, s') ∧ Restored c s' := by
  obtain ⟨_, s', hrun, hrestored⟩ :=
    (txnAbort_spec hc.committed (ch.order 6)).returns hs.early.1
  refine ⟨s', ?_, hrestored⟩
  unfold abortTxn
  rw [hrun]

/-- **A request keeps the database consistent**, and sets `run_triggers` if it changes what
operations see. -/
lemma execute_spec {res : ExecResult × Db n} (hres : execute σ ch elapsed request c = some res) :
    Consistent σ (fun _ _ _ => True) res.2 ∧ (res.1 ≠ .done true → res.2.view = c.view) := by
  have hbegun : Begun σ (fun _ _ _ => True) c c := .refl hc.committed hc.columns
  unfold execute at hres
  split at hres
  · cases hres
    exact ⟨hc, fun _ => rfl⟩
  · next ops =>
    -- an abort leaves the database as it was
    have habort : ∀ {s : Db n} (r : ExecResult), Begun σ (fun _ _ _ => True) c s →
        abortTxn ch r s = some res → Consistent σ (fun _ _ _ => True) res.2 ∧
          (res.1 ≠ .done true → res.2.view = c.view) := by
      intro s r hs hr
      obtain ⟨s', hs', hrestored⟩ := abortTxn_spec hc hs ch r
      rw [hs'] at hr
      cases hr
      exact ⟨hc.restored hrestored, fun _ => hrestored.view hc.committed⟩
    split at hres
    · cases hres
    · next s hops =>
      obtain ⟨r, hr, rfl⟩ := map_eq_some_iff.1 hres
      obtain ⟨hcons, hview⟩ := commitTxn_spec hc (executeOps_begun hc.committed hbegun hops) hr
      refine ⟨hcons, fun hne => hview ?_⟩
      cases hr1 : r.1 with
      | false => rfl
      | true => exact absurd (congrArg ExecResult.done hr1) hne
    · next s hops => exact habort _ (executeOps_begun hc.committed hbegun hops) hres
    · next s hops => exact habort _ (executeOps_begun hc.committed hbegun hops) hres

/-- A request blocks exactly when one of its operations does. -/
lemma execute_blocked_iff {timeout : ℤ} :
    (∃ s, execute σ ch elapsed request c = some (.blocked timeout, s)) ↔
      ∃ ops t, request = some ops ∧
        executeOps ch.gen elapsed ops llongMax c = some (.blocked, timeout, t) := by
  have hbegun : Begun σ (fun _ _ _ => True) c c := .refl hc.committed hc.columns
  constructor
  · rintro ⟨s, hs⟩
    unfold execute at hs
    split at hs
    · cases hs
    · next ops =>
      split at hs
      · cases hs
      · obtain ⟨r, -, hr⟩ := map_eq_some_iff.1 hs
        cases hr
      · next t hops =>
        obtain ⟨s', hs', -⟩ := abortTxn_spec hc (executeOps_begun hc.committed hbegun hops) ch
          (.done false)
        rw [hs'] at hs
        cases hs
      · next timeout' t hops =>
        obtain ⟨s', hs', -⟩ := abortTxn_spec hc (executeOps_begun hc.committed hbegun hops) ch
          (.blocked timeout')
        rw [hs'] at hs
        cases hs
        exact ⟨ops, t, rfl, hops⟩
  · rintro ⟨ops, t, rfl, hops⟩
    obtain ⟨s', hs', -⟩ := abortTxn_spec hc (executeOps_begun hc.committed hbegun hops) ch
      (.blocked timeout)
    refine ⟨s', ?_⟩
    simp only [execute, hops, hs']

/-- What blocks on one of two databases with one view blocks on the other. -/
lemma execute_blocked_congr (hc' : Consistent σ (fun _ _ _ => True) c') (hview : c'.view = c.view)
    {timeout : ℤ} (h : ∃ s, execute σ ch elapsed request c = some (.blocked timeout, s))
    (hlt : elapsed' < timeout ∨ elapsed' ≤ elapsed) :
    ∃ s, execute σ ch' elapsed' request c' = some (.blocked timeout, s) := by
  rw [execute_blocked_iff hc] at h
  rw [execute_blocked_iff hc']
  obtain ⟨ops, t, rfl, hops⟩ := h
  obtain ⟨t', ht'⟩ := executeOps_blocked_congr hc.committed
    ⟨.refl hc.committed hc.columns, rfl⟩ hc'.committed ⟨.refl hc'.committed hc'.columns, hview⟩
    ch'.gen hops hlt
  exact ⟨ops, t', rfl, ht'⟩

end

end Execute

/-! ## Triggers that wait -/

section Waiting

variable {σ : Schema n} {c c' : Db n} {t : Trigger n} {now : ℤ}

/-- A trigger that has been tried at the time `tried`, and would block now. -/
def Blocked (σ : Schema n) (db : Db n) (tried : ℤ) (t : Trigger n) : Prop :=
  ∀ ch elapsed, elapsed < t.timeoutMsec ∨ elapsed ≤ tried - t.created →
    ∃ s, execute σ ch elapsed t.tried db = some (.blocked t.timeoutMsec, s)

/-- Whether a request blocks depends on what it can see of the database. -/
lemma Blocked.congr (h : Blocked σ c now t) (hc : Consistent σ (fun _ _ _ => True) c)
    (hc' : Consistent σ (fun _ _ _ => True) c') (hview : c'.view = c.view) :
    Blocked σ c' now t := by
  intro ch elapsed hlt
  exact execute_blocked_congr hc hc' hview (h ch elapsed hlt) (.inr le_rfl)

/-- The deadline is yet to come. -/
def Trigger.Ahead (now : ℤ) (t : Trigger n) : Prop :=
  (∀ ops, t.tried = some ops → TimeoutsDescend ops) → now < t.created + t.timeoutMsec

/-- What `ovsdb_trigger_try()` does. -/
lemma triggerTry_spec (hc : Consistent σ (fun _ _ _ => True) c) (hmax : now - t.created < llongMax)
    {ch : Attempt n} {res : Option (Trigger n) × Db n × Bool}
    (hres : triggerTry σ now ch t c flag = some res) : Consistent σ (fun _ _ _ => True) res.2.1 ∧
      (res.2.2 = false → flag = false ∧ res.2.1.view = c.view) ∧
      ∀ t' ∈ res.1, t'.created = t.created ∧ Blocked σ res.2.1 now t' ∧ t'.Ahead now := by
  unfold triggerTry at hres
  split at hres
  · cases hres
  · next run s hexec =>
    cases hres
    obtain ⟨hcons, hview⟩ := execute_spec hc hexec
    refine ⟨hcons, fun hflag => ?_, nofun⟩
    rw [Bool.or_eq_false_iff] at hflag
    refine ⟨hflag.1, hview ?_⟩
    rw [hflag.2]
    exact nofun
  · next timeout s hexec =>
    cases hres
    obtain ⟨hcons, hview⟩ := execute_spec hc hexec
    have hview := hview nofun
    refine ⟨hcons, fun hflag => ⟨hflag, hview⟩, ?_⟩
    rintro _ ⟨⟩
    refine ⟨rfl, fun ch' elapsed hlt => execute_blocked_congr hc hcons hview ⟨s, hexec⟩ hlt, ?_⟩
    intro hdesc
    obtain ⟨ops, t', hops, hblocked⟩ := (execute_blocked_iff hc).1 ⟨s, hexec⟩
    have := elapsed_lt_of_blocked (hdesc ops hops) (.inl hmax) hblocked
    show now < t.created + timeout
    omega

/-- What is known about a trigger after `ovsdb_trigger_run()`. -/
structure Quiet (σ : Schema n) (db : Db n) (now : ℤ) (t : Trigger n) : Prop where
  blocked : ∃ tried, Blocked σ db tried t
  blocks : ∀ ch, ∃ s, execute σ ch (now - t.created) t.tried db = some (.blocked t.timeoutMsec, s)
  ahead : t.Ahead now

lemma Quiet.congr (h : Quiet σ c now t) (hc : Consistent σ (fun _ _ _ => True) c)
    (hc' : Consistent σ (fun _ _ _ => True) c') (hview : c'.view = c.view) :
    Quiet σ c' now t where
  blocked := by
    obtain ⟨tried, hblocked⟩ := h.blocked
    exact ⟨tried, hblocked.congr hc hc' hview⟩
  blocks ch := execute_blocked_congr hc hc' hview (h.blocks ch) (.inr le_rfl)
  ahead := h.ahead

/-- **The loop of `ovsdb_trigger_run()`** leaves triggers that would block, unless one of those that
it completes changes the database. -/
lemma triggerLoop_spec {runTriggers : Bool} {ts : List (Trigger n)}
    (hc : Consistent σ (fun _ _ _ => True) c) (hmax : now < llongMax)
    (hcreated : ∀ t ∈ ts, 0 ≤ t.created)
    (hts : runTriggers = false → flag = false → ∀ t ∈ ts, ∃ tried, Blocked σ c tried t)
    {ch : ℕ → Attempt n} {res : List (Trigger n) × Db n × Bool}
    (hres : triggerLoop σ now runTriggers ch ts c flag = some res) :
    Consistent σ (fun _ _ _ => True) res.2.1 ∧ (∀ t ∈ res.1, 0 ≤ t.created) ∧
      (res.2.2 = false → flag = false ∧ res.2.1.view = c.view ∧
        ∀ t ∈ res.1, Quiet σ res.2.1 now t) := by
  induction ts generalizing c flag res with
  | nil =>
    cases hres
    exact ⟨hc, nofun, fun hflag => ⟨hflag, rfl, nofun⟩⟩
  | cons t ts ih =>
    have hpos := hcreated t mem_cons_self
    unfold triggerLoop at hres
    split at hres
    · cases hres
    · next kept c1 flag1 htry =>
      -- whether the trigger is tried or not, it is quiet unless the flag is set
      obtain ⟨hc1, hflag1, hkept⟩ : Consistent σ (fun _ _ _ => True) c1 ∧
          (flag1 = false → flag = false ∧ c1.view = c.view) ∧
          ∀ t' ∈ kept, t'.created = t.created ∧ (flag1 = false → Quiet σ c1 now t') := by
        split at htry
        · obtain ⟨hc1, hflag1, hkept⟩ := triggerTry_spec hc (by omega) htry
          refine ⟨hc1, hflag1, fun t' ht' => ?_⟩
          obtain ⟨hcreated', hblocked, hahead⟩ := hkept t' ht'
          exact ⟨hcreated', fun _ => ⟨⟨now, hblocked⟩, fun ch => hblocked ch _ (.inr le_rfl),
            hahead⟩⟩
        · next hnot =>
          cases htry
          rw [Bool.not_eq_true, Bool.or_eq_false_iff, decide_eq_false_iff_not] at hnot
          refine ⟨hc, fun hflag => ⟨hflag, rfl⟩, ?_⟩
          rintro _ ⟨⟩
          refine ⟨rfl, fun hflag => ?_⟩
          obtain ⟨tried, hblocked⟩ := hts hnot.1 hflag t mem_cons_self
          exact ⟨⟨tried, hblocked⟩, fun ch => hblocked ch _ (.inl (by omega)), fun _ => by omega⟩
      obtain ⟨rest, hrest, rfl⟩ := map_eq_some_iff.1 hres
      have hts1 : runTriggers = false → flag1 = false →
          ∀ t ∈ ts, ∃ tried, Blocked σ c1 tried t := by
        intro hrun hflag t' ht'
        obtain ⟨hflag, hview⟩ := hflag1 hflag
        obtain ⟨tried, hblocked⟩ := hts hrun hflag t' (mem_cons_of_mem _ ht')
        exact ⟨tried, hblocked.congr hc hc1 hview⟩
      obtain ⟨hc2, hcreated2, hquiet⟩ := ih hc1 (fun t' ht' => hcreated t'
        (mem_cons_of_mem _ ht')) hts1 hrest
      refine ⟨hc2, fun t' ht' => ?_, fun hflag2 => ?_⟩
      · rcases mem_append.1 ht' with ht' | ht'
        · rw [(hkept t' (mem_toList.1 ht')).1]
          exact hpos
        · exact hcreated2 t' ht'
      · obtain ⟨hflag', hview2, hquiet⟩ := hquiet hflag2
        obtain ⟨hflag, hview1⟩ := hflag1 hflag'
        refine ⟨hflag, hview2.trans hview1, fun t' ht' => ?_⟩
        rcases mem_append.1 ht' with ht' | ht'
        · exact ((hkept t' (mem_toList.1 ht')).2 hflag').congr hc1 hc2 hview2
        · exact hquiet t' ht'

end Waiting

/-! ## Runs -/

section Runs

variable {σ : Schema n} {S S' : TriggerState n} {clock now : ℤ}

/-- What holds along every run. -/
structure TriggersOk (σ : Schema n) (S : TriggerState n) : Prop where
  consistent : Consistent σ (fun _ _ _ => True) S.db
  created : ∀ t ∈ S.triggers, 0 ≤ t.created
  blocked : S.runTriggers = false → ∀ t ∈ S.triggers, ∃ tried, Blocked σ S.db tried t

/-- After a pass that asks for no other one, no request that is left could be answered now. -/
lemma TriggersOk.run (h : TriggersOk σ S) (hmax : now < llongMax) {ch : ℕ → Attempt n}
    (hrun : triggerRun σ now ch S = some S') :
    TriggersOk σ S' ∧ (S'.runTriggers = false → ∀ t ∈ S'.triggers, Quiet σ S'.db now t) := by
  obtain ⟨res, hres, rfl⟩ := map_eq_some_iff.1 hrun
  obtain ⟨hc, hcreated, hquiet⟩ := triggerLoop_spec h.consistent hmax h.created
    (fun hflag _ => h.blocked hflag) hres
  exact ⟨⟨hc, hcreated, fun hflag t ht => ((hquiet hflag).2.2 t ht).blocked⟩,
    fun hflag => (hquiet hflag).2.2⟩

/-- A new request is tried at once and waits only if it blocks. -/
lemma TriggersOk.init (h : TriggersOk σ S) (hnow : 0 ≤ now)
    {ch : Attempt n} {request : Request n}
    (hinit : triggerInit σ now ch request S = some S') : TriggersOk σ S' := by
  obtain ⟨res, hres, rfl⟩ := map_eq_some_iff.1 hinit
  obtain ⟨hc, hflag, hkept⟩ := triggerTry_spec h.consistent
    (by simp [llongMax]) hres
  refine ⟨hc, fun t ht => ?_, fun hfalse t ht => ?_⟩
  · rcases mem_append.1 ht with ht | ht
    · exact h.created t ht
    · rw [(hkept t (mem_toList.1 ht)).1]
      exact hnow
  · rcases mem_append.1 ht with ht | ht
    · obtain ⟨hfalse, hview⟩ := hflag hfalse
      obtain ⟨tried, hblocked⟩ := h.blocked hfalse t ht
      exact ⟨tried, hblocked.congr h.consistent hc hview⟩
    · exact ⟨now, (hkept t (mem_toList.1 ht)).2.1⟩

/-- Every event keeps what is known of the waiting requests. -/
lemma TriggersOk.step (h : TriggersOk σ S) (hnow : 0 ≤ now) (hmax : now < llongMax)
    {ev : TriggerEvent n} (hev : S.step σ now ev = some S') : TriggersOk σ S' := by
  cases ev with
  | init request ch => exact h.init hnow hev
  | run ch => exact (h.run hmax hev).1
  | commit ops ch =>
    simp only [TriggerState.step] at hev
    split at hev
    · cases hev
    · next s hops =>
      obtain ⟨res, hres, rfl⟩ := map_eq_some_iff.1 hev
      have hbegun := (ops_spec h.consistent.committed fun op _ => op.writes_true).ok
        (.refl h.consistent.committed h.consistent.columns) hops
      obtain ⟨hc, hview⟩ := commitTxn_spec h.consistent hbegun hres
      refine ⟨hc, h.created, fun hflag t ht => ?_⟩
      obtain ⟨hflag, hchanged⟩ := Bool.or_eq_false_iff.1 hflag
      obtain ⟨tried, hblocked⟩ := h.blocked hflag t ht
      exact ⟨tried, hblocked.congr h.consistent hc (hview hchanged)⟩
  | destroy i =>
    cases hev
    exact ⟨h.consistent, fun t ht => h.created t (mem_of_mem_eraseIdx ht),
      fun hflag t ht => h.blocked hflag t (mem_of_mem_eraseIdx ht)⟩

/-- So it holds after any run, at any time of the clock. -/
lemma TriggerRun.ok (h : TriggerRun σ S clock) : 0 ≤ clock ∧ TriggersOk σ S := by
  induction h with
  | start h => exact ⟨le_refl 0, h.consistent_true, nofun, fun _ => nofun⟩
  | step _ hle hmax hev ih => exact ⟨ih.1.trans hle, ih.2.step (ih.1.trans hle) hmax hev⟩

end Runs

/-! ## Examples of requests -/

/-- A wait until a table is empty, or until it is not. -/
def waitEmpty (timeout : Option ℤ) (untilEqual : Bool) : Operation 2 :=
  .wait ⟨timeout, ⟨0, Nat.two_pos⟩, fun _ => true, [], untilEqual, []⟩

/-- Nothing is chosen in an unusual way, and the UUIDs have the numbers from `first` on. -/
def plainChoice (first : ℕ) : Attempt 2 :=
  ⟨⟨numberedByCell, fun _ _ => 0, none⟩, fun i => numberedByCell (first + i)⟩

/-- An empty database, after these operations have been requested at the time 0. -/
def requested (ops : List (Operation 2)) : Option (TriggerState 2) :=
  (TriggerState.mk (Db.empty 2) [] false).step (twoTables false) 0
    (.init (fun _ => some ops) (plainChoice 0))

/-- The same at the time `now`, after `ovsdb_trigger_run()`. -/
def requestedAndRun (now : ℤ) (ops : List (Operation 2)) : Option (TriggerState 2) :=
  (requested ops).bind (triggerRun (twoTables false) now fun _ => plainChoice 0)

/-- A satisfied wait that may last longer is followed by one that blocks. -/
def descending : List (Operation 2) := [waitEmpty (some 20) true, waitEmpty (some 10) false]

/-- A satisfied wait that must not block is followed by one that blocks. -/
def ascending : List (Operation 2) := [waitEmpty (some 0) true, waitEmpty none false]

/-- The times of a trigger, with the timeouts in its request. -/
structure Deadline where
  created : ℤ
  timeoutMsec : ℤ
  timeouts : Option (List (Option ℤ))
deriving DecidableEq

/-- The times of a trigger. -/
def Trigger.deadline (t : Trigger n) : Deadline :=
  ⟨t.created, t.timeoutMsec, t.tried.map (·.filterMap Operation.timeout?)⟩

/-- The times of the triggers that are left. -/
def TriggerState.deadlines (S : TriggerState n) : Bool × List Deadline :=
  (S.runTriggers, S.triggers.map Trigger.deadline)

lemma deadlines_descending : (requestedAndRun 5 descending).map TriggerState.deadlines =
    some (false, [⟨0, 10, some [some 20, some 10]⟩]) := by
  decide +kernel

lemma deadlines_ascending : (requestedAndRun 0 ascending).map TriggerState.deadlines =
    some (false, [⟨0, 0, some [some 0, none]⟩]) := by
  decide +kernel

/-- One trigger is left. -/
lemma mem_deadlines {S : TriggerState n} {d : Deadline} (h : S.deadlines = (flag, [d])) :
    S.runTriggers = flag ∧ (∃ t, t ∈ S.triggers) ∧ ∀ t ∈ S.triggers, t.deadline = d := by
  rw [Prod.mk.injEq] at h
  obtain ⟨t, htriggers, ht⟩ := map_eq_singleton_iff.1 h.2
  rw [htriggers]
  exact ⟨h.1, ⟨t, mem_singleton_self t⟩, fun t' ht' => by rw [mem_singleton.1 ht', ht]⟩

/-- The run that leads to such a state. -/
lemma requestedAndRun_run {now : ℤ} {ops : List (Operation 2)} {S' : TriggerState 2}
    (h : requestedAndRun now ops = some S') :
    ∃ S, TriggerRun (twoTables false) S 0 ∧
      triggerRun (twoTables false) now (fun _ => plainChoice 0) S = some S' := by
  obtain ⟨S, hS, hrun⟩ := bind_eq_some_iff.1 h
  exact ⟨S, .step (.start .empty) le_rfl (by decide) hS, hrun⟩

/-! ## No wake-up is lost -/

/-- **No wake-up is lost, and no deadline is over.**  When `ovsdb_trigger_run()` leaves
`run_triggers` false, every trigger that is left would block if it were tried now, with the UUIDs of
its last try.  Its deadline is yet to come if the timeouts of its request descend. -/
theorem triggers_quiet {σ : Schema n} {S S' : TriggerState n} {clock now : ℤ}
    (h : TriggerRun σ S clock) (hmax : now < llongMax)
    {ch : ℕ → Attempt n} (hrun : triggerRun σ now ch S = some S')
    (hflag : S'.runTriggers = false) :
    ∀ t ∈ S'.triggers, (∀ ch, ∃ timeoutMsec s,
        execute σ ch (now - t.created) t.tried S'.db = some (.blocked timeoutMsec, s)) ∧
      ((∀ ops, t.tried = some ops → TimeoutsDescend ops) →
        now < t.created + t.timeoutMsec) := by
  intro t ht
  have hquiet := (h.ok.2.run hmax hrun).2 hflag t ht
  exact ⟨fun ch => ⟨t.timeoutMsec, hquiet.blocks ch⟩, hquiet.ahead⟩

theorem triggers_quiet_descending :
    ∃ S', requestedAndRun 5 descending = some S' ∧ S'.triggers ≠ [] ∧ ∀ t ∈ S'.triggers,
      (∀ ch, ∃ timeoutMsec s, execute (twoTables false) ch (5 - t.created) t.tried S'.db =
        some (.blocked timeoutMsec, s)) ∧ 5 < t.created + t.timeoutMsec := by
  obtain ⟨S', hS', hdeadlines⟩ := Option.map_eq_some_iff.1 deadlines_descending
  obtain ⟨S, hreach, hrun⟩ := requestedAndRun_run hS'
  obtain ⟨hflag, ⟨t0, ht0⟩, hall⟩ := mem_deadlines hdeadlines
  refine ⟨S', hS', ne_nil_of_mem ht0, fun t ht => ?_⟩
  obtain ⟨hblocks, hahead⟩ := triggers_quiet hreach (by decide) hrun hflag t ht
  refine ⟨hblocks, hahead fun ops hops => ?_⟩
  have htimeouts := congrArg Deadline.timeouts (hall t ht)
  simp only [Trigger.deadline, hops, Option.map_some, Option.some.injEq] at htimeouts
  rw [TimeoutsDescend, htimeouts]
  simp

/-- **Without the condition, a deadline may be over**: the trigger that is left has been due since
it was created. -/
theorem trigger_spins :
    ∃ (S S' : TriggerState 2) (t : Trigger 2), TriggerRun (twoTables false) S 0 ∧
      triggerRun (twoTables false) 0 (fun _ => plainChoice 0) S = some S' ∧
      S'.runTriggers = false ∧ t ∈ S'.triggers ∧ t.created + t.timeoutMsec ≤ 0 := by
  obtain ⟨S', hS', hdeadlines⟩ := Option.map_eq_some_iff.1 deadlines_ascending
  obtain ⟨S, hreach, hrun⟩ := requestedAndRun_run hS'
  obtain ⟨hflag, ⟨t, ht⟩, hall⟩ := mem_deadlines hdeadlines
  have hdeadline := hall t ht
  rw [Trigger.deadline, Deadline.mk.injEq] at hdeadline
  exact ⟨S, S', t, hreach, hrun, hflag, ht, by omega⟩

/-- **Waiting transactions leave the database consistent**, in whatever order they are made,
retried, given up and overtaken by others. -/
theorem triggers_consistent {σ : Schema n} {S : TriggerState n} {clock : ℤ}
    (h : TriggerRun σ S clock) : Consistent σ (fun _ _ _ => True) S.db :=
  h.ok.2.consistent

/-- The first of two tables. -/
def root : Fin 2 := ⟨0, Nat.two_pos⟩

/-- The second of two tables. -/
def nonRoot : Fin 2 := ⟨1, Nat.one_lt_two⟩

/-- A schema with two tables.  Rows of the first one, which is in the root set, have strong
references to rows of the second, which have weak references to rows of the first.  The first
table has an index. -/
def linkedTables : Schema 2 where
  table t :=
    { columns := standardColumns 2 ++
        [⟨2, { key :=
                 { type := .uuid
                   ref := some (if t = root then (nonRoot, .strong) else (root, .weak)) }
               nMin := 0 }, true⟩]
      isRoot := t = root
      maxRows := 2
      indexes := if t = root then
        [[⟨2, { key := { type := .uuid, ref := some (nonRoot, .strong) }, nMin := 0 }, true⟩]]
        else []
      index_nodup := by
        revert t
        decide
      standard := by
        revert t
        decide
      version_ephemeral := by
        revert t
        decide
      indexed := by
        revert t
        simp [standardColumns] }
  strong_persistent := by decide

/-- A row of each table that refer to each other. -/
def linkedRows (uuids : ℕ → Uuid) : List (Key 2 × (ℕ → Datum)) :=
  [((root, uuids 0), oneElement (.uuid (uuids 1), none)),
    ((nonRoot, uuids 1), oneElement (.uuid (uuids 0), none))]

/-- A request for two rows that waits until there are others, which are then committed.  It is tried
first with the UUIDs 5 and 6, and then with 1 and 2. -/
def linkedRun : Option (TriggerState 2) :=
  (((TriggerState.mk (Db.empty 2) [] false).step linkedTables 0
    (.init (fun uuids => some (waitEmpty none false ::
      (linkedRows uuids).map fun r => .insert r.1 r.2)) (plainChoice 5))).bind fun S =>
  S.step linkedTables 1 (.commit ((linkedRows (plainChoice 3).uuids).map fun r => .insert r.1 r.2)
    (plainChoice 0).toChoice)).bind fun S =>
  S.step linkedTables 2 (.run fun _ => plainChoice 1)

/-- How many triggers and rows there are, how many rows in the index, how many weak references, and
how many strong references to a row. -/
def TriggerState.counts (S : TriggerState 2) : List ℤ :=
  [S.triggers.length, S.db.rows.keys.length, (S.db.indexes root 0).length, S.db.weakRefs.length,
    S.db.refs (nonRoot, numbered 2)]

theorem triggers_consistent_linked :
    ∃ S, linkedRun = some S ∧ S.counts = [0, 4, 2, 2, 1] ∧
      Consistent linkedTables (fun _ _ _ => True) S.db := by
  have hcounts : linkedRun.map TriggerState.counts = some [0, 4, 2, 2, 1] := by
    decide +kernel
  obtain ⟨S, hS, hcounts⟩ := Option.map_eq_some_iff.1 hcounts
  have hrun := hS
  rw [linkedRun] at hrun
  obtain ⟨S₂, hS₂, h₃⟩ := bind_eq_some_iff.1 hrun
  obtain ⟨S₁, h₁, h₂⟩ := bind_eq_some_iff.1 hS₂
  exact ⟨S, hS, hcounts, triggers_consistent (.step (.step (.step (.start .empty) le_rfl
    (by decide) h₁) (by decide) (by decide) h₂) (by decide) (by decide) h₃)⟩

end Ovsdb

end OVS
