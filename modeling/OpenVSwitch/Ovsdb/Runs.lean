import OpenVSwitch.Ovsdb.Check

/-!
# Runs of transactions

A database changes by transactions only, one after the other.  `Reachable` are the databases that
transactions lead to from the empty one, `Consistent` is what holds of all of them.

* `txn_atomic` — a transaction that fails or is aborted leaves no trace.
* `weak_references_linked` — every weak reference leads to a row, which has it in its list.
* `strong_references_counted` — every strong reference leads to a row and is counted, and there is
  no garbage.  This takes two conditions, and `strong_references_miscounted` shows what happens
  without them.
* `table_constraints` — rows of a table differ in each of its indexes, provided that no indexed
  column is given a negative zero; in `indexes_not_unique` one is.
* `modifications_ignored_iff` — a transaction that modifies rows is never taken for one without
  effect, since each of them gets a new version; `noop_changes_version` is one that changes nothing
  else.
-/

namespace OVS

namespace Ovsdb

open List Prog

variable {n : ℕ} {c s s' s₀ : Db n} {gen : ℕ → Uuid} {σ : Schema n}
  {Q : Key n → Column n → Datum → Prop}

/-! ## A whole transaction -/

/-- How a transaction ends that does not fail: it has had no effect, or it is committed. -/
def Succeeded (σ : Schema n) (Q : Key n → Column n → Datum → Prop) (c s : Db n) : Prop :=
  Restored c s ∨ ∃ s₀, Passed σ Q c s₀ ∧ Finished σ c s₀ s

/-- How a transaction ends that fails. -/
def Failed (c : Db n) (st : Stop n) (s : Db n) : Prop := st = .crash ∨ Restored c s

/-- A step that fails is followed by an abort, which restores the database as it was committed. -/
lemma orAbort_spec (hc : Committed c) {P : Db n → Prop} {m : Code n Unit} {R : Unit → Db n → Prop}
    (h : Spec P m R (fun _ => Within c)) (order : ℕ → ℕ) :
    Spec P (orAbort order m) R (Failed c) := by
  intro s hs
  have hout := h s hs
  unfold orAbort
  split
  · next e s' hm =>
      rw [hm] at hout
      have habort : Spec (Within c) (do txnAbort order; fail e : Code n Unit) R (Failed c) :=
        Spec.bind (txnAbort_spec hc order) fun _ => Spec.throw fun _ hs => .inr hs
      exact habort s' hout
  · next hm =>
      cases hres : m s with
      | mk res s' =>
        rw [hres] at hout
        cases res with
        | ok _ => exact hout
        | error st =>
          cases st with
          | crash => exact .inl rfl
          | error e => exact absurd hres (hm e s')

/-- A commit either succeeds with all the checks passed or fails with the database restored. -/
lemma txnCommit_spec (hc : Committed c) (hcol : AllColumns σ Q c.contents) (hQ : Hereditary Q)
    (order : ℕ → ℕ → ℕ) (replica : Option (TxnError n)) :
    Spec (Begun σ Q c)
      (txnCommit σ gen order (replica.elim (pure ()) fail)) (fun _ => Succeeded σ Q c)
      (Failed c) := by
  refine Spec.intro fun s1 hs1 => Spec.bind (Q := fun _ => Begun σ Q c)
    ((forEach_determineChanges hc hcol hs1 (order 0)).post fun _ s hs => hs.1) fun _ =>
    Spec.get_bind fun s2 hs2 => Spec.ite (fun _ => ?_) fun _ => ?_
  · refine ((txnAbort_spec hc (order 6)).pre fun s (hs : s = s2) => ?_).post fun _ s hs => .inl hs
    rw [hs]
    exact hs2.early.1
  · refine Spec.bind (orAbort_spec hc (Spec.bind (txnCheck_spec hc hQ hs2 order)
      fun _ => ?_) (order 6)) fun _ => Spec.intro fun s3 hs3 =>
      (txnFinish_spec hc hs3.within (order 7)).post fun _ s hs => .inr ⟨s3, hs3, hs⟩
    cases replica with
    | none => exact Spec.pure fun _ hs => hs
    | some e => exact Spec.throw fun _ hs => hs.within

variable {ops : List (Op n)} {k : Key n} {row : Row n}

/-- The operations of a transaction keep what holds of a transaction that has begun. -/
lemma ops_spec (hc : Committed c) (hops : ∀ op ∈ ops, op.Writes σ Q) :
    Spec (Begun σ Q c) (Prog.each (Op.run gen) ops) (fun _ => Begun σ Q c)
      (fun st s => st = .crash ∧ Begun σ Q c s) :=
  Spec.each_inv fun op hop => Op.run_spec hc (hops op hop)

/-- **A transaction** has no effect, or is committed after every check has been passed. -/
lemma runTxn_spec (hc : Committed c) (hcol : AllColumns σ Q c.contents) (hQ : Hereditary Q)
    (order : ℕ → ℕ → ℕ) (hops : ∀ op ∈ ops, op.Writes σ Q) (ending : End n) :
    Spec (· = c) (runTxn σ gen order ops ending) (fun _ => Succeeded σ Q c) (Failed c) := by
  have hstart : ∀ s, s = c → Begun σ Q c s := by
    rintro _ rfl
    exact .refl hc hcol
  refine Spec.bind ((ops_spec hc hops).conseq hstart (fun _ _ h => h) fun st s h => .inl h.1)
    fun _ => ?_
  cases ending with
  | abort =>
    exact ((txnAbort_spec hc (order 6)).pre fun s hs => hs.early.1).post fun _ s hs => .inl hs
  | commit replica =>
    cases replica with
    | none => exact txnCommit_spec hc hcol hQ order none
    | some e => exact txnCommit_spec hc hcol hQ order (some e)

/-! ## Invariants of runs -/

/-- What holds of a database between transactions. -/
structure Consistent (σ : Schema n) (Q : Key n → Column n → Datum → Prop) (c : Db n) : Prop where
  committed : Committed c
  columns : AllColumns σ Q c.contents
  weak : WeakLinked σ c
  indexes : Indexes σ c
  maxRows : MaxRows σ c
  sound : Unmixed σ → Sound σ c

/-- The empty database is consistent with every schema. -/
lemma Consistent.empty (σ : Schema n) (Q : Key n → Column n → Datum → Prop) :
    Consistent σ Q (Db.empty n) where
  committed := ⟨fun _ => rfl, rfl, fun _ _ => rfl, fun _ _ => nofun, fun _ => nofun⟩
  columns _ _ := nofun
  weak _ _ _ := nofun
  indexes := by
    refine ⟨fun _ _ _ => nodup_nil, fun t p hp a => ⟨nofun, ?_⟩, fun _ _ => nofun,
      fun _ _ _ _ => nofun⟩
    rintro ⟨k, -, ⟨⟩⟩
  maxRows _ := Nat.zero_le _
  sound _ := ⟨⟨fun _ => rfl, fun _ _ => nofun⟩, fun _ _ h => absurd rfl h⟩

/-- An aborted transaction leaves the contents that were committed. -/
lemma Restored.contents (hc : Committed c) (h : Restored c s) : s.contents = c.contents := by
  funext k
  rw [Db.contents, Db.contents, h.row hc k]

/-- A transaction without effect. -/
lemma Consistent.restored (h : Consistent σ Q c) (hs : Restored c s) : Consistent σ Q s := by
  have hcontents := hs.contents h.committed
  have hrefs : s.refs = c.refs := funext fun k => hs.within.refs_of_none h.committed (hs.txnRows k)
  have hrow := hs.row h.committed
  refine ⟨⟨hs.txnRows, hs.txnTables, hs.within.fresh, fun k a ha => hs.within.row h.committed ha,
    ?_⟩, ?_, ?_, ⟨?_, ?_, ?_, ?_⟩, fun t => ?_, fun hσ => ?_⟩
  · simp only [hs.weakRefs, hs.lookup]
    exact h.committed.weak
  · rw [hcontents]
    exact h.columns
  · intro k a row ha hcell
    have hcell' := Db.row_of_lookup ha
    rw [hcell, hrow k, Db.row_of_lookup (hs.lookup k ▸ ha)] at hcell'
    simp only [hs.lookup, hs.weakRefs] at ha ⊢
    exact h.weak k a row ha hcell'
  · rw [hs.within.indexes]
    exact h.indexes.nodup
  · simp only [hs.within.indexes, hs.lookup]
    exact h.indexes.mem
  · simp only [hrow]
    exact h.indexes.hash
  · simp only [hrow]
    exact h.indexes.unique
  · exact (countRows_congr fun k _ => by rw [hs.lookup k]).trans_le (h.maxRows t)
  · exact (h.sound hσ).congr (fun x => by rw [hs.lookup x]) (fun x => by rw [hcontents]) hrefs
      (by rw [hcontents])

section Finished

variable (h : Consistent σ Q c) (hp : Passed σ Q c s₀) (hf : Finished σ c s₀ s)

include hf in
lemma Finished.contents : s.contents = s₀.contents := by
  funext k
  rw [Db.contents, hf.row k, Option.map_map]
  rfl

include hf in
/-- A row of the finished transaction is the row of its working state with the count of its
references. -/
lemma Finished.row_cases (hrow : s.row k = some row) :
    ∃ row0, s₀.row k = some row0 ∧ row = { row0 with nRefs := s₀.refs k } := by
  rw [hf.row k] at hrow
  obtain ⟨row0, hrow0, rfl⟩ := Option.map_eq_some_iff.1 hrow
  exact ⟨row0, hrow0, rfl⟩

include h hp hf in
/-- The weak references of a row in the transaction have just been assessed.  Another row has kept
its own, and none of its targets is in the transaction: that would have pulled it in. -/
lemma Consistent.weakLinked : WeakLinked σ s := by
  intro k a row ha hcell x hx
  have hrow := Db.row_of_lookup ha
  rw [hcell] at hrow
  obtain ⟨row0, hrow0, rfl⟩ := hf.row_cases hrow
  rw [hf.rows] at ha ⊢
  rw [Db.row_of_lookup ha] at hrow0
  have hmem : ∀ b, s₀.rows.lookup x = some b → ⟨a, b⟩ ∈ s₀.weakRefs → ⟨a, b⟩ ∈ s.weakRefs :=
    fun b hb hw => (hf.weak ⟨a, b⟩).2 ⟨hw, ⟨k, ha⟩, x, hb⟩
  cases hr : s₀.txnRows.lookup k with
  | some r =>
    obtain ⟨col, hcol, hx⟩ := mem_flatMap.1 hx
    rw [← row0.field_of_weak hcol (Column.weak_of_mem hx)] at hx
    obtain ⟨b, hb, -, hlink⟩ := (hp.settled k r hr).assessed a ha row0 hrow0 col hcol x hx
    exact ⟨b, hb, hlink.imp id (hmem b hb)⟩
  | none =>
    have ha' := (hp.within.rows k).untouched hr ▸ ha
    rw [hp.within.heap a (h.committed.cell_lt_next ha')] at hrow0
    obtain ⟨b, hb, hlink⟩ := h.weak k a row0 ha' hrow0 x hx
    rcases hlink with rfl | hlink
    · obtain rfl := (Within.refl h.committed).cell_inj h.committed ha' hb
      exact ⟨b, ha, .inl rfl⟩
    · cases hrx : s₀.txnRows.lookup x with
      | none =>
        have hb' := (hp.within.rows x).untouched hrx ▸ hb
        obtain ⟨added, hadded, -⟩ := hp.within.weak
        refine ⟨b, hb', .inr (hmem b hb' ?_)⟩
        rw [hadded]
        exact mem_append_left _ hlink
      | some rx =>
        obtain ⟨r, hr'⟩ := (hp.settled x rx hrx).sources k ⟨_, hlink, hb, ha'⟩
        rw [hr] at hr'
        cases hr'

include h hp hf in
/-- In a consistent database every index holds the rows of its table, and no two of them clash. -/
lemma Consistent.indexed : Indexes σ s where
  nodup := hf.nodup h.indexes
  mem := hf.mem h.indexes
  hash k row hrow p hp' := by
    obtain ⟨row0, hrow0, rfl⟩ := hf.row_cases hrow
    cases hr : s₀.txnRows.lookup k with
    | some r => exact hp.hash k row0 hrow0 ⟨r, hr⟩ p hp'
    | none =>
      rw [hp.within.row_of_none h.committed hr] at hrow0
      exact h.indexes.hash k row0 hrow0 p hp'
  unique k k' row row' hrow hrow' hkk p hp' hclash := by
    obtain ⟨row0, hrow0, rfl⟩ := hf.row_cases hrow
    obtain ⟨row0', hrow0', rfl⟩ := hf.row_cases hrow'
    exact hp.unique h.indexes k k' row0 row0' hrow0 hrow0' hkk p hp' hclash

include h hp hf in
/-- Where no column mixes strong and weak references every reference count is right. -/
lemma Consistent.counted (hσ : Unmixed σ) : Sound σ s := by
  have hsound := hp.sound hσ (h.sound hσ)
  refine hsound.congr (fun x => by rw [hf.rows]) (fun x => by rw [hf.contents]) ?_
    (by rw [hf.contents])
  funext k
  rw [Db.refs, hf.committed.txnRows k, hf.row k]
  cases hrow : s₀.row k with
  | some row => rfl
  | none =>
    by_contra hne
    refine hsound.exist (fun hzero => hne hzero.symm) ?_
    rw [Db.contents, hrow]
    rfl

include h hp hf in
/-- A transaction that is committed. -/
lemma Consistent.finished : Consistent σ Q s where
  committed := hf.committed
  columns := by
    rw [hf.contents]
    exact hp.columns
  weak := h.weakLinked hp hf
  indexes := h.indexed hp hf
  maxRows t := by
    show (s.rows.keys.filter _).length ≤ _
    rw [hf.rows]
    exact hp.maxRows h.maxRows t
  sound := h.counted hp hf

end Finished

/-- **A transaction keeps the database consistent**, whether it succeeds or fails. -/
lemma Consistent.runTxn (h : Consistent σ Q c) (hQ : Hereditary Q) {order : ℕ → ℕ → ℕ}
    (hops : ∀ op ∈ ops, op.Writes σ Q) {ending : End n} {res : Except (Stop n) Unit}
    (hrun : runTxn σ gen order ops ending c = (res, s)) (hres : res ≠ .error .crash) :
    Consistent σ Q s := by
  have hspec : Prog.Outcome (fun _ => Succeeded σ Q c) (Failed c)
      (Ovsdb.runTxn σ gen order ops ending c) :=
    runTxn_spec h.committed h.columns hQ order hops ending c rfl
  rw [hrun] at hspec
  cases res with
  | ok _ =>
    rcases hspec with hs | ⟨s₀, hp, hf⟩
    · exact h.restored hs
    · exact h.finished hp hf
  | error st =>
    rcases hspec with rfl | hs
    · exact absurd rfl hres
    · exact h.restored hs

/-- The databases that transactions lead to, starting from the empty one, with operations that
meet a condition.  Each transaction may have its own choice of versions and its own order of
iteration, and may be committed or aborted. -/
inductive Reachable (σ : Schema n) (P : Op n → Prop) : Db n → Prop
  | empty : Reachable σ P (Db.empty n)
  | txn {c s : Db n} {gen : ℕ → Uuid} {order : ℕ → ℕ → ℕ} {ops : List (Op n)} {ending : End n}
      {res : Except (Stop n) Unit} (hc : Reachable σ P c) (hops : ∀ op ∈ ops, P op)
      (hrun : runTxn σ gen order ops ending c = (res, s)) (hres : res ≠ .error .crash) :
      Reachable σ P s

/-- **Every database that transactions lead to is consistent.** -/
lemma Reachable.consistent (hQ : Hereditary Q) (h : Reachable σ (Op.Writes σ Q) s) :
    Consistent σ Q s := by
  induction h with
  | empty => exact .empty σ Q
  | txn _ hops hrun hres ih => exact ih.runTxn hQ hops hrun hres

lemma Reachable.mono {P P' : Op n → Prop} (hP : ∀ op, P op → P' op) (h : Reachable σ P s) :
    Reachable σ P' s := by
  induction h with
  | empty => exact .empty
  | txn _ hops hrun hres ih => exact .txn ih (fun op hop => hP op (hops op hop)) hrun hres

lemma Op.writes_true (op : Op n) : op.Writes σ fun _ _ _ => True := by
  cases op with
  | insert k data => exact fun _ _ => trivial
  | modify k writes => exact fun _ _ _ _ _ => trivial
  | delete k => trivial

lemma Reachable.consistent_true (h : Reachable σ (fun _ => True) s) :
    Consistent σ (fun _ _ _ => True) s :=
  (h.mono fun op _ => op.writes_true).consistent fun _ _ _ _ _ _ => trivial

/-! ## Examples of databases -/

/-- The columns `_uuid` and `_version` of every table. -/
def standardColumns (n : ℕ) : List (Column n) :=
  [⟨colUuid, { key := { type := .uuid }, nMin := 1 }, true⟩,
    ⟨colVersion, { key := { type := .uuid }, nMin := 1 }, false⟩]

/-- A schema with two tables, of which the first is in the root set.  It has a column with strong
references to the second: a set or, if `mixed`, a map from them to weak references to rows of
the first table. -/
def twoTables (mixed : Bool) : Schema 2 where
  table t :=
    { columns := standardColumns 2 ++ if t = 0 then
        [⟨2, { key := { type := .uuid, ref := some (1, .strong) }
               value :=
                if mixed then { type := .uuid, ref := some (0, .weak) } else { type := .void }
               nMin := 0 }, true⟩]
        else []
      isRoot := t = 0
      maxRows := 10
      indexes := []
      index_nodup := by
        revert mixed t
        decide
      standard := by
        revert mixed t
        decide
      version_ephemeral := by
        revert mixed t
        decide
      indexed := by simp }
  strong_persistent := by
    revert mixed
    decide

/-- A UUID with a number in it. -/
def numbered (i : BitVec 32) : Uuid := ⟨i, 0, 0, 0⟩

/-- The data of a row with one element in its column. -/
def oneElement (p : Atom × Option Atom) : ℕ → Datum := fun i => if i = 2 then ⟨[p]⟩ else ⟨[]⟩

/-- A choice of versions. -/
def numberedByCell (a : ℕ) : Uuid := numbered (BitVec.ofNat 32 a)

/-- Commits a transaction, in an order of iteration that always takes the first row. -/
def commitOps (σ : Schema n) (ops : List (Op n)) : Code n Unit :=
  runTxn σ numberedByCell (fun _ _ => 0) ops (.commit none)

lemma eq_ok_of_isSome {x : Except (Stop n) Unit × Db n} (h : x.1.toOption.isSome = true) :
    x = (.ok (), x.2) := by
  rcases x with ⟨_ | ⟨⟩, s⟩
  · cases h
  · rfl

/-- A successful commit leads from a reachable database to a reachable one. -/
lemma Reachable.commitOps {P : Op n → Prop} (h : Reachable σ P c) (hops : ∀ op ∈ ops, P op)
    (hok : (commitOps σ ops c).1.toOption.isSome = true) : Reachable σ P (commitOps σ ops c).2 :=
  .txn h hops (eq_ok_of_isSome hok) nofun

/-- A strong reference with the row's own UUID is a reference to the row itself. -/
def OwnUuid (k : Key n) (col : Column n) (d : Datum) : Prop :=
  ∀ x ∈ col.strongRefs d, x.2 = k.2 → x = k

/-- A datum with fewer pairs has no strong reference that the larger one lacks. -/
lemma mem_strongRefs_of_subset {col : Column n} {d d' : Datum} (h : ∀ p ∈ d'.pairs, p ∈ d.pairs)
    {x : Key n} (hx : x ∈ col.strongRefs d') : x ∈ col.strongRefs d := by
  have hmono : ∀ (t : Option (Fin n)) {l l' : List Atom}, l' ⊆ l → x ∈ refKeys t l' →
      x ∈ refKeys t l := by
    intro t l l' hl hx
    cases t with
    | none => exact hx
    | some t =>
      obtain ⟨a, ha, rfl⟩ := mem_map.1 hx
      exact mem_map.2 ⟨a, hl ha, rfl⟩
  rcases mem_append.1 hx with hx | hx
  · exact mem_append_left _ (hmono _ (map_subset _ h) hx)
  · exact mem_append_right _ (hmono _ (filterMap_subset _ h) hx)

/-- A datum with fewer pairs refers to nothing new, so not to another row under the row's own
UUID. -/
lemma hereditary_ownUuid : Hereditary (OwnUuid (n := n)) :=
  fun _ _ _ _ hsub h x hx => h x (mem_strongRefs_of_subset hsub hx)

/-- Three rows: the third refers to the first, in the second table, or maps it to the second. -/
def mapOps (mixed : Bool) : List (Op 2) :=
  [.insert (1, numbered 1) fun _ => ⟨[]⟩, .insert (0, numbered 2) fun _ => ⟨[]⟩,
    .insert (0, numbered 3)
      (oneElement (.uuid (numbered 1), if mixed then some (.uuid (numbered 2)) else none))]

/-- The database with these rows. -/
def mapDb (mixed : Bool) : Db 2 := (commitOps (twoTables mixed) (mapOps mixed) (Db.empty 2)).2

lemma mapOps_writes (mixed : Bool) :
    ∀ op ∈ mapOps mixed, op.Writes (twoTables mixed) OwnUuid := by
  intro op hop
  simp only [mapOps, mem_cons, not_mem_nil, or_false] at hop
  unfold OwnUuid
  cases mixed <;> rcases hop with rfl | rfl | rfl <;> unfold Op.Writes <;> decide

lemma reachable_mapDb (mixed : Bool) :
    Reachable (twoTables mixed) (Op.Writes (twoTables mixed) OwnUuid) (mapDb mixed) := by
  refine .commitOps .empty (mapOps_writes mixed) ?_
  revert mixed
  decide +kernel

/-! ## Atomicity -/

/-- The two databases have the same rows, with the same data, versions, counters and hashes, the
same weak references and the same indexes, and the second is outside a transaction. -/
structure Unchanged (c s : Db n) : Prop where
  cells : ∀ k, s.rows.lookup k = c.rows.lookup k
  rows : ∀ k, s.row k = c.row k
  weakRefs : s.weakRefs = c.weakRefs
  indexes : s.indexes = c.indexes
  txnTables : s.txnTables = []
  txnRows : ∀ k, s.txnRows.lookup k = none

lemma Restored.unchanged (hc : Committed c) (h : Restored c s) : Unchanged c s :=
  ⟨h.lookup, h.row hc, h.weakRefs, h.within.indexes, h.txnTables, h.txnRows⟩

/-- **Transactions are atomic.**  Whatever a client has done to the rows, aborting the transaction
succeeds and restores the database, and a commit that fails has restored it. -/
theorem txn_atomic (σ : Schema n) (hc : Committed c) (gen : ℕ → Uuid) (ops : List (Op n))
    (hops : Prog.each (Op.run gen) ops c = (.ok (), s₀)) :
    (∀ order, ∃ s, txnAbort order s₀ = (.ok (), s) ∧ Unchanged c s) ∧
      ∀ order (replica : Option (TxnError n)) e s,
        txnCommit σ gen order (replica.elim (pure ()) fail) s₀ = (.error (.error e), s) →
          Unchanged c s := by
  have hcol : AllColumns σ (fun _ _ _ => True) c.contents := fun _ _ _ _ _ => trivial
  have hbegun := (ops_spec hc fun op _ => op.writes_true).ok (.refl hc hcol) hops
  constructor
  · intro order
    have habort : Spec (Within c) (txnAbort order) (fun _ => Restored c) fun _ _ => False :=
      txnAbort_spec hc order
    obtain ⟨_, s, hrun, hs⟩ := habort.returns hbegun.early.1
    exact ⟨s, hrun, hs.unchanged hc⟩
  · intro order replica e s hrun
    rcases (txnCommit_spec hc hcol (fun _ _ _ _ _ _ => trivial) order replica).error hbegun hrun
      with hcrash | hs
    · cases hcrash
    · exact hs.unchanged hc

/-- Deleting the second row of `mapDb` in a transaction that is aborted, or whose commit fails. -/
theorem txn_atomic_mapDb :
    (∀ order, ∃ s, txnAbort order (Prog.each (Op.run numberedByCell) [.delete (0, numbered 2)]
      (mapDb true)).2 = (.ok (), s) ∧ Unchanged (mapDb true) s) ∧
    ∀ order (replica : Option (TxnError 2)) e s,
      txnCommit (twoTables true) numberedByCell order (replica.elim (pure ()) fail)
        (Prog.each (Op.run numberedByCell) [.delete (0, numbered 2)] (mapDb true)).2 =
          (.error (.error e), s) → Unchanged (mapDb true) s :=
  txn_atomic (twoTables true) ((reachable_mapDb true).consistent hereditary_ownUuid).committed
    numberedByCell [.delete (0, numbered 2)] (eq_ok_of_isSome (by decide +kernel))

/-! ## Weak references -/

/-- **Weak references are linked**: each leads to a row, and the row has it in its list unless it is
the row's own. -/
theorem weak_references_linked (h : Reachable σ (fun _ => True) s) {k : Key n} {a : ℕ}
    {row : Row n} (ha : s.rows.lookup k = some a) (hrow : s.heap a = some row) {x : Key n}
    (hx : x ∈ weakRefs σ k row.data) :
    ∃ b row', s.rows.lookup x = some b ∧ s.heap b = some row' ∧
      (x ≠ k → ⟨a, b⟩ ∈ s.weakRefs) := by
  have hs := h.consistent_true
  have hx' : x ∈ weakTargets σ k row.data := by
    obtain ⟨col, hcol, hx⟩ := mem_flatMap.1 hx
    exact mem_flatMap.2 ⟨col, hcol, col.weakRefs_subset_weakTargets _ hx⟩
  obtain ⟨b, hb, hlink⟩ := hs.weak k a row ha hrow x hx'
  obtain ⟨row', hrow', -⟩ := hs.committed.row x b hb
  refine ⟨b, row', hb, hrow', fun hne => hlink.resolve_left ?_⟩
  rintro rfl
  exact hne ((Within.refl hs.committed).cell_inj hs.committed hb ha)

/-- The third row of `mapDb` refers to the second weakly. -/
theorem weak_references_linked_mapDb :
    ∃ b row', (mapDb true).rows.lookup (0, numbered 2) = some b ∧ (mapDb true).heap b = some row' ∧
      ((0, numbered 2) ≠ ((0, numbered 3) : Key 2) → ⟨2, b⟩ ∈ (mapDb true).weakRefs) := by
  have hdata : ((mapDb true).heap 2).map
      (fun row => weakRefs (twoTables true) (0, numbered 3) row.data) = some [(0, numbered 2)] := by
    decide +kernel
  obtain ⟨row, hrow, hrefs⟩ := Option.map_eq_some_iff.1 hdata
  refine weak_references_linked ((reachable_mapDb true).mono fun _ _ => trivial)
    (by decide +kernel) hrow ?_
  rw [hrefs]
  exact mem_singleton_self _

/-! ## Strong references -/

/-- The strong references of the rows, as a multigraph. -/
def Db.strongRefs (σ : Schema n) (s : Db n) (k : Key n) : List (Key n) :=
  (s.contents k).elim [] (Ovsdb.strongRefs σ k)

/-- What a database promises about strong references. -/
structure StrongReferences (σ : Schema n) (s : Db n) : Prop where
  /-- Every one leads to a row. -/
  exist : ∀ k, ∀ x ∈ s.strongRefs σ k, s.row x ≠ none
  /-- `n_refs` is the number of those in other rows. -/
  counted : ∀ x row, s.row x = some row →
    row.nRefs = inDegree (s.rows.keys.toFinset.erase x) (s.strongRefs σ) x
  /-- Outside the root set, there is one. -/
  needed : ∀ x row, s.row x = some row → (σ.table x.1).isRoot = false → 0 < row.nRefs

/-- Where no row has a foreign reference with its own UUID, the references that are counted are
those to other rows. -/
lemma count_heldBy (h : AllColumns σ OwnUuid s.contents) (x : Key n) :
    (heldBy σ s.contents k).count x = if k = x then 0 else (s.strongRefs σ k).count x := by
  unfold heldBy Db.strongRefs
  cases hk : s.contents k with
  | none => simp
  | some data =>
    rw [Option.elim_some, Option.elim_some, countedRefs]
    split
    · next heq => simp [heq, count_eq_zero]
    · next hne =>
        by_cases hx : x ∈ Ovsdb.strongRefs σ k data
        · obtain ⟨col, hcol, hx'⟩ := mem_flatMap.1 hx
          refine count_filter (decide_eq_true fun huuid => hne ?_)
          exact (h k data hk col hcol x hx' huuid).symm
        · rw [count_eq_zero.2 hx, count_eq_zero]
          exact fun hmem => hx (mem_filter.1 hmem).1

/-- **Strong references are counted**, provided that no column mixes them with weak ones, and that
no operation puts a row's own UUID into a reference to another table. -/
theorem strong_references_counted (hσ : Unmixed σ) (h : Reachable σ (Op.Writes σ OwnUuid) s) :
    StrongReferences σ s := by
  have hs := h.consistent hereditary_ownUuid
  have hsound := hs.sound hσ
  have hnone : ∀ x, s.row x = none → s.contents x = none := by
    intro x hx
    rw [Db.contents, hx]
    rfl
  have hrefs : ∀ x row, s.row x = some row → row.nRefs = s.refs x := by
    intro x row hrow
    rw [Db.refs, hs.committed.txnRows x, hrow]
    rfl
  refine ⟨fun k x hx => ?_, fun x row hrow => ?_, fun x row hrow hroot => ?_⟩
  · intro hxnone
    cases hk : s.contents k with
    | none => simp [Db.strongRefs, hk] at hx
    | some data =>
      rw [Db.strongRefs, hk] at hx
      by_cases huuid : x.2 = k.2
      · obtain ⟨col, hcol, hx'⟩ := mem_flatMap.1 hx
        rw [hs.columns k data hk col hcol x hx' huuid] at hxnone
        rw [hnone k hxnone] at hk
        cases hk
      · refine hsound.resolved k x ?_ (hnone x hxnone)
        rw [heldBy_of_some hk]
        exact mem_filter.2 ⟨hx, decide_eq_true huuid⟩
  · rw [hrefs x row hrow, hsound.refs x]
    refine (Finset.sum_subset (Finset.erase_subset _ _) fun k hk hk' => ?_).symm.trans
      (Finset.sum_congr rfl fun k hk => ?_)
    · have hkx : k = x := by
        by_contra hne
        exact hk' (Finset.mem_erase.2 ⟨hne, hk⟩)
      rw [count_heldBy hs.columns, if_pos hkx]
      rfl
    · rw [count_heldBy hs.columns, if_neg (Finset.ne_of_mem_erase hk)]
  · refine lt_of_le_of_ne ?_ (Ne.symm ?_)
    · rw [hrefs x row hrow, hsound.refs x]
      exact inDegree_nonneg
    · rw [hrefs x row hrow]
      refine hsound.clean x hroot ?_
      rw [Db.contents, hrow]
      exact Option.some_ne_none _

theorem strong_references_counted_mapDb :
    Unmixed (twoTables false) ∧ StrongReferences (twoTables false) (mapDb false) := by
  have hσ : Unmixed (twoTables false) := by
    unfold Unmixed
    decide
  exact ⟨hσ, strong_references_counted hσ (reachable_mapDb false)⟩

/-- **Neither condition can be dropped.**  In a column that mixes references, deleting the target of
a weak one takes away a strong one that stays counted; and a foreign reference with the row's
own UUID is taken for a reference to the row itself, and may dangle. -/
theorem strong_references_miscounted :
    (∃ s, Reachable (twoTables true) (Op.Writes (twoTables true) OwnUuid) s ∧
      ¬ StrongReferences (twoTables true) s) ∧
    Unmixed (twoTables false) ∧ ∃ s, Reachable (twoTables false) (fun _ => True) s ∧
      ¬ StrongReferences (twoTables false) s := by
  refine ⟨⟨(commitOps (twoTables true) [.delete (0, numbered 2)] (mapDb true)).2,
    (reachable_mapDb true).commitOps ?_ (by decide +kernel), fun h => ?_⟩, ?_,
    ⟨(commitOps (twoTables false)
      [.insert (0, numbered 3) (oneElement (.uuid (numbered 3), none))] (Db.empty 2)).2,
    .commitOps .empty (fun _ _ => trivial) (by decide +kernel), fun h => ?_⟩⟩
  · simp [Op.Writes]
  · have hcount : ((commitOps (twoTables true) [.delete (0, numbered 2)]
        (mapDb true)).2.row (1, numbered 1)).map Row.nRefs = some 1 := by
      decide +kernel
    obtain ⟨row, hrow, hrefs⟩ := Option.map_eq_some_iff.1 hcount
    have hnone := h.counted (1, numbered 1) row hrow
    rw [hrefs] at hnone
    revert hnone
    decide +kernel
  · unfold Unmixed
    decide
  · refine h.exist (0, numbered 3) (1, numbered 3) (by decide +kernel)
      (Option.isNone_iff_eq_none.1 ?_)
    decide +kernel

/-! ## Indexes -/

variable (σ) in
/-- An indexed column holds no negative zero. -/
def NoNegativeZero (k : Key n) (col : Column n) (d : Datum) : Prop :=
  (∃ cols ∈ (σ.table k.1).indexes, col ∈ cols) → d.canon = d

/-- A datum is its own canonical form when each of its atoms is. -/
lemma canon_eq_self_iff {d : Datum} :
    d.canon = d ↔ ∀ p ∈ d.pairs, (p.1.canon, p.2.map Atom.canon) = p := by
  rcases d with ⟨ps⟩
  rw [Datum.mk.injEq]
  constructor
  · intro h p hp
    exact map_inj_left.1 (h.trans (map_id ps).symm) p hp
  · intro h
    exact (map_congr_left h).trans (map_id ps)

lemma hereditary_noNegativeZero : Hereditary (NoNegativeZero σ) := by
  intro k col d d' hsub h hcol
  rw [canon_eq_self_iff]
  exact fun p hp => canon_eq_self_iff.1 (h hcol) p (hsub p hp)

variable {cols : List (Column n)}

/-- The value of an indexed column has no negative zero, also if it is `_uuid`. -/
lemma Consistent.field_canon (hs : Consistent σ (NoNegativeZero σ) s) (hrow : s.row k = some row)
    (hcols : cols ∈ (σ.table k.1).indexes) {col : Column n} (hcol : col ∈ cols) :
    (row.field col.index).canon = row.field col.index := by
  obtain ⟨hmem, hpersistent⟩ := (σ.table k.1).indexed cols hcols col hcol
  unfold Row.field
  split
  · rfl
  split
  · rfl
  · refine hs.columns k row.data ?_ col hmem ⟨cols, hcols, hcol⟩
    rw [Db.contents, hrow]
    rfl

/-- What a database promises about the constraints of its tables. -/
structure TableConstraints (σ : Schema n) (s : Db n) : Prop where
  /-- No two rows of a table agree in all columns of an index. -/
  unique : ¬ Duplicate σ s
  /-- An index holds the rows of its table, each once. -/
  indexes : ∀ t, ∀ i < (σ.table t).indexes.length, (s.indexes t i).Nodup ∧
    ∀ a, a ∈ s.indexes t i ↔ ∃ k, k.1 = t ∧ s.rows.lookup k = some a
  /-- No table has too many rows. -/
  maxRows : MaxRows σ s

/-- `check_index_uniqueness()` rejects a transaction on the database only because of two rows that
it would leave behind. -/
def RejectsDuplicatesOnly (σ : Schema n) (c : Db n) : Prop :=
  ∀ (gen : ℕ → Uuid) (order : ℕ → ℕ → ℕ) (ops : List (Op n)) s st s', (do
      Prog.each (Op.run gen) ops
      forEachTxnRow (order 0) (determineChanges σ)
      txnSettle σ gen order) c = (.ok (), s) →
    forEachTxnRow (order 5) (checkIndexUniqueness σ) s = (.error st, s') → Duplicate σ s

/-- A consistent database refuses a commit for its indexes only when two rows have one key. -/
lemma Consistent.rejectsDuplicatesOnly (hc : Consistent σ Q c) : RejectsDuplicatesOnly σ c := by
  intro gen order ops s st s' hrun hfail
  have hcol : AllColumns σ (fun _ _ _ => True) c.contents := fun _ _ _ _ _ => trivial
  have hspec : Spec (Begun σ (fun _ _ _ => True) c) (do
      Prog.each (Op.run gen) ops
      forEachTxnRow (order 0) (determineChanges σ)
      txnSettle σ gen order) (fun _ => Settling σ (fun _ _ _ => True) c) fun _ _ => True :=
    Spec.bind ((ops_spec hc.committed fun op _ => op.writes_true).conseq (fun _ h => h)
      (fun _ _ h => h) fun _ _ _ => trivial) fun _ => Spec.intro fun s1 hs1 =>
    Spec.bind ((forEach_determineChanges hc.committed hcol hs1 (order 0)).post
      fun _ s hs => hs.1) fun _ => Spec.intro fun s2 hs2 =>
    (txnSettle_spec hc.committed (fun _ _ _ _ _ _ => trivial) hs2 order).conseq (fun _ h => h)
      (fun _ _ h => h) fun _ _ _ => trivial
  have hs := hspec.ok (.refl hc.committed hcol) hrun
  obtain ⟨-, e, -, hdup⟩ := (forEach_checkIndexUniqueness hc.committed hs.within hs.fresh
    (order 5)).error rfl hfail
  exact hdup hc.indexes

/-- **The constraints of tables hold**, provided that no operation writes a negative zero to an
indexed column; and the check of the indexes rejects nothing that meets them. -/
theorem table_constraints (h : Reachable σ (Op.Writes σ (NoNegativeZero σ)) s) :
    TableConstraints σ s ∧ RejectsDuplicatesOnly σ s := by
  have hs := h.consistent hereditary_noNegativeZero
  refine ⟨⟨?_, fun t i hi => ?_, hs.maxRows⟩, hs.rejectsDuplicatesOnly⟩
  · rintro ⟨k, k', row, row', hne, hkk, hrow, hrow', cols, hcols, heq⟩
    obtain ⟨i, hi, rfl⟩ := getElem_of_mem hcols
    refine hne (hs.indexes.unique k k' row row' hrow hrow' hkk (_, i)
      (mem_zipIdx_iff_getElem?.2 (getElem?_eq_getElem hi)) ⟨?_, heq⟩)
    -- without negative zeros, equal columns have equal hashes
    refine foldl_ext _ _ _ fun basis col hcol => ?_
    rw [← hs.field_canon hrow hcols hcol, Row.equalColumns_iff.1 heq col hcol,
      hs.field_canon hrow' (hkk ▸ hcols) hcol]
  · have hp : ((σ.table t).indexes[i], i) ∈ (σ.table t).indexes.zipIdx :=
      mem_zipIdx_iff_getElem?.2 (getElem?_eq_getElem hi)
    exact ⟨hs.indexes.nodup t _ hp, hs.indexes.mem t _ hp⟩

/-- A schema with one table, indexed by a column of reals. -/
def realIndex : Schema 1 where
  table _ :=
    { columns := standardColumns 1 ++ [⟨2, { key := { type := .real }, nMin := 1 }, true⟩]
      isRoot := true
      maxRows := 2
      indexes := [[⟨2, { key := { type := .real }, nMin := 1 }, true⟩]]
      index_nodup := by decide
      standard := by decide
      version_ephemeral := by decide
      indexed := by simp [standardColumns] }
  strong_persistent := by decide

/-- Two rows, with `0.0` and another double in the column. -/
def realOps (d : {d : Double // d.isFinite = true}) : List (Op 1) :=
  [.insert (0, numbered 1) (oneElement (.real ⟨Double.zero, Double.isFinite_zero⟩, none)),
    .insert (0, numbered 2) (oneElement (.real d, none))]

/-- `1.0`. -/
def realOne : {d : Double // d.isFinite = true} := ⟨⟨0x3ff0000000000000⟩, by decide⟩

/-- `-0.0`. -/
def realNegZero : {d : Double // d.isFinite = true} := ⟨Double.negZero, by decide⟩

theorem table_constraints_realOne :
    TableConstraints realIndex (commitOps realIndex (realOps realOne) (Db.empty 1)).2 ∧
      RejectsDuplicatesOnly realIndex
        (commitOps realIndex (realOps realOne) (Db.empty 1)).2 := by
  refine table_constraints (.commitOps .empty (fun op hop => ?_) (by decide +kernel))
  simp only [realOps, mem_cons, not_mem_nil, or_false] at hop
  rcases hop with rfl | rfl <;>
  · intro col _ _
    unfold oneElement
    split <;> decide

/-- **A negative zero escapes the check**: it is equal to zero but has another hash. -/
theorem indexes_not_unique :
    ∃ s, Reachable realIndex (fun _ => True) s ∧ ¬ TableConstraints realIndex s := by
  refine ⟨(commitOps realIndex (realOps realNegZero) (Db.empty 1)).2,
    .commitOps .empty (fun _ _ => trivial) (by decide +kernel), fun h => h.unique ?_⟩
  have hequal : (((commitOps realIndex (realOps realNegZero) (Db.empty 1)).2.row
      (0, numbered 1)).bind fun row => ((commitOps realIndex (realOps realNegZero)
      (Db.empty 1)).2.row (0, numbered 2)).map fun row' =>
        row.equalColumns row' [⟨2, { key := { type := .real }, nMin := 1 }, true⟩]) =
      some true := by
    decide +kernel
  obtain ⟨row, hrow, hequal⟩ := Option.bind_eq_some_iff.1 hequal
  obtain ⟨row', hrow', hequal⟩ := Option.map_eq_some_iff.1 hequal
  exact ⟨(0, numbered 1), (0, numbered 2), row, row', by decide, rfl, hrow, hrow', _,
    mem_singleton_self _, hequal⟩

/-! ## Transactions that change nothing -/

/-- The commit of the operations leaves every row as it was, with its version, and passes no change
to a replica: it succeeds even if the replica fails. -/
def Ignored (σ : Schema n) (gen : ℕ → Uuid) (order : ℕ → ℕ → ℕ) (ops : List (Op n)) (c : Db n) :
    Prop :=
  ∀ replica, ∃ s, runTxn σ gen order ops (.commit replica) c = (.ok (), s) ∧ s.row = c.row

/-- The rows of the transaction have other versions than in `c`. -/
def Reversioned (c s : Db n) : Prop :=
  ∀ k r a b, s.txnRows.lookup k = some r → c.row k = some a → s.row k = some b →
    a.version ≠ b.version

section Reversioned

variable (hc : Committed c) (hgen : ∀ i k row, c.row k = some row → row.version ≠ gen i)

include hc hgen

/-- A row that is pulled into the transaction gets a new version, so all of its rows have other
versions. -/
lemma reversioned_pullable : Pullable gen c fun s => Begun σ Q c s ∧ Reversioned c s where
  within s h := h.1.early.1
  clone s a row h hrow hrows hr := by
    refine ⟨(Begun.pullable hc).clone s a row h.1 hrow hrows hr, fun k r a' b hr' ha' hb => ?_⟩
    by_cases hk : k = row.key
    · rw [hk, cloneRow, Within.row_alloc_self] at hb
      cases hb
      exact hgen _ k a' ha'
    · rw [cloneRow, h.1.early.1.row_alloc_of_ne hc _ _ _ hk] at hb
      exact h.2 k r a' b (by simpa [hk] using hr') ha' hb

/-- Modifications, one after the other: a row that is written to has got a new version. -/
lemma modifications_spec (hops : ∀ op ∈ ops, ∃ k writes, op = .modify k writes) :
    Spec (· = c) (Prog.each (Op.run gen) ops)
      (fun _ s => (Begun σ (fun _ _ _ => True) c s ∧ Reversioned c s) ∧
        (ops ≠ [] → ∃ k r a, s.txnRows.lookup k = some r ∧ r.new = some a)) fun _ _ => True := by
  refine (Spec.each (fun pre s => (Begun σ (fun _ _ _ => True) c s ∧ Reversioned c s) ∧
    (pre ≠ [] → ∃ k r a, s.txnRows.lookup k = some r ∧ r.new = some a))
    fun pre op post hpre => ?_).pre ?_
  · obtain ⟨k, writes, rfl⟩ := hops op (by rw [hpre]; simp)
    refine ((Op.run_modify hc (reversioned_pullable hc hgen) ?_).conseq (fun s hs => hs.1)
      (fun _ s hs => ⟨hs.1, fun _ => ⟨k, hs.2⟩⟩) fun _ _ _ => trivial)
    rintro s r b row ⟨h, hnew⟩ hr hb hrow w -
    have ha : s.rows.lookup k = some b := by rw [← (h.early.1.rows k).new r hr, hb]
    refine ⟨h.write hc hr hb hrow fun _ _ _ => trivial, fun k' r' a' b' hr' ha' hb' => ?_⟩
    by_cases hk : k' = k
    · subst hk
      rw [Db.row_of_lookup (show (s.setRow b _).rows.lookup k' = some b from ha), Db.setRow_heap,
        Function.update_self] at hb'
      cases hb'
      exact hnew k' r a' row hr ha' (by rw [Db.row_of_lookup ha, hrow])
    · rw [h.early.1.row_setRow_of_ne hc _ ha hk] at hb'
      exact hnew k' r' a' b' hr' ha' hb'
  · rintro _ rfl
    refine ⟨⟨.refl hc fun _ _ _ _ _ => trivial, fun k r _ _ hr => ?_⟩, fun hne => absurd rfl hne⟩
    rw [hc.txnRows k] at hr
    cases hr

end Reversioned

/-- **A transaction of modifications is ignored only if there are none.** -/
theorem modifications_ignored_iff (hc : Reachable σ (fun _ => True) c)
    (hversion : ∀ t, ∃ col ∈ (σ.table t).columns, col.index = colVersion)
    (hgen : ∀ i k row, c.row k = some row → row.version ≠ gen i)
    (hops : ∀ op ∈ ops, ∃ k writes, op = .modify k writes) (order : ℕ → ℕ → ℕ) :
    Ignored σ gen order ops c ↔ ops = [] := by
  have hs := hc.consistent_true
  constructor
  · intro hignored
    by_contra hne
    obtain ⟨s, hrun, -⟩ := hignored (some .replica)
    -- the rows are still there when the checks begin, and then the replica fails
    have hspec : Spec (· = c) (runTxn σ gen order ops (.commit (some .replica)))
        (fun _ _ => False) fun _ _ => True := by
      refine Spec.bind (modifications_spec (σ := σ) hs.committed hgen hops) fun _ =>
        Spec.intro fun s₀ hs0 => ?_
      obtain ⟨⟨hbegun, hversions⟩, hsome⟩ := hs0
      obtain ⟨k, r, a, hr, ha⟩ := hsome hne
      refine Spec.bind (forEach_determineChanges hs.committed hs.columns hbegun (order 0)) fun _ =>
        Spec.get_bind fun s1 hs1 => Spec.ite (fun hempty => ?_) fun _ => ?_
      · -- a row with a new version is not dropped, because versions are compared, too
        refine absurd (List.isEmpty_iff.1 hempty) ?_
        obtain ⟨-, row, hrow, -⟩ := (hbegun.early.1.rows k).cell r a hr ha
        rw [← Db.row_of_lookup (by rw [← (hbegun.early.1.rows k).new r hr, ha])] at hrow
        cases hs' : s1.txnRows.lookup k with
        | some r' => exact ne_nil_of_mem ((hs1.1.early.1.rows k).table r' hs')
        | none =>
          have hsame := hs1.1.early.1.row_of_none hs.committed hs'
          obtain heq | ⟨-, a, b, ha, hb, heq⟩ := hs1.2.1 k
          · rw [hsame, hrow] at heq
            exact absurd rfl (hversions k r row row hr heq hrow)
          · obtain ⟨col, hcol, hindex⟩ := hversion k.1
            have hcanon := heq col hcol
            refine absurd ?_ (hversions k r a b hr ha hb)
            simpa [hindex, Row.field, colUuid, colVersion, Datum.ofUuid, Datum.canon, Atom.canon]
              using hcanon
      · refine Spec.bind (Q := fun _ _ => False) ((orAbort_spec hs.committed (Spec.bind
          (txnCheck_spec hs.committed (fun _ _ _ _ _ _ => trivial) hs1.1 order) fun _ =>
          Spec.throw fun _ hs => hs.within) (order 6)).conseq (fun _ h => h) (fun _ _ h => h)
          fun _ _ _ => trivial) fun _ _ h => h.elim
    exact hspec.ok rfl hrun
  · rintro rfl replica
    have hspec : ∀ m : Code n Unit, Spec (· = c) (txnCommit σ gen order m)
        (fun _ s => s.row = c.row) fun _ _ => False := by
      intro m
      refine Spec.bind (Q := fun _ s => s = c.dropEmptyTxnTables) (forEachTxnRow_total
        (fun _ s => s = c) rfl ?_ ?_ ?_)
        fun _ => Spec.get_bind fun s1 hs1 => Spec.ite (fun _ => ?_) fun hne => ?_
      · rintro _ _ rfl k r hr
        simp [hs.committed.txnRows k] at hr
      · rintro _ _ k r rfl hr
        simp [hs.committed.txnRows k] at hr
      · rintro _ _ rfl -
        rfl
      · refine ((txnAbort_spec hs.committed (order 6)).pre ?_).post
          fun _ s hs' => funext (hs'.row hs.committed)
        rintro _ rfl
        exact hs1 ▸ (Within.refl hs.committed).dropEmptyTxnTables
      · rw [hs1, dropEmptyTxnTables_eq_nil hs.committed.txnRows] at hne
        exact absurd rfl hne
    cases replica with
    | none => exact (hspec (pure ())).returns rfl |>.elim fun _ h => h
    | some e => exact (hspec (fail e)).returns rfl |>.elim fun _ h => h

/-- A row with `1.0` in its column. -/
def realRow : Db 1 :=
  (commitOps realIndex [.insert (0, numbered 1) (oneElement (.real realOne, none))] (Db.empty 1)).2

lemma reachable_realRow : Reachable realIndex (fun _ => True) realRow :=
  .commitOps .empty (fun _ _ => trivial) (by decide +kernel)

/-- Versions that no row of `realRow` has. -/
def laterVersions (i : ℕ) : Uuid := ⟨BitVec.ofNat 32 i, 1, 0, 0⟩

lemma realRow_version_ne (i : ℕ) (k : Key 1) (row : Row 1) (h : realRow.row k = some row) :
    row.version ≠ laterVersions i := by
  have hversion : ∀ k ∈ realRow.rows.keys, ∀ row ∈ realRow.row k, row.version.part1 = 0 := by
    decide +kernel
  have hk : k ∈ realRow.rows := by
    by_contra hk
    rw [Db.row, AList.lookup_eq_none.2 hk] at h
    cases h
  intro heq
  have hpart := hversion k hk row h
  rw [heq] at hpart
  exact absurd hpart (show (1 : BitVec 32) ≠ 0 by decide)

theorem modifications_ignored_iff_realRow :
    Ignored realIndex laterVersions (fun _ _ => 0) [] realRow ∧
      ¬Ignored realIndex laterVersions (fun _ _ => 0)
        [.modify (0, numbered 1) [(2, ⟨[(.real realOne, none)]⟩)]] realRow := by
  have hversion : ∀ t, ∃ col ∈ (realIndex.table t).columns, col.index = colVersion :=
    fun _ => ⟨_, mem_cons_of_mem _ mem_cons_self, rfl⟩
  constructor
  · exact (modifications_ignored_iff reachable_realRow hversion realRow_version_ne
      (fun _ h => absurd h not_mem_nil) _).2 rfl
  · intro h
    cases (modifications_ignored_iff reachable_realRow hversion realRow_version_ne
      (by simp) _).1 h

/-- The database after a modification that writes to the row what is there. -/
def realRewritten (replica : Option (TxnError 1)) : Except (Stop 1) Unit × Db 1 :=
  runTxn realIndex numberedByCell (fun _ _ => 0)
    [.modify (0, numbered 1) [(2, ⟨[(.real realOne, none)]⟩)]] (.commit replica) realRow

/-- **A transaction that changes nothing changes a version**, and a replica can make it fail. -/
theorem noop_changes_version :
    Reachable realIndex (fun _ => True) realRow ∧
      (realRow.contents (0, numbered 1)).map (· 2) =
        ((realRewritten none).2.contents (0, numbered 1)).map (· 2) ∧
      (realRow.row (0, numbered 1)).map Row.version ≠
        ((realRewritten none).2.row (0, numbered 1)).map Row.version ∧
      (realRewritten (some .replica)).1.toOption = none :=
  ⟨reachable_realRow, by decide +kernel, by decide +kernel, by decide +kernel⟩

end Ovsdb

end OVS
