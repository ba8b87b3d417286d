import Mathlib.Tactic.Linarith
import Mathlib.Tactic.Ring

/-!
# Token buckets

`lib/token-bucket.c`: a bucket gets `rate` tokens per millisecond, up to `burst`.  It is only filled
when there are not enough tokens in it.

* `bucket_limited` — if every withdrawal from a bucket that would overflow fills it and new settings
  add nothing, the bucket never has more than `burst` tokens, and while its settings are in force no
  more are withdrawn than `burst` and those that it gets.
* `tokens_gained` — a change of the settings fills the bucket, or leaves too many tokens in it;
  and after a time without withdrawals, `burst` tokens can be withdrawn twice.
-/

namespace OVS

structure TokenBucket where
  rate : ℕ
  burst : ℕ
  tokens : ℕ
  lastFill : ℤ

def uintMax : ℕ := 4294967295

def satAdd (x y : ℕ) : ℕ := if x ≤ (x + y) % 2 ^ 32 then (x + y) % 2 ^ 32 else uintMax

def satMul (x y : ℕ) : ℕ :=
  if y = 0 then 0 else if x ≤ uintMax / y then x * y % 2 ^ 32 else uintMax

namespace TokenBucket

def init (rate burst : ℕ) : TokenBucket := ⟨rate, burst, 0, -2 ^ 63⟩

def set (tb : TokenBucket) (rate burst : ℕ) : TokenBucket :=
  { tb with rate, burst, tokens := if tb.tokens < burst then burst else tb.tokens }

/-- The part of `token_bucket_withdraw()` that fills the bucket. -/
def fill (tb : TokenBucket) (now : ℤ) : TokenBucket :=
  if tb.lastFill < now then
    let elapsed := min uintMax (now - tb.lastFill).toNat
    let tokens := satAdd tb.tokens (satMul tb.rate elapsed)
    { tb with tokens := min tokens tb.burst, lastFill := now }
  else tb

/-- `token_bucket_withdraw()` at the time `now`: whether it succeeds, and the bucket. -/
def withdraw (tb : TokenBucket) (now : ℤ) (n : ℕ) : Bool × TokenBucket :=
  let tb := if tb.tokens < n then tb.fill now else tb
  if tb.tokens < n then (false, tb) else (true, { tb with tokens := tb.tokens - n })

/-- A call for a bucket. -/
inductive Call where
  | withdraw (n : ℕ)
  | set (rate burst : ℕ)

/-- A call at the given time: the tokens that it gets, and the bucket. -/
def step (tb : TokenBucket) : ℤ × Call → ℕ × TokenBucket
  | (now, .withdraw n) =>
    let res := tb.withdraw now n
    (if res.1 then n else 0, res.2)
  | (_, .set rate burst) => (0, tb.set rate burst)

/-- The tokens that calls get together, and the bucket. -/
def run : List (ℤ × Call) → TokenBucket → ℕ × TokenBucket
  | [], tb => (0, tb)
  | call :: calls, tb =>
    let res := tb.step call
    let rest := run calls res.2
    (res.1 + rest.1, rest.2)

/-- The tokens that a bucket should have at the time `t`: those in it and those it has got since it
was filled, up to `burst`. -/
def accumulated (tb : TokenBucket) (t : ℤ) : ℤ :=
  min tb.burst (tb.tokens + tb.rate * (t - tb.lastFill))

/-- A withdrawal from a bucket that would overflow if it were filled has to fill it, and new
settings are for exactly as many tokens as the bucket gets by them, all of them accumulated. -/
def Meets (tb : TokenBucket) : ℤ × Call → Prop
  | (now, .withdraw n) =>
    n = 0 ∨ tb.tokens < n ∨ tb.tokens + tb.rate * (now - tb.lastFill) ≤ tb.burst
  | (now, .set _ burst) => tb.tokens ≤ burst ∧ burst ≤ tb.accumulated now

instance (tb : TokenBucket) : ∀ call, Decidable (tb.Meets call)
  | (_, .withdraw _) => inferInstanceAs (Decidable (_ ∨ _ ∨ _))
  | (_, .set _ _) => inferInstanceAs (Decidable (_ ∧ _))

/-- Calls at times that do not decrease, from the time `t` on, each of which meets the condition. -/
def Keeps : ℤ → TokenBucket → List (ℤ × Call) → Prop
  | _, _, [] => True
  | t, tb, call :: calls => t ≤ call.1 ∧ tb.Meets call ∧ Keeps call.1 (tb.step call).2 calls

instance Keeps.decidable : ∀ t tb calls, Decidable (Keeps t tb calls)
  | _, _, [] => isTrue trivial
  | _, tb, call :: calls =>
    have := Keeps.decidable call.1 (tb.step call).2 calls
    inferInstanceAs (Decidable (_ ∧ _ ∧ _))

/-- The call leaves the settings `rate` and `burst` in force. -/
def Call.InForce (rate burst : ℕ) : Call → Prop
  | .withdraw _ => True
  | .set rate' burst' => rate' = rate ∧ burst' = burst

/-- What holds of a bucket at the time `t`. -/
structure Ok (t : ℤ) (tb : TokenBucket) : Prop where
  tokens : tb.tokens ≤ tb.burst
  lastFill : tb.lastFill ≤ t

variable {tb : TokenBucket} {x y n : ℕ} {now t t1 t2 : ℤ} {call : ℤ × Call}
  {before calls : List (ℤ × Call)}

lemma Ok.mono (h : tb.Ok t1) (ht : t1 ≤ t2) : tb.Ok t2 := ⟨h.tokens, h.lastFill.trans ht⟩

/-- Until it is filled, a bucket gets no more than `rate` tokens per millisecond. -/
lemma accumulated_le (ht : t1 ≤ t2) :
    tb.accumulated t2 ≤ tb.accumulated t1 + tb.rate * (t2 - t1) := by
  have hnonneg : 0 ≤ tb.rate * (t2 - t1) := mul_nonneg (Int.natCast_nonneg _) (sub_nonneg.2 ht)
  have hsplit : tb.rate * (t2 - tb.lastFill) =
      tb.rate * (t1 - tb.lastFill) + tb.rate * (t2 - t1) := by ring
  unfold accumulated
  omega

lemma Ok.tokens_le (h : tb.Ok t) : tb.tokens ≤ tb.accumulated t := by
  have hnonneg : 0 ≤ tb.rate * (t - tb.lastFill) :=
    mul_nonneg (Int.natCast_nonneg _) (sub_nonneg.2 h.lastFill)
  have := h.tokens
  unfold accumulated
  omega

lemma satAdd_le : satAdd x y ≤ x + y := by
  unfold satAdd uintMax
  split <;> omega

lemma satMul_le : satMul x y ≤ x * y := by
  unfold satMul
  split_ifs with hy h
  · exact Nat.zero_le _
  · exact Nat.mod_le _ _
  · rw [not_le, Nat.div_lt_iff_lt_mul (Nat.pos_of_ne_zero hy)] at h
    exact h.le

/-- **Filling the bucket** gives it no more than the accumulated tokens. -/
lemma Ok.fill (h : tb.Ok now) :
    (tb.fill now).Ok now ∧ (tb.fill now).tokens ≤ tb.accumulated now ∧
      (tb.fill now).lastFill = now := by
  unfold TokenBucket.fill
  split
  · next hlt =>
    refine ⟨⟨min_le_right _ _, le_rfl⟩, ?_, rfl⟩
    set add := satMul tb.rate (min uintMax (now - tb.lastFill).toNat) with hadd
    have hle : (add : ℤ) ≤ tb.rate * (now - tb.lastFill) := by
      have hle : add ≤ tb.rate * (now - tb.lastFill).toNat :=
        satMul_le.trans (Nat.mul_le_mul_left _ (min_le_right _ _))
      rw [← Int.toNat_of_nonneg (sub_pos.2 hlt).le]
      exact_mod_cast hle
    have hsum : satAdd tb.tokens add ≤ tb.tokens + add := satAdd_le
    simp only [accumulated, ← hadd]
    omega
  · next hge => exact ⟨h, h.tokens_le, le_antisymm h.lastFill (not_lt.1 hge)⟩

/-- **What a withdrawal gets** is taken from the accumulated tokens. -/
lemma Ok.withdraw (h : tb.Ok now) (hmeets : tb.Meets (now, .withdraw n)) :
    (tb.withdraw now n).2.Ok now ∧ (if (tb.withdraw now n).1 then n else 0 : ℕ) +
      (tb.withdraw now n).2.accumulated now ≤ tb.accumulated now := by
  unfold TokenBucket.withdraw
  by_cases hshort : tb.tokens < n
  · obtain ⟨hok, hle, hnow⟩ := h.fill
    simp only [if_pos hshort]
    split
    · refine ⟨hok, ?_⟩
      simp only [accumulated, hnow, sub_self, mul_zero, add_zero, Bool.false_eq_true, if_false]
        at hle ⊢
      omega
    · refine ⟨⟨(Nat.sub_le _ _).trans hok.tokens, hok.lastFill⟩, ?_⟩
      simp only [accumulated, hnow, sub_self, mul_zero, add_zero, if_true] at hle ⊢
      omega
  · simp only [if_neg hshort, if_true]
    refine ⟨⟨(Nat.sub_le _ _).trans h.tokens, h.lastFill⟩, ?_⟩
    unfold Meets at hmeets
    unfold accumulated
    dsimp only
    omega

/-- **New settings** add nothing to the accumulated tokens. -/
lemma accumulated_set {rate burst : ℕ} (hmeets : tb.Meets (now, .set rate burst)) :
    (tb.set rate burst).tokens = burst ∧
      (tb.set rate burst).accumulated now ≤ tb.accumulated now := by
  obtain ⟨hle, hacc⟩ := hmeets
  have htokens : (tb.set rate burst).tokens = burst := by
    unfold TokenBucket.set
    dsimp only
    split <;> omega
  exact ⟨htokens, (min_le_left _ _).trans hacc⟩

/-- **One call** keeps the bucket within `burst`, and takes what it gets from the accumulated
tokens. -/
lemma Ok.step (h : tb.Ok call.1) (hmeets : tb.Meets call) :
    (tb.step call).2.Ok call.1 ∧
      (tb.step call).1 + (tb.step call).2.accumulated call.1 ≤ tb.accumulated call.1 := by
  obtain ⟨now, n | ⟨rate, burst⟩⟩ := call
  · exact h.withdraw hmeets
  · obtain ⟨htokens, hle⟩ := accumulated_set hmeets
    exact ⟨⟨htokens.le, h.lastFill⟩, by simpa [TokenBucket.step] using hle⟩

/-- **All calls** keep the bucket within `burst`. -/
lemma Ok.run (h : tb.Ok t1) (hkeeps : Keeps t1 tb calls) (hcalls : ∀ call ∈ calls, call.1 ≤ t2)
    (ht : t1 ≤ t2) : (TokenBucket.run calls tb).2.Ok t2 := by
  induction calls generalizing tb t1 with
  | nil => exact h.mono ht
  | cons call calls ih =>
    obtain ⟨hle, hmeets, hkeeps⟩ := hkeeps
    obtain ⟨hcall, hcalls⟩ := List.forall_mem_cons.1 hcalls
    exact ih ((h.mono hle).step hmeets).1 hkeeps hcalls hcall

lemma step_inForce (h : call.2.InForce tb.rate tb.burst) :
    (tb.step call).2.rate = tb.rate ∧ (tb.step call).2.burst = tb.burst := by
  obtain ⟨now, n | ⟨rate, burst⟩⟩ := call
  · simp only [TokenBucket.step, TokenBucket.withdraw, TokenBucket.fill]
    split_ifs <;> exact ⟨rfl, rfl⟩
  · exact h

/-- **What all calls get** while the settings do not change is taken from the tokens accumulated at
first and those that come in. -/
lemma Ok.run_le (h : tb.Ok t1) (hkeeps : Keeps t1 tb calls)
    (hcalls : ∀ call ∈ calls, call.1 ≤ t2 ∧ call.2.InForce tb.rate tb.burst) (ht : t1 ≤ t2) :
    (TokenBucket.run calls tb).1 ≤ tb.accumulated t1 + tb.rate * (t2 - t1) := by
  induction calls generalizing tb t1 with
  | nil => exact (Int.natCast_nonneg _).trans ((h.mono ht).tokens_le.trans (accumulated_le ht))
  | cons call calls ih =>
    obtain ⟨hle, hmeets, hkeeps⟩ := hkeeps
    obtain ⟨⟨hcall, hforce⟩, hcalls⟩ := List.forall_mem_cons.1 hcalls
    obtain ⟨hok, hstep⟩ := (h.mono hle).step hmeets
    obtain ⟨hrate, hburst⟩ := step_inForce hforce
    have hrest := ih hok hkeeps (by rwa [hrate, hburst]) hcall
    have hwait : tb.accumulated call.1 ≤ tb.accumulated t1 + tb.rate * (call.1 - t1) :=
      accumulated_le hle
    have hsplit : tb.rate * (t2 - t1) = tb.rate * (t2 - call.1) + tb.rate * (call.1 - t1) := by
      ring
    rw [hrate] at hrest
    simp only [TokenBucket.run]
    omega

/-- **A bucket keeps its limits** in every run whose calls meet the condition: it never has more
than `burst` tokens, new settings do not add to the tokens it has accumulated, and while its
settings are in force no more than `burst` and those that come in are withdrawn. -/
theorem bucket_limited {rate burst : ℕ} (ht : -2 ^ 63 ≤ t)
    (hkeeps : Keeps t (init rate burst) before) (hbefore : ∀ call ∈ before, call.1 ≤ t1)
    (ht1 : t ≤ t1) :
    let tb := (run before (init rate burst)).2
    tb.tokens ≤ tb.burst ∧
      (∀ rate' burst', tb.Meets (t1, .set rate' burst') →
        (tb.set rate' burst').tokens ≤ tb.accumulated t1 ∧
          (tb.set rate' burst').accumulated t1 ≤ tb.accumulated t1) ∧
      ∀ calls t2, t1 ≤ t2 → Keeps t1 tb calls →
        (∀ call ∈ calls, call.1 ≤ t2 ∧ call.2.InForce tb.rate tb.burst) →
          (run calls tb).1 ≤ tb.burst + tb.rate * (t2 - t1) := by
  intro tb
  have hinit : (init rate burst).Ok t := ⟨Nat.zero_le _, ht⟩
  have hok : tb.Ok t1 := hinit.run hkeeps hbefore ht1
  refine ⟨hok.tokens, fun rate' burst' hmeets => ?_, fun calls t2 ht2 hkeeps hcalls => ?_⟩
  · obtain ⟨htokens, hle⟩ := accumulated_set hmeets
    exact ⟨by rw [htokens]; exact hmeets.2, hle⟩
  · have hle := hok.run_le hkeeps hcalls ht2
    have hburst : tb.accumulated t1 ≤ tb.burst := min_le_left _ _
    omega

/-- A bucket gets new settings for the tokens in it at time 20, and 110 of at most 120 tokens are
withdrawn until time 40. -/
theorem bucket_limited_sixty :
    let tb := (run [(0, .withdraw 40), (20, .set 3 60)] (init 2 100)).2
    (run [(20, .withdraw 61), (20, .withdraw 50), (40, .withdraw 60)] tb).1 = 110 ∧
      (110 : ℤ) ≤ tb.burst + tb.rate * (40 - 20) :=
  ⟨by decide, (bucket_limited (t := 0) (by decide) (by decide) (by decide) (by decide)).2.2
    [(20, .withdraw 61), (20, .withdraw 50), (40, .withdraw 60)] 40 (by decide) (by decide)
    (by simp [Call.InForce])⟩

/-- **More tokens than there should be**: after `token_bucket_set()`, which adds 90 tokens or leaves
90 too many, and in a bucket that has not been filled for a while. -/
theorem tokens_gained :
    let tb := (run [(0, .withdraw 1), (0, .withdraw 89)] (init 1 100)).2
    tb.tokens = 10 ∧ (tb.set 1 100).tokens = 100 ∧ ((tb.set 1 100).set 1 10).tokens = 100 ∧
      (run [(1000, .withdraw 10), (1000, .withdraw 100)] tb).1 = 110 := by
  decide

end TokenBucket

end OVS
