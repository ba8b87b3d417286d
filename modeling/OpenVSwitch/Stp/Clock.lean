import Mathlib.Algebra.BigOperators.Group.List.Basic
import Mathlib.Algebra.Ring.Int.Defs
import Mathlib.Data.List.Induction

/-!
# The clock of a bridge

`stp_tick()` converts milliseconds to timer ticks, of which there are 256 in a second, and keeps
the milliseconds that are left over for the next call.  Both conversions round down, and the second
one is subtracted, so that a part of a millisecond is counted again.

* `clock_accurate_iff` — the number of ticks is right after each call exactly if the parts of a
  millisecond that are counted again never add up to a tick and no product overflows.
* `clock_fast` — five calls for 4 ms each make six ticks, and one for 8388608 ms overflows.
-/

namespace OVS

namespace Stp

open List

/-- The result of arithmetic with `int`s, unless it overflows. -/
def inInt (x : ℤ) : Option ℤ := if -2147483648 ≤ x ∧ x ≤ 2147483647 then some x else none

def clamp (x min max : ℤ) : ℤ := if x < min then min else if max < x then max else x

def msToTimer (ms : ℤ) : Option ℤ := (inInt (ms * 0x100)).map (·.tdiv 1000)

def timerToMs (timer : ℤ) : Option ℤ := (inInt (timer * 1000)).map (·.tdiv 0x100)

/-- What a bridge knows about time. -/
structure Clock where
  elapsedRemainder : ℤ
  /-- The ticks that the timers of the bridge have been advanced by. -/
  ticks : ℤ
deriving DecidableEq

/-- `stp_tick()`, up to what it does with `elapsed`. -/
def tick (c : Clock) (ms : ℤ) : Option Clock := do
  let ms ← inInt (clamp ms 0 (2147483647 - 1000) + c.elapsedRemainder)
  let elapsed ← msToTimer ms
  let elapsedMs ← timerToMs elapsed
  return ⟨ms - elapsedMs, c.ticks + elapsed⟩

/-- Calls of `stp_tick()` for a new bridge. -/
def tickAll (calls : List ℤ) : Option Clock := calls.foldlM tick ⟨0, 0⟩

/-- The ticks in `total` milliseconds. -/
def exactTicks (total : ℤ) : ℤ := total * 256 / 1000

/-- The part of a millisecond, in units of 1/32 ms, that `timer_to_ms()` drops from the ticks of a
call for `ms` after `total` milliseconds, and that is therefore counted again. -/
def dropped (total ms : ℤ) : ℤ := 125 * (exactTicks (total + ms) - exactTicks total) % 32

/-- After `total` milliseconds, of which `gain` units of 1/32 ms have been counted twice, no call
makes the clock gain a whole tick (125 units) and no product with `0x100` overflows. -/
def Spared : ℤ → ℤ → List ℤ → Prop
  | _, _, [] => True
  | total, gain, ms :: calls =>
    32 * (total + ms) % 125 + gain < 125 ∧ 32 * ms + 32 * total % 125 + gain ≤ 32 * 8388607 ∧
      Spared (total + ms) (gain + dropped total ms) calls

instance Spared.decidable : ∀ total gain calls, Decidable (Spared total gain calls)
  | _, _, [] => isTrue trivial
  | total, gain, ms :: calls =>
    have := Spared.decidable (total + ms) (gain + dropped total ms) calls
    inferInstanceAs (Decidable (_ ∧ _ ∧ _))

/-- The clock is right after `total` milliseconds, and `gain` units of 1/32 ms too many are left
for the next call. -/
structure Clock.At (c : Clock) (total gain : ℤ) : Prop where
  ticks : c.ticks = exactTicks total
  remainder : 32 * c.elapsedRemainder = 32 * total % 125 + gain
  nonneg : 0 ≤ gain
  lt : gain < 156

variable {c : Clock} {ms total gain : ℤ} {calls : List ℤ}

lemma exactTicks_eq (total : ℤ) : exactTicks total = 32 * total / 125 := by
  unfold exactTicks
  omega

/-- A call that does not overflow converts the milliseconds, with those left over, to ticks. -/
lemma tick_eq (hms : 0 ≤ ms) (h : 0 ≤ c.elapsedRemainder)
    (hle : ms + c.elapsedRemainder ≤ 8388607) :
    tick c ms = some
      ⟨ms + c.elapsedRemainder - 32 * (ms + c.elapsedRemainder) / 125 * 125 / 32,
        c.ticks + 32 * (ms + c.elapsedRemainder) / 125⟩ := by
  set sum := ms + c.elapsedRemainder with hsum
  have hclamp : clamp ms 0 (2147483647 - 1000) = ms := by
    rw [clamp, if_neg (by omega), if_neg (by omega)]
  have htimer : msToTimer sum = some (32 * sum / 125) := by
    rw [msToTimer, inInt, if_pos (by omega), Option.map_some,
      Int.tdiv_eq_ediv_of_nonneg (by omega)]
    congr 1
    omega
  have hback : timerToMs (32 * sum / 125) = some (32 * sum / 125 * 125 / 32) := by
    rw [timerToMs, inInt, if_pos (by omega), Option.map_some,
      Int.tdiv_eq_ediv_of_nonneg (by omega)]
    congr 1
    omega
  rw [tick, hclamp, ← hsum, inInt, if_pos (by omega)]
  simp [htimer, hback]

/-- A call for more milliseconds, with those left over, overflows in `ms_to_timer()` at the
latest. -/
lemma tick_eq_none (hms : 0 ≤ ms ∧ ms ≤ 2147483647 - 1000)
    (hlt : 8388607 < ms + c.elapsedRemainder) : tick c ms = none := by
  have hclamp : clamp ms 0 (2147483647 - 1000) = ms := by
    rw [clamp, if_neg (by omega), if_neg (by omega)]
  rw [tick, hclamp]
  unfold inInt
  split
  · simp [msToTimer, inInt, show ¬ (ms + c.elapsedRemainder) * 256 ≤ 2147483647 by omega]
  · rfl

/-- **One call** leaves the clock right exactly if it does not make it gain a tick or overflow. -/
lemma Clock.At.tick_iff (h : c.At total gain) (hms : 0 ≤ ms ∧ ms ≤ 2147483647 - 1000) :
    (∃ c', tick c ms = some c' ∧ c'.ticks = exactTicks (total + ms)) ↔
      32 * (total + ms) % 125 + gain < 125 ∧
        32 * ms + 32 * total % 125 + gain ≤ 32 * 8388607 := by
  obtain ⟨hticks, hrem, hnonneg, -⟩ := h
  rw [exactTicks_eq] at *
  by_cases hle : ms + c.elapsedRemainder ≤ 8388607
  · rw [tick_eq hms.1 (by omega) hle]
    simp only [Option.some.injEq, exists_eq_left']
    omega
  · rw [tick_eq_none hms (by omega)]
    simp only [reduceCtorEq, false_and, exists_false, false_iff]
    omega

/-- Such a call leaves what it drops for the next one. -/
lemma Clock.At.tick {c' : Clock} (h : c.At total gain) (hms : 0 ≤ ms)
    (hgain : 32 * (total + ms) % 125 + gain < 125)
    (hle : 32 * ms + 32 * total % 125 + gain ≤ 32 * 8388607)
    (hc' : Stp.tick c ms = some c') : c'.At (total + ms) (gain + dropped total ms) := by
  obtain ⟨hticks, hrem, hnonneg, -⟩ := h
  rw [tick_eq hms (by omega) (by omega)] at hc'
  cases hc'
  rw [dropped, exactTicks_eq, exactTicks_eq] at *
  exact ⟨by rw [exactTicks_eq]; dsimp only; omega, by dsimp only; omega, by omega, by omega⟩

/-- **All calls**, from any state in which the clock is right. -/
lemma Clock.At.tickAll_iff (h : c.At total gain)
    (hcalls : ∀ ms ∈ calls, 0 ≤ ms ∧ ms ≤ 2147483647 - 1000) :
    (∀ k ≤ calls.length, ∃ c', (calls.take k).foldlM Stp.tick c = some c' ∧
      c'.ticks = exactTicks (total + (calls.take k).sum)) ↔ Spared total gain calls := by
  induction calls generalizing c total gain with
  | nil => simpa [Spared] using h.ticks
  | cons ms calls ih =>
    have hms := hcalls ms mem_cons_self
    have hrest := fun ms' hms' => hcalls ms' (mem_cons_of_mem ms hms')
    rw [Spared, ← and_assoc]
    constructor
    · intro hall
      obtain ⟨c', hc', hticks⟩ := hall 1 (by simp)
      have hc' : Stp.tick c ms = some c' := by simpa using hc'
      have hstep := (h.tick_iff hms).mp ⟨c', hc', by simpa using hticks⟩
      refine ⟨hstep, (ih (h.tick hms.1 hstep.1 hstep.2 hc') hrest).mp fun k hk => ?_⟩
      simpa [hc', add_assoc] using hall (k + 1) (by simpa using hk)
    · rintro ⟨hstep, hspared⟩ k hk
      obtain ⟨c', hc', hticks⟩ := (h.tick_iff hms).mpr hstep
      obtain - | k := k
      · exact ⟨c, rfl, by simpa using h.ticks⟩
      · have := (ih (h.tick hms.1 hstep.1 hstep.2 hc') hrest).mpr hspared k (by simpa using hk)
        simpa [hc', add_assoc] using this

/-- **The clock is right** after each of the calls, and none overflows, if and only if the parts of
a millisecond that are counted twice never add up to a tick and no call is for too long. -/
theorem clock_accurate_iff (h : ∀ ms ∈ calls, 0 ≤ ms ∧ ms ≤ 2147483647 - 1000) :
    (∀ k ≤ calls.length, ∃ c, tickAll (calls.take k) = some c ∧
      c.ticks = (calls.take k).sum * 256 / 1000) ↔ Spared 0 0 calls := by
  have hzero : (⟨0, 0⟩ : Clock).At 0 0 := by constructor <;> decide
  simpa [tickAll, exactTicks] using hzero.tickAll_iff h

/-- Calls that count two parts of a millisecond twice, and one for more than two hours. -/
theorem clock_accurate_iff_two :
    (∀ k ≤ 4, ∃ c, tickAll ([4, 4, 117, 8388603].take k) = some c ∧
      c.ticks = ([4, 4, 117, 8388603].take k).sum * 256 / 1000) ∧ ¬ Spared 0 0 [4, 4, 4, 4, 4] :=
  ⟨(@clock_accurate_iff [4, 4, 117, 8388603] (by decide)).mpr (by decide), by decide⟩

/-- **Ticks are gained** if short times are counted one by one, and long times overflow. -/
theorem clock_fast :
    (∃ c, tickAll [4, 4, 4, 4, 4] = some c ∧ 20 * 256 / 1000 < c.ticks) ∧
      tickAll [8388608] = none :=
  ⟨⟨⟨1, 6⟩, by decide, by decide⟩, by decide⟩

end Stp

end OVS
