import OpenVSwitch.Lib.Double
import OpenVSwitch.Lib.Text

/-!
# Hash functions

`lib/hash.h` and `lib/hash.c`, in the variant that does not use the SSE 4.2 instructions, and
`lib/jhash.c`.  Words are read in little-endian byte order.

Every step of `hash_2words()` can be undone, so that for a fixed first word it takes every value
(`hash2words_surjective`).
-/

namespace OVS

def hashRot (x : BitVec 32) (k : ℕ) : BitVec 32 := (x <<< k) ||| (x >>> (32 - k))

/-- `mhash_add__()`. -/
def mhashAddData (hash data : BitVec 32) : BitVec 32 :=
  hash ^^^ (hashRot (data * 0xcc9e2d51) 15 * 0x1b873593)

def mhashAdd (hash data : BitVec 32) : BitVec 32 :=
  hashRot (mhashAddData hash data) 13 * 5 + 0xe6546b64

def mhashFinish (hash : BitVec 32) : BitVec 32 :=
  let hash := hash ^^^ (hash >>> 16)
  let hash := hash * 0x85ebca6b
  let hash := hash ^^^ (hash >>> 13)
  let hash := hash * 0xc2b2ae35
  hash ^^^ (hash >>> 16)

def hashAdd (hash data : BitVec 32) : BitVec 32 := mhashAdd hash data

/-- `hash_add64()`: the low half first. -/
def hashAdd64 (hash : BitVec 32) (data : BitVec 64) : BitVec 32 :=
  hashAdd (hashAdd hash (data.truncate 32)) ((data >>> 32).truncate 32)

def hashFinish (hash final : BitVec 32) : BitVec 32 := mhashFinish (hash ^^^ final)

def hash2words (x y : BitVec 32) : BitVec 32 := hashFinish (hashAdd (hashAdd x 0) y) 8

def hash3words (a b c : BitVec 32) : BitVec 32 :=
  hashFinish (hashAdd (hashAdd (hashAdd a 0) b) c) 12

def hashInt (x basis : BitVec 32) : BitVec 32 := hash2words x basis

def hashBoolean (x : Bool) (basis : BitVec 32) : BitVec 32 :=
  (if x then 0xc2b73583 else 0xe90f1258) ^^^ hashRot basis 1

/-- `hash_double()`: the bits of the double, whatever number they stand for. -/
def hashDouble (x : Double) (basis : BitVec 32) : BitVec 32 :=
  hash3words (x.bits.truncate 32) ((x.bits >>> 32).truncate 32) basis

/-- Up to four bytes as a word, padded with zeros. -/
def wordOfBytes (bs : List UInt8) : BitVec 32 :=
  BitVec.ofNat 32 (bs.foldr (fun b w => b.toNat + 256 * w) 0)

/-- The words that `hash_bytes()` adds: the last one may be a partial word. -/
def bytesToWords : List UInt8 → List (BitVec 32)
  | a :: b :: c :: d :: rest => wordOfBytes [a, b, c, d] :: bytesToWords rest
  | [] => []
  | tail => [wordOfBytes tail]

def hashBytes (bs : List UInt8) (basis : BitVec 32) : BitVec 32 :=
  hashFinish ((bytesToWords bs).foldl hashAdd basis) (BitVec.ofNat 32 bs.length)

def hashString (s : CString) (basis : BitVec 32) : BitVec 32 := hashBytes s.bytes basis

/-! ## The Jenkins hash -/

def jhashRot (x : BitVec 32) (k : ℕ) : BitVec 32 := (x <<< k) ||| (x >>> (32 - k))

/-- One line of `jhash_mix()`. -/
def jhashMixStep (k : ℕ) (a b c : BitVec 32) : BitVec 32 × BitVec 32 × BitVec 32 :=
  ((a - c) ^^^ jhashRot c k, b, c + b)

/-- `jhash_mix()`: the three words take turns in the role of the first. -/
def jhashMix (a b c : BitVec 32) : BitVec 32 × BitVec 32 × BitVec 32 :=
  let (a, b, c) := jhashMixStep 4 a b c
  let (b, c, a) := jhashMixStep 6 b c a
  let (c, a, b) := jhashMixStep 8 c a b
  let (a, b, c) := jhashMixStep 16 a b c
  let (b, c, a) := jhashMixStep 19 b c a
  let (c, a, b) := jhashMixStep 4 c a b
  (a, b, c)

/-- `jhash_final()`, of which the last word is used. -/
def jhashFinal (a b c : BitVec 32) : BitVec 32 :=
  let c := (c ^^^ b) - jhashRot b 14
  let a := (a ^^^ c) - jhashRot c 11
  let b := (b ^^^ a) - jhashRot a 25
  let c := (c ^^^ b) - jhashRot b 16
  let a := (a ^^^ c) - jhashRot c 4
  let b := (b ^^^ a) - jhashRot a 14
  (c ^^^ b) - jhashRot b 24

/-- The loop of `jhash_bytes()` over the words of the `n` bytes that are left.  Less than 12 bytes
are padded with zeros. -/
def jhashBytesFrom (n : ℕ) (a b c : BitVec 32) : List (BitVec 32) → BitVec 32
  | [] => c
  | [p] => jhashFinal (a + p) b c
  | [p, q] => jhashFinal (a + p) (b + q) c
  | p :: q :: r :: rest =>
    if 12 ≤ n then
      let (a, b, c) := jhashMix (a + p) (b + q) (c + r)
      jhashBytesFrom (n - 12) a b c rest
    else
      jhashFinal (a + p) (b + q) (c + r)

def jhashBytes (bs : List UInt8) (basis : BitVec 32) : BitVec 32 :=
  let init := 0xdeadbeef + BitVec.ofNat 32 bs.length + basis
  jhashBytesFrom bs.length init init init (bytesToWords bs)

/-! ## Nothing is lost in a word -/

/-- Rotating further until the word has come round gives it back. -/
lemma hashRot_hashRot (x : BitVec 32) {k : ℕ} (hk : 0 < k) (hk' : k < 32) :
    hashRot (hashRot x k) (32 - k) = x := by
  refine BitVec.eq_of_getLsbD_eq fun i hi => ?_
  have hk'' : 32 - (32 - k) = k := by omega
  have hge : x.getLsbD (32 - k + (k + i)) = false := BitVec.getLsbD_of_ge _ _ (by omega)
  simp only [hashRot, hk'', BitVec.getLsbD_or, BitVec.getLsbD_shiftLeft,
    BitVec.getLsbD_ushiftRight, hge]
  by_cases h : i < 32 - k
  · simp [h, show k + i < 32 by omega]
  · simp [h, hi, show i - (32 - k) < k by omega, show 32 - k + (i - (32 - k)) = i by omega]

lemma hashRot_injective {k : ℕ} (hk : 0 < k) (hk' : k < 32) : Function.Injective (hashRot · k) := by
  have hinv : Function.LeftInverse (hashRot · (32 - k)) (hashRot · k) := fun x =>
    hashRot_hashRot x hk hk'
  exact hinv.injective

/-- A word is determined by its exclusive or with a shift of itself. -/
lemma xorShift_injective {k : ℕ} (hk : 0 < k) :
    Function.Injective fun x : BitVec 32 => x ^^^ (x >>> k) := by
  intro x y (h : x ^^^ x >>> k = y ^^^ y >>> k)
  -- The difference of the words is its own shift, hence zero.
  have hd : x ^^^ y = (x ^^^ y) >>> k := by
    have hx : x = y ^^^ (y >>> k) ^^^ (x >>> k) := by
      rw [← h, BitVec.xor_assoc, BitVec.xor_self, BitVec.xor_zero]
    rw [BitVec.ushiftRight_xor_distrib]
    nth_rewrite 1 [hx]
    rw [BitVec.xor_comm, ← BitVec.xor_assoc, ← BitVec.xor_assoc, BitVec.xor_self,
      BitVec.zero_xor, BitVec.xor_comm]
  have hz : (x ^^^ y).toNat = (x ^^^ y).toNat / 2 ^ k := by
    rw [← Nat.shiftRight_eq_div_pow, ← BitVec.toNat_ushiftRight, ← hd]
  have h0 : (x ^^^ y).toNat = 0 := by
    by_contra hne
    have := Nat.div_lt_self (Nat.pos_of_ne_zero hne) (Nat.one_lt_two_pow hk.ne')
    omega
  exact BitVec.xor_eq_zero_iff.mp (BitVec.eq_of_toNat_eq h0)

lemma mul_injective {a b : BitVec 32} (h : a * b = 1#32) : Function.Injective (· * a) := by
  intro x y hxy
  have hc := congrArg (· * b) hxy
  simpa only [BitVec.mul_assoc, h, BitVec.mul_one] using hc

lemma xor_injective (a : BitVec 32) : Function.Injective (a ^^^ ·) := fun _ _ =>
  (BitVec.xor_right_inj a).mp

lemma hashAdd_injective (hash : BitVec 32) : Function.Injective (hashAdd hash) := by
  have hdata : Function.Injective (mhashAddData hash) :=
    (xor_injective hash).comp <|
      (mul_injective (b := 0x56ed309b) (by decide)).comp <|
        (hashRot_injective (by decide) (by decide)).comp <|
          mul_injective (b := 0xdee13bb1) (by decide)
  exact (add_left_injective _).comp <| (mul_injective (b := 0xcccccccd) (by decide)).comp <|
    (hashRot_injective (by decide) (by decide)).comp hdata

lemma mhashFinish_injective : Function.Injective mhashFinish :=
  (xorShift_injective (by decide)).comp <|
    (mul_injective (b := 0x7ed1b41d) (by decide)).comp <|
      (xorShift_injective (by decide)).comp <|
        (mul_injective (b := 0xa5cb9243) (by decide)).comp <|
          xorShift_injective (by decide)

/-- **For a fixed first word `hash_2words()` takes every value.** -/
lemma hash2words_surjective (x : BitVec 32) : Function.Surjective (hash2words x) := by
  have hxor : Function.Injective fun hash : BitVec 32 => hash ^^^ 8 := fun _ _ =>
    (BitVec.xor_left_inj 8).mp
  have : Finite (BitVec 32) := Finite.of_injective BitVec.toFin fun _ _ => BitVec.eq_of_toFin_eq
  exact Finite.surjective_of_injective
    (mhashFinish_injective.comp (hxor.comp (hashAdd_injective (hashAdd x 0))))

end OVS
