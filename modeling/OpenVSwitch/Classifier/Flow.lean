import OpenVSwitch.Lib.Match

/-!
# Flows as words and as bits

A `struct flow` is memory that the classifier reads in three ways.  Here it is one bit vector, with
the bytes in the order in which they are in memory, so that

* word `i` of 64 bits is the number that a little-endian machine reads there (`word`),
* a field in network byte order is a string of bits from its most significant one on (`beBits`),
* a mask is a bit vector of the same length, and so are the masks of a range of words (`rangeMask`)
  and of the first bits of a field (`prefixMask`).
-/

namespace OVS

open List

def flowU64s : ℕ := 28

/-- The number of bits of a `struct flow`. -/
def flowBits : ℕ := 64 * flowU64s

/-- `struct flow`, or a mask for it. -/
abbrev Flow := BitVec flowBits

/-- The offset of `metadata`, in words of 64 bits. -/
def metadataOfs64 : ℕ := 4

/-- The offset of `conj_id`, in words of 32 bits. -/
def conjIdOfs32 : ℕ := 23

def tpPortsOfs32 : ℕ := 54

def tpPortsOfs64 : ℕ := tpPortsOfs32 / 2

/-- `flow_segment_u64s`: the offsets of `dl_dst`, `nw_src` and `tp_src`. -/
def flowSegmentU64s : List ℕ := [13, 17, 27, flowU64s]

lemma flowSegmentU64s_sorted : flowSegmentU64s.Pairwise (· < ·) := by decide

namespace Flow

/-- The word of 64 bits at an offset. -/
def word (x : Flow) (i : ℕ) : BitVec 64 := x.extractLsb' (64 * i) 64

/-- A word at an offset, and zeros elsewhere. -/
def ofWord (i : ℕ) (v : BitVec 64) : Flow := v.setWidth flowBits <<< (64 * i)

/-- Where bit `k` of a field in network byte order is. -/
def beBit (be32ofs k : ℕ) : ℕ := 8 * (4 * be32ofs + k / 8) + (7 - k % 8)

/-- The first `n` bits of a field in network byte order, `be_get_bit_at()`. -/
def beBits (be32ofs n : ℕ) (x : Flow) : List Bool :=
  (range n).map fun k => x.getLsbD (beBit be32ofs k)

/-- The mask of the first `n` bits of a field. -/
def prefixMask (be32ofs n : ℕ) : Flow :=
  (range n).foldl (fun mask k => mask ||| BitVec.twoPow flowBits (beBit be32ofs k)) 0

/-- The mask of the words from `start` to before `stop`. -/
def rangeMask (start stop : ℕ) : Flow :=
  (BitVec.allOnes flowBits <<< (64 * start)) &&& ~~~(BitVec.allOnes flowBits <<< (64 * stop))

/-! ## Bits -/

@[simp] lemma getLsbD_word (x : Flow) (i j : ℕ) :
    (x.word i).getLsbD j = (decide (j < 64) && x.getLsbD (64 * i + j)) := by
  simp [word]

lemma word_and (x y : Flow) (i : ℕ) : word (x &&& y) i = word x i &&& word y i := by
  refine BitVec.eq_of_getLsbD_eq fun j hj => ?_
  simp only [getLsbD_word, BitVec.getLsbD_and, hj, decide_true, Bool.true_and]

/-- Words that are equal under a mask, bit by bit. -/
lemma getLsbD_of_word_eq {x y : Flow} {b : ℕ} (h : word x (b / 64) = word y (b / 64)) :
    x.getLsbD b = y.getLsbD b := by
  have hbit := congrArg (BitVec.getLsbD · (b % 64)) h
  have hlt : b % 64 < 64 := Nat.mod_lt b (by decide)
  simpa only [getLsbD_word, hlt, decide_true, Bool.true_and, Nat.div_add_mod] using hbit

lemma getLsbD_rangeMask {start stop b : ℕ} (hb : b < flowBits) :
    (rangeMask start stop).getLsbD b = decide (64 * start ≤ b ∧ b < 64 * stop) := by
  simp only [rangeMask, BitVec.getLsbD_and, BitVec.getLsbD_not, BitVec.getLsbD_shiftLeft,
    BitVec.getLsbD_allOnes, hb, decide_true, Bool.true_and]
  have h1 : b - 64 * start < flowBits := by omega
  have h2 : b - 64 * stop < flowBits := by omega
  simp only [h1, h2, decide_true, Bool.and_true]
  rw [Bool.not_not, ← decide_not, ← Bool.decide_and]
  simp only [not_lt]

lemma getLsbD_prefixMask {be32ofs n b : ℕ} (hb : b < flowBits) :
    (prefixMask be32ofs n).getLsbD b = true ↔ ∃ k < n, b = beBit be32ofs k := by
  unfold prefixMask
  induction n with
  | zero => simp
  | succ n ih =>
    rw [range_succ, foldl_append]
    simp only [foldl_cons, foldl_nil, BitVec.getLsbD_or, Bool.or_eq_true, ih,
      BitVec.getLsbD_twoPow, Bool.and_eq_true, decide_eq_true_eq]
    constructor
    · rintro (⟨k, hk, rfl⟩ | ⟨-, rfl⟩)
      · exact ⟨k, by omega, rfl⟩
      · exact ⟨n, by omega, rfl⟩
    · rintro ⟨k, hk, rfl⟩
      obtain hk | rfl := Nat.lt_succ_iff_lt_or_eq.1 hk
      · exact .inl ⟨k, hk, rfl⟩
      · exact .inr ⟨hb, rfl⟩

@[simp] lemma length_beBits (be32ofs n : ℕ) (x : Flow) : (beBits be32ofs n x).length = n := by
  simp [beBits]

lemma getElem?_beBits {be32ofs n k : ℕ} (hk : k < n) (x : Flow) :
    (beBits be32ofs n x)[k]? = some (x.getLsbD (beBit be32ofs k)) := by
  simp [beBits, hk]

/-- Two flows have the same first bits of a field if they have them under its mask. -/
lemma take_beBits_eq {be32ofs n m : ℕ} {x y : Flow}
    (h : x &&& prefixMask be32ofs m = y &&& prefixMask be32ofs m) :
    (beBits be32ofs n x).take m = (beBits be32ofs n y).take m := by
  refine ext_getElem? fun k => ?_
  by_cases hk : k < m
  · rw [getElem?_take_of_lt hk, getElem?_take_of_lt hk]
    by_cases hkn : k < n
    · rw [getElem?_beBits hkn, getElem?_beBits hkn]
      by_cases hb : beBit be32ofs k < flowBits
      · have hbit := congrArg (BitVec.getLsbD · (beBit be32ofs k)) h
        have hmask := (getLsbD_prefixMask hb).2 ⟨k, hk, rfl⟩
        simpa [hmask] using hbit
      · rw [BitVec.getLsbD_of_ge _ _ (not_lt.1 hb), BitVec.getLsbD_of_ge _ _ (not_lt.1 hb)]
    · rw [getElem?_eq_none (by simpa using hkn), getElem?_eq_none (by simpa using hkn)]
  · rw [getElem?_take_eq_none (not_lt.1 hk), getElem?_take_eq_none (not_lt.1 hk)]

end Flow

end OVS
