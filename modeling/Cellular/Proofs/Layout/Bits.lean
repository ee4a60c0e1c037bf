import Cellular.Proofs.Layout.Packing
import Mathlib.Tactic.IntervalCases

/-!
# Words bit by bit

Accessors of state fields work on words: the host on unsigned ones, the shader on signed ones.  Both
kinds are read here as the same 32 bits, so that a statement about words becomes one about single
bits.

* `Words.int_shiftRight` and its siblings say what a shift by a small number does to the bits.
* `Words.lowOnes` is the word of a mask; `Span.toBitVec_mask` says that masks are such words.
* `Span.get_eq_shader` and `Span.set_eq_shader` say that signed words give the same bits of a span,
  although a signed word moves its sign in from the left.

A right shift is where the two kinds of words part.  On an unsigned word zeros move in, on a signed
one copies of the sign.  The words that accessors shift are bytes, which have no sign as a word of
32 bits, and what they shift to the left is cut by a mask first; so the two kinds give the same bits
in every place that is kept.  Both results are proved bit by bit: two words are equal if all their
bits are, and each operation has a lemma for its bits.

Shift counts are given as words as well.  They are below the width of a word in all accessors, and
on such counts a shift by a word is the shift by its number, which the first lemmas say.
-/

namespace Cellular

namespace Words

lemma int_smod {n : Nat} (h : n < 32) : (Int32.ofNat n).toBitVec.smod 32 = BitVec.ofNat 32 n := by
  interval_cases n <;> rfl

lemma uint_mod {n : Nat} (h : n < 32) : (UInt32.ofNat n).toBitVec % 32 = BitVec.ofNat 32 n := by
  interval_cases n <;> rfl

/-- Only words below the width of a word are shift counts, and these are what they look like. -/
lemma toNat_count {n : Nat} (h : n < 32) : (BitVec.ofNat 32 n).toNat = n := by
  rw [BitVec.toNat_ofNat, Nat.mod_eq_of_lt (by omega)]

lemma int_shiftRight (x : Int32) {n : Nat} (h : n < 32) :
    (x >>> Int32.ofNat n).toBitVec = x.toBitVec.sshiftRight n := by
  rw [Int32.toBitVec_shiftRight, int_smod h, BitVec.sshiftRight', toNat_count h]

lemma int_shiftLeft (x : Int32) {n : Nat} (h : n < 32) :
    (x <<< Int32.ofNat n).toBitVec = x.toBitVec <<< n := by
  rw [Int32.toBitVec_shiftLeft, int_smod h, BitVec.shiftLeft_eq', toNat_count h]

lemma uint_shiftRight (x : UInt32) {n : Nat} (h : n < 32) :
    (x >>> UInt32.ofNat n).toBitVec = x.toBitVec >>> n := by
  rw [UInt32.toBitVec_shiftRight, uint_mod h, BitVec.ushiftRight_eq', toNat_count h]

lemma uint_shiftLeft (x : UInt32) {n : Nat} (h : n < 32) :
    (x <<< UInt32.ofNat n).toBitVec = x.toBitVec <<< n := by
  rw [UInt32.toBitVec_shiftLeft, uint_mod h, BitVec.shiftLeft_eq', toNat_count h]

/-- The word whose lowest `n` bits are set. -/
def lowOnes (n : Nat) : BitVec 32 := BitVec.ofNat 32 (2 ^ n - 1)

lemma getLsbD_lowOnes {n : Nat} (h : n ≤ 32) (i : Nat) :
    (lowOnes n).getLsbD i = decide (i < n) := by
  rw [lowOnes, BitVec.getLsbD_ofNat, Nat.testBit_two_pow_sub_one]
  by_cases hi : i < n
  · simp only [hi, decide_true, Bool.and_true, decide_eq_true_eq]
    omega
  · simp [hi]

/-- A byte read as a word has no sign. -/
lemma msb_byte (b : BitVec 8) : (b.setWidth 32).msb = false := by
  simp [BitVec.msb_setWidth]

end Words

open Words

namespace Span

lemma InRecord.low_add_length_le {s : Span} (h : s.InRecord) : s.low + s.length ≤ 8 := by
  have hhigh := h.high_le
  have hlow := h.low_le
  simp only [length]
  omega

lemma lengthAll_append (ss ts : List Span) :
    lengthAll (ss ++ ts) = lengthAll ss + lengthAll ts := by
  induction ss with
  | nil => simp [lengthAll]
  | cons s ss ih => simp [lengthAll, ih, Nat.add_assoc]

lemma lengthAll_reverse (ss : List Span) : lengthAll ss.reverse = lengthAll ss := by
  induction ss with
  | nil => rfl
  | cons s ss ih =>
      rw [List.reverse_cons, lengthAll_append, ih, lengthAll, lengthAll, lengthAll]
      omega

lemma toBitVec_mask {s : Span} (h : s.length ≤ 8) : s.mask.toBitVec = lowOnes s.length := by
  rw [mask]
  interval_cases s.length <;> rfl

/-- Reading a span of a byte gives the same bits on signed words: a byte has no sign to move in. -/
lemma get_eq_shader {s : Span} (h : s.InRecord) (b : UInt8) :
    (b.toUInt32.toInt32 >>> Int32.ofNat s.low) &&& Int32.ofNat (2 ^ s.length - 1)
      = ((b.toUInt32 >>> UInt32.ofNat s.low) &&& s.mask).toInt32 := by
  have hlen := h.low_add_length_le
  have hmask : (Int32.ofNat (2 ^ s.length - 1)).toBitVec = lowOnes s.length := rfl
  apply Int32.toBitVec.inj
  rw [Int32.toBitVec_and, int_shiftRight _ (by omega), hmask, UInt32.toBitVec_toInt32,
    UInt32.toBitVec_toInt32, UInt32.toBitVec_and, uint_shiftRight _ (by omega),
    toBitVec_mask (by omega), UInt8.toBitVec_toUInt32,
    BitVec.sshiftRight_eq_of_msb_false (msb_byte b.toBitVec)]

/-- Writing a span of a byte gives the same byte on signed words, if both values agree on the bits
that the span has room for. -/
lemma set_eq_shader {s : Span} (h : s.InRecord) (b : UInt8) {x : Int32} {v : UInt32}
    (hxv : ∀ i < s.length, x.toBitVec.getLsbD i = v.toBitVec.getLsbD i) :
    (b.toUInt32.toInt32 &&& ~~~(Int32.ofNat (2 ^ s.length - 1) <<< Int32.ofNat s.low))
        ||| ((x &&& Int32.ofNat (2 ^ s.length - 1)) <<< Int32.ofNat s.low)
      = ((b.toUInt32 &&& ~~~(s.mask <<< UInt32.ofNat s.low))
          ||| ((v &&& s.mask) <<< UInt32.ofNat s.low)).toUInt8.toUInt32.toInt32 := by
  have hlen := h.low_add_length_le
  have hlow : s.low < 32 := by omega
  have hmask : (Int32.ofNat (2 ^ s.length - 1)).toBitVec = lowOnes s.length := rfl
  apply Int32.toBitVec.inj
  simp only [Int32.toBitVec_or, Int32.toBitVec_and, Int32.toBitVec_not, UInt32.toBitVec_and,
    UInt32.toBitVec_or, UInt32.toBitVec_not, int_shiftLeft _ hlow, uint_shiftLeft _ hlow,
    UInt32.toBitVec_toInt32, UInt8.toBitVec_toUInt32, UInt32.toBitVec_toUInt8,
    toBitVec_mask (show s.length ≤ 8 by omega), hmask]
  refine BitVec.eq_of_getLsbD_eq fun i hi => ?_
  simp only [BitVec.getLsbD_or, BitVec.getLsbD_and, BitVec.getLsbD_not, BitVec.getLsbD_shiftLeft,
    BitVec.getLsbD_setWidth, getLsbD_lowOnes (show s.length ≤ 32 by omega), hi]
  by_cases hbyte : i < 8
  · by_cases hbelow : i < s.low
    · simp [hbyte, hbelow]
    · by_cases hin : i - s.low < s.length
      · simp [hbyte, hbelow, hin, hxv _ hin]
      · simp [hbyte, hbelow, hin]
  · -- the span ends inside the byte, so nothing is written above it
    have hout : ¬ i - s.low < s.length := by omega
    simp [hbyte, hout, BitVec.getLsbD_of_ge b.toBitVec i (by omega)]

end Span

end Cellular
