import Cellular.Proofs.Layout.Bits
import Mathlib.Data.List.Nodup
import Mathlib.Data.List.Pairwise
import Mathlib.Data.List.Perm.Basic

/-!
# Fields are independent lenses

A field reads and writes certain bits of a record and no others.  Once it is known which bit of the
value lies at which bit of the record, the laws of reading and writing are statements about single
bits.

* `Record.bit` is a bit of a record by its number; records with the same bits are equal
  (`Record.ext_bit`).
* `Field.places` are the numbers of the bits of a field, in the order of the bits of its value.
* `Field.getLsbD_get` and `Field.bit_set` say what reading and writing a field do to single bits.
* `Layout.accessors_lawful`: the accessors of a packed layout are lenses, and those of different
  fields do not touch each other.

The value of a field is spread over spans, the lowest bits of the value in the span that lies
farthest behind.  `Field.places` straightens this out: it is the list of record bits in the order of
the bits of the value, and a field reads and writes through it as if it were one piece.  With the
two lemmas on single bits, a law of lenses is a fact about positions in a list without repetitions.
That the lists of different fields have no number in common is what the tiling of the record gives.
-/

namespace Cellular

open Words

/-! ## The bits of a record

Records are four bytes.  They are compared bit by bit, under the numbering that layouts use.
-/

namespace Record

/-- The bit of a record with a given number. -/
def bit (c : Record) (n : Nat) : Bool := (c.byte (n / 8)).toBitVec.getLsbD (n % 8)

lemma bit_of_lt (c : Record) (b : Nat) {i : Nat} (h : i < 8) :
    c.bit (8 * b + i) = (c.byte b).toBitVec.getLsbD i := by
  have hbyte : (8 * b + i) / 8 = b := by omega
  have hbit : (8 * b + i) % 8 = i := by omega
  rw [bit, hbyte, hbit]

lemma byte_setByte {n : Nat} (h : n ≤ 3) (c : Record) (v : UInt8) (m : Nat) :
    (c.setByte n v).byte m = if m = n then v else c.byte m := by
  interval_cases n <;> rcases m with _ | _ | _ | _ | m <;> rfl

/-- Records with the same bits are equal. -/
lemma ext_bit {c d : Record} (h : ∀ n, c.bit n = d.bit n) : c = d := by
  have hbyte : ∀ b, c.byte b = d.byte b := by
    intro b
    apply UInt8.eq_of_toBitVec_eq
    refine BitVec.eq_of_getLsbD_eq fun i hi => ?_
    rw [← c.bit_of_lt b hi, ← d.bit_of_lt b hi, h]
  cases c
  cases d
  exact congr (congr (congr (congrArg Record.mk (hbyte 0)) (hbyte 1)) (hbyte 2)) (hbyte 3)

end Record

/-! ## The bits of a span

A span reads a byte by shifting and masking it, and writes it by clearing its bits and setting them
anew.  All words are 32 bits wide here although the bytes are not, which is why the bounds of the
span inside its byte come in.
-/

namespace Span

/-- The number of the lowest bit of a span. -/
def first (s : Span) : Nat := 8 * s.byte + s.low

lemma mem_bits {s : Span} {n : Nat} : n ∈ s.bits ↔ s.first ≤ n ∧ n < s.first + s.length := by
  rw [bits, List.mem_range'_1, first]

@[simp] lemma length_bits (s : Span) : s.bits.length = s.length := List.length_range'

lemma getElem?_bits {s : Span} {i : Nat} (h : i < s.length) : s.bits[i]? = some (s.first + i) := by
  rw [bits, List.getElem?_range' h, first, Nat.one_mul]

lemma getLsbD_get {s : Span} (h : s.InRecord) (c : Record) (i : Nat) :
    (s.get c).toBitVec.getLsbD i = (decide (i < s.length) && c.bit (s.first + i)) := by
  have hlen := h.low_add_length_le
  rw [get, UInt32.toBitVec_and, uint_shiftRight _ (by omega), toBitVec_mask (by omega),
    UInt8.toBitVec_toUInt32, BitVec.getLsbD_and, BitVec.getLsbD_ushiftRight, BitVec.getLsbD_setWidth,
    getLsbD_lowOnes (by omega)]
  by_cases hi : i < s.length
  · rw [first, Nat.add_assoc, c.bit_of_lt s.byte (by omega)]
    simp only [hi, decide_true, Bool.and_true, Bool.true_and, Bool.and_eq_right_iff_imp,
      decide_eq_true_eq]
    omega
  · simp [hi]

/-- What is written into a span of a byte, bit by bit. -/
lemma getLsbD_written {s : Span} (h : s.InRecord) (b : UInt8) (v : UInt32) {i : Nat} (hi : i < 8) :
    ((b.toUInt32 &&& ~~~(s.mask <<< UInt32.ofNat s.low))
        ||| ((v &&& s.mask) <<< UInt32.ofNat s.low)).toUInt8.toBitVec.getLsbD i
      = if s.low ≤ i ∧ i < s.low + s.length then v.toBitVec.getLsbD (i - s.low)
        else b.toBitVec.getLsbD i := by
  have hlen := h.low_add_length_le
  have hlow : s.low < 32 := by omega
  simp only [UInt32.toBitVec_toUInt8, UInt32.toBitVec_or, UInt32.toBitVec_and, UInt32.toBitVec_not,
    UInt8.toBitVec_toUInt32, uint_shiftLeft _ hlow, toBitVec_mask (show s.length ≤ 8 by omega),
    BitVec.getLsbD_setWidth, BitVec.getLsbD_or, BitVec.getLsbD_and, BitVec.getLsbD_not,
    BitVec.getLsbD_shiftLeft, getLsbD_lowOnes (show s.length ≤ 32 by omega)]
  have hword : i < 32 := by omega
  by_cases hbelow : i < s.low
  · have hout : ¬ (s.low ≤ i ∧ i < s.low + s.length) := by omega
    simp [hi, hword, hbelow, hout]
  · by_cases hin : i - s.low < s.length
    · have hmem : s.low ≤ i ∧ i < s.low + s.length := by omega
      simp [hi, hword, hbelow, hin, hmem]
    · have hout : ¬ (s.low ≤ i ∧ i < s.low + s.length) := by omega
      simp [hi, hword, hbelow, hin, hout]

/-- Writing a span changes its own bits and no others. -/
lemma bit_set {s : Span} (h : s.InRecord) (c : Record) (v : UInt32) (n : Nat) :
    (s.set c v).bit n = if n ∈ s.bits then v.toBitVec.getLsbD (n - s.first) else c.bit n := by
  have hlen := h.low_add_length_le
  have hmod : n % 8 < 8 := Nat.mod_lt _ (by decide)
  rw [Record.bit, set, Record.byte_setByte h.byte_le]
  split_ifs with hbyte hmem hmem
  · rw [mem_bits, first] at hmem
    rw [getLsbD_written h _ _ hmod, if_pos (by omega), first]
    congr 1
    omega
  · rw [mem_bits, first] at hmem
    rw [getLsbD_written h _ _ hmod, if_neg (by omega), Record.bit, hbyte]
  · rw [mem_bits, first] at hmem
    omega
  · rfl

end Span

/-! ## The bits of a field

A field reads its spans from the last to the first and moves what it has by the length of each; it
writes them in the same order and takes its value down.  Both are folds, and the lemmas on lists of
spans are the inductions behind them.
-/

namespace Field

/-- What lists of spans read: below their own bits the bits that were read before. -/
lemma getLsbD_getSpans (c : Record) {ss : List Span} (h : ∀ s ∈ ss, s.InRecord) :
    ∀ (v : UInt32) {i : Nat}, i < 32 →
      (getSpans c v ss).toBitVec.getLsbD i
        = match (ss.reverse.flatMap Span.bits)[i]? with
          | some n => c.bit n
          | none => v.toBitVec.getLsbD (i - (ss.reverse.flatMap Span.bits).length) := by
  induction ss with
  | nil =>
      intro v i hi
      simp [getSpans]
  | cons s more ih =>
      intro v i hi
      obtain ⟨hs, hmore⟩ := List.forall_mem_cons.mp h
      have hlen := hs.low_add_length_le
      rw [getSpans, ih hmore _ hi]
      simp only [List.reverse_cons, List.flatMap_append, List.flatMap_cons, List.flatMap_nil,
        List.append_nil, List.length_append, Span.length_bits]
      generalize (more.reverse.flatMap Span.bits) = front
      by_cases hfront : i < front.length
      · rw [List.getElem?_append_left hfront, List.getElem?_eq_getElem hfront]
      · rw [List.getElem?_append_right (by omega), List.getElem?_eq_none (by omega)]
        simp only [UInt32.toBitVec_or, uint_shiftLeft v (show s.length < 32 by omega),
          BitVec.getLsbD_or, BitVec.getLsbD_shiftLeft, Span.getLsbD_get hs]
        by_cases hin : i - front.length < s.length
        · rw [Span.getElem?_bits hin]
          simp [hin]
        · rw [List.getElem?_eq_none (by rw [Span.length_bits]; omega)]
          simp only [hin, decide_false, Bool.not_false, Bool.false_and, Bool.or_false,
            Bool.and_true, Nat.sub_sub]
          simp only [Bool.and_eq_right_iff_imp, decide_eq_true_eq]
          omega

/-- Spans leave all other bits alone. -/
lemma bit_setSpans_of_notMem {ss : List Span} (h : ∀ s ∈ ss, s.InRecord) {n : Nat}
    (hn : n ∉ ss.flatMap Span.bits) :
    ∀ (c : Record) (v : UInt32), (setSpans c v ss).bit n = c.bit n := by
  induction ss with
  | nil => exact fun c v => rfl
  | cons s more ih =>
      intro c v
      obtain ⟨hs, hmore⟩ := List.forall_mem_cons.mp h
      rw [List.flatMap_cons, List.mem_append, not_or] at hn
      rw [setSpans, ih hmore hn.2, Span.bit_set hs, if_neg hn.1]

/-- Spans take the bits of a value in turn.  No bit is written twice, so what a span has written
stays. -/
lemma bit_setSpans_of_getElem? {ss : List Span} (h : ∀ s ∈ ss, s.InRecord)
    (hnodup : (ss.flatMap Span.bits).Nodup) {n : Nat} :
    ∀ (c : Record) (v : UInt32) {i : Nat}, (ss.flatMap Span.bits)[i]? = some n →
      (setSpans c v ss).bit n = v.toBitVec.getLsbD i := by
  induction ss with
  | nil =>
      intro c v i hi
      simp at hi
  | cons s more ih =>
      intro c v i hi
      obtain ⟨hs, hmore⟩ := List.forall_mem_cons.mp h
      have hlen := hs.low_add_length_le
      rw [List.flatMap_cons] at hnodup hi
      obtain ⟨-, hrest, hdisjoint⟩ := List.nodup_append.mp hnodup
      rw [setSpans]
      by_cases hin : i < s.length
      · rw [List.getElem?_append_left (by rw [Span.length_bits]; exact hin), Span.getElem?_bits hin,
          Option.some.injEq] at hi
        have hmem : n ∈ s.bits := Span.mem_bits.mpr (by omega)
        have hother : n ∉ more.flatMap Span.bits := fun hn => hdisjoint n hmem n hn rfl
        rw [bit_setSpans_of_notMem hmore hother, Span.bit_set hs, if_pos hmem]
        congr 1
        omega
      · rw [List.getElem?_append_right (by rw [Span.length_bits]; omega), Span.length_bits] at hi
        rw [ih hmore hrest _ _ hi, uint_shiftRight v (show s.length < 32 by omega),
          BitVec.getLsbD_ushiftRight]
        congr 1
        omega

/-- The numbers of the bits of a field; the bit of the value with number `i` lies at the `i`-th of
them. -/
def places (f : Field) : List Nat := f.spans.reverse.flatMap Span.bits

lemma places_perm (f : Field) : f.places.Perm (f.spans.flatMap Span.bits) :=
  f.spans.reverse_perm.flatMap_right _

lemma length_flatMap_bits (ss : List Span) :
    (ss.flatMap Span.bits).length = Span.lengthAll ss := by
  induction ss with
  | nil => rfl
  | cons s more ih => simp [Span.lengthAll, ih]

@[simp] lemma length_places (f : Field) : f.places.length = f.width := by
  rw [places, length_flatMap_bits, Span.lengthAll_reverse, width]

/-- A field that can be read and written bit by bit. -/
structure Separate (f : Field) : Prop where
  inRecord : ∀ s ∈ f.spans, s.InRecord
  width_le : f.width ≤ 32
  nodup : f.places.Nodup

variable {f g : Field}

/-- Reading a field: bit `i` of the value is the bit of the record at the `i`-th place. -/
lemma getLsbD_get (hf : f.Separate) (c : Record) (i : Nat) :
    (f.get c).toBitVec.getLsbD i = match f.places[i]? with
      | some n => c.bit n
      | none => false := by
  by_cases hi : i < 32
  · rw [get, getLsbD_getSpans c hf.inRecord 0 hi, places]
    simp
  · have hwidth := hf.width_le
    rw [BitVec.getLsbD_of_ge _ i (by omega), List.getElem?_eq_none (by rw [length_places]; omega)]

/-- Writing a field: the record bit at the `i`-th place becomes bit `i` of the value, and all other
bits stay. -/
lemma bit_set (hf : f.Separate) (c : Record) (v : UInt32) (n : Nat) :
    (f.set c v).bit n
      = if n ∈ f.places then v.toBitVec.getLsbD (f.places.idxOf n) else c.bit n := by
  have hrecord : ∀ s ∈ f.spans.reverse, s.InRecord :=
    fun s hs => hf.inRecord s (List.mem_reverse.mp hs)
  rw [set]
  split_ifs with hn
  · exact bit_setSpans_of_getElem? hrecord hf.nodup c v (List.getElem?_idxOf hn)
  · exact bit_setSpans_of_notMem hrecord hn c v

/-- Equal bits at the places of a field are read as equal values. -/
lemma get_congr (hf : f.Separate) {c d : Record} (h : ∀ n ∈ f.places, c.bit n = d.bit n) :
    f.get c = f.get d := by
  apply UInt32.eq_of_toBitVec_eq
  refine BitVec.eq_of_getLsbD_eq fun i _ => ?_
  rw [getLsbD_get hf, getLsbD_get hf]
  split
  · rename_i n hn
    exact h n (List.mem_of_getElem? hn)
  · rfl

/-- What was written is read, cut to the width of the field. -/
lemma get_set_self (hf : f.Separate) (c : Record) (v : UInt32) :
    (f.get (f.set c v)).toNat = v.toNat % 2 ^ f.width := by
  apply Nat.eq_of_testBit_eq
  intro i
  rw [Nat.testBit_mod_two_pow]
  change (f.get (f.set c v)).toBitVec.getLsbD i = (decide (i < f.width) && v.toBitVec.getLsbD i)
  rw [getLsbD_get hf]
  by_cases hi : i < f.places.length
  · have hmem : f.places[i] ∈ f.places := List.getElem_mem hi
    rw [List.getElem?_eq_getElem hi]
    simp only [bit_set hf, hmem, if_true, hf.nodup.idxOf_getElem i hi]
    rw [length_places] at hi
    simp [hi]
  · rw [List.getElem?_eq_none (by omega)]
    rw [length_places] at hi
    simp [hi]

lemma set_get_self (hf : f.Separate) (c : Record) : f.set c (f.get c) = c := by
  refine Record.ext_bit fun n => ?_
  rw [bit_set hf]
  split_ifs with hn
  · rw [getLsbD_get hf, List.getElem?_idxOf hn]
  · rfl

lemma set_set_self (hf : f.Separate) (c : Record) (v w : UInt32) :
    f.set (f.set c v) w = f.set c w := by
  refine Record.ext_bit fun n => ?_
  simp only [bit_set hf]
  split_ifs <;> rfl

lemma get_set_of_disjoint (hf : f.Separate) (hg : g.Separate) (h : f.places.Disjoint g.places)
    (c : Record) (v : UInt32) : g.get (f.set c v) = g.get c := by
  refine get_congr hg fun n hn => ?_
  rw [bit_set hf, if_neg (fun hf' => h hf' hn)]

lemma set_comm_of_disjoint (hf : f.Separate) (hg : g.Separate) (h : f.places.Disjoint g.places)
    (c : Record) (v w : UInt32) : f.set (g.set c w) v = g.set (f.set c v) w := by
  refine Record.ext_bit fun n => ?_
  simp only [bit_set hf, bit_set hg]
  split_ifs with hnf hng
  · exact absurd hng (h hnf)
  · rfl
  · rfl
  · rfl

end Field

/-! ## Packed layouts

Packing gives fields whose places do not overlap, and so all laws hold of them without a condition.
-/

namespace Layout

/-- No bit of a packed layout belongs to two spans. -/
lemma nodup_bits_of_pack {specs : List FieldSpec} {l : Layout} (h : pack specs = .ok l) :
    (l.fields.flatMap fun f => f.spans.flatMap Span.bits).Nodup := by
  obtain ⟨-, -, -, rfl⟩ := (pack_ok_iff _ _).mp h
  rw [FieldSpec.bits_fieldsFrom]
  exact List.nodup_range'

lemma separate_of_pack {specs : List FieldSpec} {l : Layout} (h : pack specs = .ok l) {f : Field}
    (hf : f ∈ l.fields) : f.Separate where
  inRecord := (placed_of_pack h hf).inRecord
  width_le := (placed_of_pack h hf).width_le
  nodup := by
    rw [f.places_perm.nodup_iff]
    exact (List.nodup_flatMap.mp (nodup_bits_of_pack h)).1 f hf

/-- Different fields of a packed layout have no bit in common. -/
lemma disjoint_of_pack {specs : List FieldSpec} {l : Layout} (h : pack specs = .ok l) {f g : Field}
    (hf : f ∈ l.fields) (hg : g ∈ l.fields) (hne : f.name ≠ g.name) :
    f.places.Disjoint g.places := by
  have hpairs := (List.nodup_flatMap.mp (nodup_bits_of_pack h)).2
  have : Std.Symm (Function.onFun List.Disjoint fun f : Field => f.spans.flatMap Span.bits) :=
    ⟨fun _ _ hxy _ hx hy => hxy hy hx⟩
  have hdisjoint := hpairs.forall hf hg (fun heq => hne (heq ▸ rfl))
  intro n hnf hng
  exact hdisjoint (f.places_perm.mem_iff.mp hnf) (g.places_perm.mem_iff.mp hng)

/-- **The accessors of a packed layout are independent lenses.**  A field reads what was written to
it, cut to its width; writing back what was read changes nothing; of two writes the second counts; a
write changes no bit outside the spans of its field; and accessors of fields with different names do
not see each other. -/
theorem accessors_lawful {specs : List FieldSpec} {l : Layout} (h : pack specs = .ok l) :
    (∀ f ∈ l.fields, ∀ (r : Record) (v w : UInt32),
      (f.get (f.set r v)).toNat = v.toNat % 2 ^ f.width ∧
      (∀ n, (∀ s ∈ f.spans, n ∉ s.bits) → (f.set r v).bit n = r.bit n) ∧
      f.set r (f.get r) = r ∧
      f.set (f.set r v) w = f.set r w) ∧
    (∀ f ∈ l.fields, ∀ g ∈ l.fields, f.name ≠ g.name → ∀ (r : Record) (v w : UInt32),
      g.get (f.set r v) = g.get r ∧
      f.set (g.set r w) v = g.set (f.set r v) w) := by
  constructor
  · intro f hf r v w
    have hsep := separate_of_pack h hf
    refine ⟨Field.get_set_self hsep r v, fun n hn => ?_, Field.set_get_self hsep r,
      Field.set_set_self hsep r v w⟩
    have hout : n ∉ f.places := by
      rw [f.places_perm.mem_iff, List.mem_flatMap]
      rintro ⟨s, hs, hmem⟩
      exact hn s hs hmem
    rw [Field.bit_set hsep, if_neg hout]
  · intro f hf g hg hne r v w
    have hdisjoint := disjoint_of_pack h hf hg hne
    have hsep := separate_of_pack h hf
    have hsep' := separate_of_pack h hg
    exact ⟨Field.get_set_of_disjoint hsep hsep' hdisjoint r v,
      Field.set_comm_of_disjoint hsep hsep' hdisjoint r v w⟩

/-- A flag and a number behind it, which share a byte. -/
theorem accessors_lawful_flagAndAge :
    ∃ l f g, pack flagAndAge = .ok l ∧ f ∈ l.fields ∧ g ∈ l.fields ∧ f.name = "alive" ∧
      g.name = "age" ∧ (g.get (g.set ⟨255, 255, 0, 0⟩ 1500)).toNat = 1500 % 2 ^ g.width ∧
      f.get (g.set ⟨255, 255, 0, 0⟩ 1500) = f.get ⟨255, 255, 0, 0⟩ := by
  obtain ⟨l, h⟩ : ∃ l, pack flagAndAge = .ok l :=
    ⟨_, (pack_ok_iff _ _).mpr ⟨by decide, by decide, by decide, rfl⟩⟩
  obtain ⟨f, hf, g, hg, hflag, hage⟩ :
      ∃ f ∈ l.fields, ∃ g ∈ l.fields, f.name = "alive" ∧ g.name = "age" := by
    obtain ⟨-, -, -, rfl⟩ := (pack_ok_iff _ _).mp h
    exact ⟨_, List.mem_cons_self, _, List.mem_cons_of_mem _ List.mem_cons_self, rfl, rfl⟩
  have hne : g.name ≠ f.name := by
    rw [hflag, hage]
    decide
  exact ⟨l, f, g, h, hf, hg, hflag, hage,
    ((accessors_lawful h).1 g hg ⟨255, 255, 0, 0⟩ 1500 0).1,
    ((accessors_lawful h).2 g hg f hf hne ⟨255, 255, 0, 0⟩ 1500 0).1⟩

end Layout

end Cellular
