import Cellular.Layout.Basic
import Cellular.Proofs.Success
import Mathlib.Algebra.BigOperators.Group.List.Basic
import Mathlib.Algebra.Ring.Nat

/-!
# Packed layouts tile the record

The bits of a record are numbered across its bytes: bit `b` of byte `n` has the number `8 n + b`.
Under this numbering a layout is a tiling.

* `Span.bits` are the numbers of the bits of a span; `BitCursor.bits_cover` says that the spans of a
  field run through consecutive numbers, whatever byte edges lie between.
* `FieldSpec.Declarable` is what one declared field must satisfy by itself;
  `FieldSpec.placeAll_ok_iff` says what the fields must satisfy together.
* `Layout.pack_ok_iff` describes the lists of declared fields that can be packed, and what they are
  packed to.
* `Layout.pack_tiles` puts these together.

The recursion of `BitCursor.cover` takes off one span at a time, so a fact about the spans of a
field is proved by `BitCursor.cover_induction`: for no bits at all, and for the bits behind a span
if it holds of what is left.  Packing itself is two loops in one, a check of each field and the move
of the cursor behind it.  `FieldSpec.placeAll_ok_iff` separates them: `FieldSpec.fieldsFrom` places
fields without any check, and what the checks demand is a condition on the declared fields alone.
All later facts about packed layouts are then facts about `fieldsFrom`.
-/

namespace Cellular

/-! ## The bits of spans

A span lies inside a byte and counts bits from the lowest one on.  Numbering the bits of all bytes
in a row makes a span an interval of numbers, and a tiling a statement about lists of numbers.
-/

namespace Span

/-- The numbers of the bits of a span, in order. -/
def bits (s : Span) : List Nat := List.range' (8 * s.byte + s.low) s.length

/-- A span that lies inside one of the four bytes of a record. -/
structure InRecord (s : Span) : Prop where
  byte_le : s.byte ≤ 3
  low_le : s.low ≤ s.high
  high_le : s.high ≤ 7

end Span

/-! ## The way of the cursor

A cursor has a position, the number of the next free bit.  Taking a span moves it by the length of
the span, whether it stays inside the byte or goes on to the next one.  This is the only place where
byte edges are looked at; from here on a field is an interval.
-/

namespace BitCursor

@[simp] lemma position_start : start.position = 0 := rfl

@[simp] lemma position_advance (c : BitCursor) (n : Nat) (h : c.bit + n ≤ 8) :
    (c.advance n h).position = c.position + n := by
  rw [advance]
  split_ifs with hend
  · simp only [position]
    omega
  · simp only [position]
    omega

@[simp] lemma position_next (c : BitCursor) (width : Nat) :
    (c.next width).position = c.position + c.room width := by
  rw [next, position_advance]

lemma room_le (c : BitCursor) (width : Nat) : c.room width ≤ width := Nat.min_le_left _ _

lemma length_span (c : BitCursor) {width : Nat} (h : width ≠ 0) :
    (c.span width).length = c.room width := by
  have hpos := c.room_pos h
  simp only [span, Span.length]
  omega

lemma bits_span (c : BitCursor) {width : Nat} (h : width ≠ 0) :
    (c.span width).bits = List.range' c.position (c.room width) := by
  rw [Span.bits, c.length_span h]
  simp only [span, position]
  rw [Nat.mul_comm]

/-- A span that starts inside the record lies inside one of its bytes. -/
lemma span_inRecord (c : BitCursor) {width : Nat} (h : width ≠ 0)
    (hroom : c.position < recordBits) : (c.span width).InRecord := by
  have hpos := c.room_pos h
  have hle := c.bit_add_room_le width
  simp only [position, recordBits] at hroom
  refine ⟨?_, ?_, ?_⟩
  · simp only [span]
    omega
  · simp only [span]
    omega
  · simp only [span]
    omega

/-- A fact about the spans of a field by induction over its bits: the step takes off one span. -/
lemma cover_induction {motive : BitCursor → Nat → Prop} (zero : ∀ c, motive c 0)
    (step : ∀ c width, width ≠ 0 → motive (c.next width) (width - c.room width) → motive c width) :
    ∀ c width, motive c width := by
  intro c width
  induction width using Nat.strongRecOn generalizing c with
  | _ width ih =>
      by_cases h : width = 0
      · rw [h]
        exact zero c
      · have hpos := c.room_pos h
        exact step c width h (ih _ (by omega) _)

@[simp] lemma cover_zero (c : BitCursor) (found : List Span) :
    c.cover 0 found = (found.reverse, c) := by
  rw [cover]
  rfl

lemma cover_step (c : BitCursor) {width : Nat} (h : width ≠ 0) (found : List Span) :
    c.cover width found
      = (c.next width).cover (width - c.room width) (c.span width :: found) := by
  rw [cover, if_neg h]

/-- What was found before stands in front. -/
lemma cover_found (c : BitCursor) (width : Nat) : ∀ found : List Span,
    c.cover width found = (found.reverse ++ (c.cover width []).1, (c.cover width []).2) := by
  induction c, width using cover_induction with
  | zero c => simp
  | step c width h ih =>
      intro found
      rw [c.cover_step h, ih, c.cover_step h [], ih [c.span width]]
      simp

lemma cover_of_ne_zero (c : BitCursor) {width : Nat} (h : width ≠ 0) :
    c.cover width []
      = (c.span width :: ((c.next width).cover (width - c.room width) []).1,
          ((c.next width).cover (width - c.room width) []).2) := by
  rw [c.cover_step h, cover_found]
  rfl

/-- The cursor behind a field. -/
lemma position_cover (c : BitCursor) (width : Nat) :
    (c.cover width []).2.position = c.position + width := by
  induction c, width using cover_induction with
  | zero c => simp
  | step c width h ih =>
      have hle := c.room_le width
      rw [c.cover_of_ne_zero h, ih, position_next]
      omega

/-- **The spans of a field run through consecutive bits.**  A span that ends at a byte edge is
followed by the first bit of the next byte. -/
lemma bits_cover (c : BitCursor) (width : Nat) :
    (c.cover width []).1.flatMap Span.bits = List.range' c.position width := by
  induction c, width using cover_induction with
  | zero c => simp
  | step c width h ih =>
      have hle := c.room_le width
      rw [c.cover_of_ne_zero h, List.flatMap_cons, ih, position_next, c.bits_span h,
        List.range'_append_1]
      congr 1
      omega

/-- The spans of a field that ends inside the record lie inside its bytes. -/
lemma cover_inRecord (c : BitCursor) (width : Nat) (hend : c.position + width ≤ recordBits) :
    ∀ s ∈ (c.cover width []).1, s.InRecord := by
  induction c, width using cover_induction with
  | zero c => simp
  | step c width h ih =>
      have hle := c.room_le width
      rw [c.cover_of_ne_zero h, List.forall_mem_cons]
      refine ⟨c.span_inRecord h (by omega), ih ?_⟩
      rw [position_next]
      omega

lemma lengthAll_cover (c : BitCursor) (width : Nat) :
    Span.lengthAll (c.cover width []).1 = width := by
  induction c, width using cover_induction with
  | zero c => simp [Span.lengthAll]
  | step c width h ih =>
      have hle := c.room_le width
      rw [c.cover_of_ne_zero h, Span.lengthAll, ih, c.length_span h]
      omega

lemma cover_ne_nil (c : BitCursor) {width : Nat} (h : width ≠ 0) : (c.cover width []).1 ≠ [] := by
  rw [c.cover_of_ne_zero h]
  exact List.cons_ne_nil _ _

lemma room_one (c : BitCursor) : c.room 1 = 1 := by
  have hbit := c.bit_lt
  rw [room]
  omega

/-- A single bit is one span. -/
lemma cover_one (c : BitCursor) :
    c.cover 1 [] = ([⟨c.byte, c.bit, c.bit⟩], c.advance 1 c.bit_lt) := by
  rw [c.cover_of_ne_zero Nat.one_ne_zero, room_one, Nat.sub_self, cover_zero]
  simp only [span, next, room_one, Nat.add_sub_cancel, List.reverse_nil]

end BitCursor

/-! ## Declared fields

What makes a declaration acceptable by itself is decidable, and is kept apart from what it has to do
with the other declarations: names that are not repeated, and room for all.
-/

namespace FieldSpec

/-- The number of bits that a declared field takes. -/
def width (s : FieldSpec) : Nat := if s.kind = .flag then 1 else s.length.toNat

/-- What a declared field must satisfy, whatever the others are. -/
structure Declarable (s : FieldSpec) : Prop where
  identifier : isIdentifier s.name = true
  kind : s.kind = .flag ∨ s.kind = .number
  length_pos : s.kind = .number → 0 < s.length

instance (s : FieldSpec) : Decidable s.Declarable :=
  decidable_of_iff
    (isIdentifier s.name = true ∧ (s.kind = .flag ∨ s.kind = .number) ∧
      (s.kind = .number → 0 < s.length))
    ⟨fun h => ⟨h.1, h.2.1, h.2.2⟩, fun h => ⟨h.identifier, h.kind, h.length_pos⟩⟩

lemma Declarable.width_ne_zero {s : FieldSpec} (h : s.Declarable) : s.width ≠ 0 := by
  rw [width]
  rcases h.kind with hk | hk
  · simp [hk]
  · have hlen := h.length_pos hk
    rw [if_neg (by simp [hk])]
    omega

/-- A field is valid behind some names if it is declarable and its name is a new one. -/
lemma validate_ok_iff (index : Nat) (seen : List String) (s : FieldSpec) :
    s.validate index seen = .ok () ↔ s.Declarable ∧ s.name ∉ seen := by
  rw [validate]
  by_cases hid : isIdentifier s.name = true
  · by_cases hseen : s.name ∈ seen
    · simp [hid, hseen]
    · simp only [hid, Bool.not_true, Bool.false_eq_true, if_false, hseen, not_false_eq_true,
        and_true]
      cases hk : s.kind with
      | flag => exact ⟨fun _ => ⟨hid, Or.inl hk, by simp [hk]⟩, fun _ => rfl⟩
      | number =>
          dsimp only
          split_ifs with hlen
          · refine ⟨by simp, fun h => ?_⟩
            exact absurd (h.length_pos hk) (by omega)
          · exact ⟨fun _ => ⟨hid, Or.inr hk, fun _ => by omega⟩, fun _ => rfl⟩
      | other code =>
          refine ⟨by simp, fun h => ?_⟩
          rcases h.kind with hflag | hnumber
          · simp [hk] at hflag
          · simp [hk] at hnumber
  · refine ⟨by simp [hid], fun h => ?_⟩
    exact absurd h.1.identifier hid

/-- A flag is placed as a number of one bit is. -/
lemma place_eq_cover (s : FieldSpec) (c : BitCursor) :
    s.place c = (⟨s.name, s.kind, (c.cover s.width []).1⟩, (c.cover s.width []).2) := by
  rw [place, width]
  split_ifs with hflag
  · rw [c.cover_one]
  · rfl

/-- The fields one behind the other from a cursor on, whether or not they may be declared. -/
def fieldsFrom (c : BitCursor) : List FieldSpec → List Field
  | [] => []
  | s :: more => (s.place c).1 :: fieldsFrom (s.place c).2 more

/-- The cursor behind these fields. -/
def cursorBehind (c : BitCursor) : List FieldSpec → BitCursor
  | [] => c
  | s :: more => cursorBehind (s.place c).2 more

/-- Fields are placed together if each is declarable and no name is used twice. -/
lemma placeAll_ok_iff (specs : List FieldSpec) :
    ∀ (index : Nat) (seen : List String) (c : BitCursor) (placed : List Field × BitCursor),
      placeAll index seen c specs = .ok placed ↔
        (∀ s ∈ specs, s.Declarable) ∧ (specs.map (·.name)).Nodup ∧
          (∀ s ∈ specs, s.name ∉ seen) ∧ placed = (fieldsFrom c specs, cursorBehind c specs) := by
  induction specs with
  | nil =>
      intro index seen c placed
      simp [placeAll, fieldsFrom, cursorBehind, eq_comm]
  | cons s more ih =>
      intro index seen c placed
      have hstep : placeAll index seen c (s :: more) = .ok placed ↔
          s.validate index seen = .ok () ∧ ∃ rest,
            placeAll (index + 1) (s.name :: seen) (s.place c).2 more = .ok rest ∧
              ((s.place c).1 :: rest.1, rest.2) = placed := by
        simp only [placeAll, bind_eq_ok, pure_eq_ok]
        constructor
        · rintro ⟨_, hvalid, hmore⟩
          exact ⟨hvalid, hmore⟩
        · rintro ⟨hvalid, hmore⟩
          exact ⟨(), hvalid, hmore⟩
      rw [hstep, validate_ok_iff, List.forall_mem_cons, List.forall_mem_cons]
      simp only [ih, List.map_cons, List.nodup_cons, List.mem_cons, List.mem_map, not_or,
        not_exists, not_and, fieldsFrom, cursorBehind]
      constructor
      · rintro ⟨⟨hs, hseen⟩, _, ⟨hmore, hnodup, hnew, rfl⟩, rfl⟩
        exact ⟨⟨hs, hmore⟩, ⟨fun t ht => (hnew t ht).1, hnodup⟩,
          ⟨hseen, fun t ht => (hnew t ht).2⟩, rfl⟩
      · rintro ⟨⟨hs, hmore⟩, ⟨hname, hnodup⟩, ⟨hseen, hnew⟩, rfl⟩
        exact ⟨⟨hs, hseen⟩, _, ⟨hmore, hnodup, fun t ht => ⟨hname t ht, hnew t ht⟩, rfl⟩, rfl⟩

/-- Behind some fields all their bits are taken. -/
lemma position_cursorBehind (c : BitCursor) (specs : List FieldSpec) :
    (cursorBehind c specs).position = c.position + (specs.map width).sum := by
  induction specs generalizing c with
  | nil => simp [cursorBehind]
  | cons s more ih =>
      rw [cursorBehind, ih, place_eq_cover, BitCursor.position_cover, List.map_cons, List.sum_cons,
        Nat.add_assoc]

lemma fieldsFrom_append (c : BitCursor) (specs more : List FieldSpec) :
    fieldsFrom c (specs ++ more)
      = fieldsFrom c specs ++ fieldsFrom (cursorBehind c specs) more := by
  induction specs generalizing c with
  | nil => rfl
  | cons s specs ih => simp [fieldsFrom, cursorBehind, ih]

@[simp] lemma length_fieldsFrom (c : BitCursor) (specs : List FieldSpec) :
    (fieldsFrom c specs).length = specs.length := by
  induction specs generalizing c with
  | nil => rfl
  | cons s specs ih => simp [fieldsFrom, ih]

@[simp] lemma map_name_fieldsFrom (c : BitCursor) (specs : List FieldSpec) :
    (fieldsFrom c specs).map Field.name = specs.map (·.name) := by
  induction specs generalizing c with
  | nil => rfl
  | cons s specs ih => simp [fieldsFrom, place_eq_cover, ih]

/-- A field is placed behind the fields before it. -/
lemma getElem?_fieldsFrom (c : BitCursor) (specs : List FieldSpec) (i : Nat)
    (h : i < specs.length) :
    (fieldsFrom c specs)[i]? = some (specs[i].place (cursorBehind c (specs.take i))).1 := by
  induction specs generalizing c i with
  | nil => simp at h
  | cons s specs ih =>
      cases i with
      | zero => rfl
      | succ i => exact ih _ i (by simpa using h)

/-- The fields together run through consecutive bits, too. -/
lemma bits_fieldsFrom (c : BitCursor) (specs : List FieldSpec) :
    (fieldsFrom c specs).flatMap (fun f => f.spans.flatMap Span.bits)
      = List.range' c.position (specs.map width).sum := by
  induction specs generalizing c with
  | nil => rfl
  | cons s specs ih =>
      rw [fieldsFrom, List.flatMap_cons, ih, place_eq_cover, BitCursor.bits_cover,
        BitCursor.position_cover, List.map_cons, List.sum_cons, List.range'_append_1]

/-- What a placed field is: it belongs to a declared one and lies inside the bits of all of them. -/
lemma mem_fieldsFrom {c : BitCursor} {specs : List FieldSpec} {f : Field}
    (h : f ∈ fieldsFrom c specs) :
    ∃ s ∈ specs, ∃ c' : BitCursor, f = ⟨s.name, s.kind, (c'.cover s.width []).1⟩ ∧
      c'.position + s.width ≤ c.position + (specs.map width).sum := by
  induction specs generalizing c with
  | nil => simp [fieldsFrom] at h
  | cons s specs ih =>
      rw [fieldsFrom, place_eq_cover] at h
      rw [List.map_cons, List.sum_cons]
      rcases List.mem_cons.mp h with rfl | h
      · exact ⟨s, by simp, c, rfl, by omega⟩
      · obtain ⟨t, ht, c', hf, hle⟩ := ih h
        rw [BitCursor.position_cover] at hle
        exact ⟨t, by simp [ht], c', hf, by omega⟩

end FieldSpec

/-! ## Layouts

A layout that was packed is the one that `FieldSpec.fieldsFrom` gives from the first bit on.
-/

/-- What packing makes of a field: its spans lie inside the record and there is at least one, and a
flag has just one bit. -/
structure Field.Placed (f : Field) : Prop where
  kind : f.kind = .flag ∨ f.kind = .number
  inRecord : ∀ s ∈ f.spans, s.InRecord
  width_le : f.width ≤ recordBits
  spans_ne_nil : f.spans ≠ []
  flag_span : f.kind = .flag → ∃ s, f.spans = [s] ∧ s.length = 1

namespace Layout

/-- The lists of declared fields that can be packed, and the layout that each gives. -/
lemma pack_ok_iff (specs : List FieldSpec) (l : Layout) :
    pack specs = .ok l ↔
      (∀ s ∈ specs, s.Declarable) ∧ (specs.map (·.name)).Nodup ∧
        (specs.map FieldSpec.width).sum ≤ recordBits ∧
        l = { fields := FieldSpec.fieldsFrom .start specs,
              bits := (specs.map FieldSpec.width).sum } := by
  have hbits : (FieldSpec.cursorBehind .start specs).position
      = (specs.map FieldSpec.width).sum := by
    rw [FieldSpec.position_cursorBehind, BitCursor.position_start, Nat.zero_add]
  simp only [pack, bind_eq_ok, FieldSpec.placeAll_ok_iff]
  constructor
  · rintro ⟨_, ⟨hdecl, hnodup, -, rfl⟩, h⟩
    rw [hbits] at h
    split_ifs at h with hwide
    cases h
    exact ⟨hdecl, hnodup, by omega, rfl⟩
  · rintro ⟨hdecl, hnodup, hfits, rfl⟩
    refine ⟨_, ⟨hdecl, hnodup, by simp, rfl⟩, ?_⟩
    rw [hbits, if_neg (by omega)]
    rfl

/-- What can be packed still can be without its last fields, which do not move the others. -/
lemma pack_front {specs more : List FieldSpec} {l : Layout} (h : pack (specs ++ more) = .ok l) :
    ∃ front, pack specs = .ok front ∧ front.fields <+: l.fields := by
  obtain ⟨hdecl, hnodup, hfits, rfl⟩ := (pack_ok_iff _ _).mp h
  rw [List.map_append, List.sum_append] at hfits
  refine ⟨_, (pack_ok_iff _ _).mpr ⟨?_, ?_, by omega, rfl⟩, ?_⟩
  · exact fun s hs => hdecl s (List.mem_append_left _ hs)
  · rw [List.map_append] at hnodup
    exact (List.nodup_append.mp hnodup).1
  · simp only [FieldSpec.fieldsFrom_append]
    exact List.prefix_append _ _

/-- No two fields of a packed layout have the same name. -/
lemma nodup_names_of_pack {specs : List FieldSpec} {l : Layout} (h : pack specs = .ok l) :
    (l.fields.map Field.name).Nodup := by
  obtain ⟨-, hnodup, -, rfl⟩ := (pack_ok_iff _ _).mp h
  rw [FieldSpec.map_name_fieldsFrom]
  exact hnodup

/-- The fields of a packed layout lie inside the record. -/
lemma placed_of_pack {specs : List FieldSpec} {l : Layout} (h : pack specs = .ok l) {f : Field}
    (hf : f ∈ l.fields) : f.Placed := by
  obtain ⟨hdecl, -, hfits, rfl⟩ := (pack_ok_iff _ _).mp h
  obtain ⟨s, hs, c, rfl, hle⟩ := FieldSpec.mem_fieldsFrom hf
  rw [BitCursor.position_start, Nat.zero_add] at hle
  refine ⟨(hdecl s hs).kind, c.cover_inRecord s.width (by omega), ?_,
    c.cover_ne_nil (hdecl s hs).width_ne_zero, ?_⟩
  · have hwidth : Field.width ⟨s.name, s.kind, (c.cover s.width []).1⟩ = s.width :=
      c.lengthAll_cover s.width
    rw [hwidth]
    omega
  · intro hflag
    have hone : s.width = 1 := if_pos hflag
    refine ⟨⟨c.byte, c.bit, c.bit⟩, ?_, ?_⟩
    · simp only [hone, c.cover_one]
    · simp only [Span.length]
      omega

/-- **Packing is an exact tiling.**  Declared fields can be packed if and only if each has a name
that rules and shaders can use, no two have the same name, each is a flag or a number of positive
length, and the record has room for all of them.  Each field then runs through the bits behind those
of the fields before it, no bit is used twice, and further fields move none of the earlier ones. -/
theorem pack_tiles (specs : List FieldSpec) :
    ((∃ l, pack specs = .ok l) ↔
      (∀ s ∈ specs, isIdentifier s.name = true) ∧ (specs.map (·.name)).Nodup ∧
        (∀ s ∈ specs, s.kind = .flag ∨ s.kind = .number) ∧
        (∀ s ∈ specs, s.kind = .number → 0 < s.length) ∧
        (specs.map FieldSpec.width).sum ≤ 32) ∧
    (∀ l, pack specs = .ok l →
      l.bits = (specs.map FieldSpec.width).sum ∧ l.fields.length = specs.length ∧
      (∀ (i : Nat) (h : i < specs.length), ∃ f, l.fields[i]? = some f ∧
        f.name = specs[i].name ∧ f.kind = specs[i].kind ∧ f.width = specs[i].width ∧
        f.spans.flatMap Span.bits
          = List.range' ((specs.take i).map FieldSpec.width).sum specs[i].width) ∧
      (∀ f ∈ l.fields, ∀ s ∈ f.spans, s.byte ≤ 3 ∧ s.low ≤ s.high ∧ s.high ≤ 7) ∧
      (l.fields.flatMap fun f => f.spans.flatMap Span.bits).Nodup) ∧
    (∀ more l, pack (specs ++ more) = .ok l →
      ∃ front, pack specs = .ok front ∧ front.fields <+: l.fields) := by
  refine ⟨⟨?_, ?_⟩, ?_, fun more l h => pack_front h⟩
  · rintro ⟨l, h⟩
    obtain ⟨hdecl, hnodup, hfits, -⟩ := (pack_ok_iff _ _).mp h
    exact ⟨fun s hs => (hdecl s hs).identifier, hnodup, fun s hs => (hdecl s hs).kind,
      fun s hs => (hdecl s hs).length_pos, hfits⟩
  · rintro ⟨hid, hnodup, hkind, hlen, hfits⟩
    exact ⟨_, (pack_ok_iff _ _).mpr
      ⟨fun s hs => ⟨hid s hs, hkind s hs, hlen s hs⟩, hnodup, hfits, rfl⟩⟩
  · intro l h
    have hplaced : ∀ f ∈ l.fields, f.Placed := fun f hf => placed_of_pack h hf
    obtain ⟨-, -, -, rfl⟩ := (pack_ok_iff _ _).mp h
    refine ⟨rfl, FieldSpec.length_fieldsFrom _ specs, ?_, ?_, ?_⟩
    · intro i hi
      refine ⟨_, FieldSpec.getElem?_fieldsFrom _ specs i hi, ?_⟩
      rw [FieldSpec.place_eq_cover]
      refine ⟨rfl, rfl, BitCursor.lengthAll_cover _ _, ?_⟩
      rw [BitCursor.bits_cover, FieldSpec.position_cursorBehind, BitCursor.position_start,
        Nat.zero_add]
    · intro f hf s hs
      have hin := (hplaced f hf).inRecord s hs
      exact ⟨hin.byte_le, hin.low_le, hin.high_le⟩
    · rw [FieldSpec.bits_fieldsFrom]
      exact List.nodup_range'

/-- A flag and a number of ten bits, which crosses a byte edge. -/
def flagAndAge : List FieldSpec := [⟨"alive", .flag, 0⟩, ⟨"age", .number, 10⟩]

/-- Eleven bits in two bytes, none of them twice. -/
theorem pack_tiles_flagAndAge :
    ∃ l, pack flagAndAge = .ok l ∧ l.bits = 11 ∧
      (l.fields.flatMap fun f => f.spans.flatMap Span.bits).Nodup := by
  obtain ⟨l, h⟩ := (pack_tiles flagAndAge).1.mpr (by decide)
  obtain ⟨hbits, -, -, -, hnodup⟩ := (pack_tiles flagAndAge).2.1 l h
  exact ⟨l, h, hbits, hnodup⟩

end Layout

end Cellular
