import Cellular.Error
import Cellular.Layout.Record
import Cellular.Source.Lexer

/-!
# Layouts

The declared state fields share the 32 bits of a cell.  They lie one behind the other, from the low
bits of the first byte on, and a field that reaches the end of a byte goes on in the next one.  Its
value is read with the most significant span first.

* `FieldSpec` is a declared field, `Field` a field with its place.
* `Field.get` and `Field.set` read and write a field of a record.
* `BitCursor` goes through the bits of a record; `BitCursor.cover` cuts a field where bytes end.
* `Layout.pack` gives every declared field its place.

Packing leaves no gaps: the cursor stands where the last field ended, and the place of a field
depends on the fields before it alone.  So a field may be added behind the others without moving
them.  The bits behind the last field belong to no field, and a step leaves them zero.
-/

namespace Cellular

/-- The kinds of state fields.  `other` stands for the codes that no kind has. -/
inductive FieldKind where
  | flag
  | number
  | other (code : Int)
deriving Repr, DecidableEq, Inhabited

namespace FieldKind

/-- The kind with a given code. -/
def ofCode : Int → FieldKind
  | 0 => .flag
  | 1 => .number
  | n => .other n

/-- The code of a kind. -/
def code : FieldKind → Int
  | .flag => 0
  | .number => 1
  | .other n => n

/-- How a kind is written. -/
def name : FieldKind → String
  | .flag => "flag"
  | .number => "number"
  | .other code => s!"FieldKind({code})"

/-- The kind with a given spelling. -/
def ofName? : String → Option FieldKind
  | "flag" => some .flag
  | "number" => some .number
  | _ => none

end FieldKind

/-- A declared state field.  The length of a flag has no meaning. -/
structure FieldSpec where
  name : String
  kind : FieldKind
  length : Int := 0
deriving Repr, DecidableEq, Inhabited

/-- A state field and its place in a record. -/
structure Field where
  name : String
  kind : FieldKind
  spans : List Span
deriving Repr, DecidableEq, Inhabited

namespace Field

/-- The number of bits. -/
def width (f : Field) : Nat := Span.lengthAll f.spans

/-- Reads a list of spans, the most significant first, behind the bits `v` read so far. -/
def getSpans (c : Record) (v : UInt32) : List Span → UInt32
  | [] => v
  | s :: more => getSpans c ((v <<< UInt32.ofNat s.length) ||| s.get c) more

/-- The value of the field in a record. -/
def get (f : Field) (c : Record) : UInt32 := getSpans c 0 f.spans

/-- Writes a list of spans, the least significant first. -/
def setSpans (c : Record) (v : UInt32) : List Span → Record
  | [] => c
  | s :: more => setSpans (s.set c v) (v >>> UInt32.ofNat s.length) more

/-- The record with the low bits of `v` in the field. -/
def set (f : Field) (c : Record) (v : UInt32) : Record := setSpans c v f.spans.reverse

/-- The type of the field in the rule language. -/
def type (f : Field) : Ty := if f.kind = .flag then .bool else .int

end Field

/-- The state fields of a rule, in the order of their declaration, and the bits they take. -/
structure Layout where
  fields : List Field := []
  bits : Nat := 0
deriving Repr, DecidableEq, Inhabited

/-- The number of bits of a record. -/
def recordBits : Nat := 32

/-- Whether a name can stand in rules and in shaders: a name of ASCII letters, digits and
underscores, no two underscores in a row, and no word of the rule language. -/
def isIdentifier (name : String) : Bool :=
  match name.toList with
  | c :: cs =>
    isNameStart c && cs.all isNamePart && !hasDoubleUnderscore (c :: cs) && name ∉ keywords
  | [] => false

/-- A place in a record while it is filled: a byte, and the first bit of it that is free. -/
structure BitCursor where
  byte : Nat
  bit : Nat
  bit_lt : bit < 8

namespace BitCursor

/-- The first bit of a record. -/
def start : BitCursor := ⟨0, 0, by decide⟩

/-- The number of bits before the cursor. -/
def position (c : BitCursor) : Nat := c.byte * 8 + c.bit

/-- The cursor `n` bits further on.  Behind the last bit of a byte stands the next byte. -/
def advance (c : BitCursor) (n : Nat) (h : c.bit + n ≤ 8) : BitCursor :=
  if hend : c.bit + n = 8 then ⟨c.byte + 1, 0, by decide⟩
  else ⟨c.byte, c.bit + n, Nat.lt_of_le_of_ne h hend⟩

/-- How many of the next `remaining` bits lie in the byte of the cursor. -/
def room (c : BitCursor) (remaining : Nat) : Nat := min remaining (8 - c.bit)

/-- A cursor never leaves its byte. -/
theorem bit_add_room_le (c : BitCursor) (remaining : Nat) : c.bit + c.room remaining ≤ 8 := by
  have hbit := c.bit_lt
  simp only [room]
  omega

/-- There is always room for a bit: a cursor behind a full byte stands in the next one. -/
theorem room_pos (c : BitCursor) {remaining : Nat} (h : remaining ≠ 0) : 0 < c.room remaining := by
  have hbit := c.bit_lt
  simp only [room]
  omega

/-- The span of those of the next `remaining` bits that lie in the byte of the cursor. -/
def span (c : BitCursor) (remaining : Nat) : Span := ⟨c.byte, c.bit, c.bit + c.room remaining - 1⟩

/-- The cursor behind that span. -/
def next (c : BitCursor) (remaining : Nat) : BitCursor :=
  c.advance (c.room remaining) (c.bit_add_room_le remaining)

/-- The spans of the next `remaining` bits behind those found so far, whose last one comes first,
and the cursor behind all of them. -/
def cover (c : BitCursor) (remaining : Nat) (found : List Span) : List Span × BitCursor :=
  if remaining = 0 then (found.reverse, c)
  else (c.next remaining).cover (remaining - c.room remaining) (c.span remaining :: found)
termination_by remaining
decreasing_by
  have hroom := c.room_pos ‹remaining ≠ 0›
  omega

end BitCursor

namespace FieldSpec

/-- Whether a field may be declared as number `index` behind the names `seen`. -/
def validate (index : Nat) (seen : List String) (s : FieldSpec) : Except ConfigError Unit :=
  let path := s!"state[{index}]"
  if !isIdentifier s.name then .error ⟨path, .fieldName s.name⟩
  else if s.name ∈ seen then .error ⟨path, .duplicateField s.name⟩
  else match s.kind with
    | .flag => .ok ()
    | .number =>
      if s.length ≤ 0 then .error ⟨path, .fieldLength s.name s.length⟩ else .ok ()
    | .other _ => .error ⟨path, .fieldKind s.kind.name⟩

/-- The field at a cursor, and the cursor behind it.  A flag takes one bit. -/
def place (s : FieldSpec) (c : BitCursor) : Field × BitCursor :=
  if s.kind = .flag then
    (⟨s.name, s.kind, [⟨c.byte, c.bit, c.bit⟩]⟩, c.advance 1 c.bit_lt)
  else
    let covered := c.cover s.length.toNat []
    (⟨s.name, s.kind, covered.1⟩, covered.2)

/-- The fields one behind the other from a cursor on, and the cursor behind all of them, if they may
be declared in this order. -/
def placeAll (index : Nat) (seen : List String) (c : BitCursor) :
    List FieldSpec → Except ConfigError (List Field × BitCursor)
  | [] => .ok ([], c)
  | s :: more => do
    s.validate index seen
    let (field, c) := s.place c
    let (fields, c) ← placeAll (index + 1) (s.name :: seen) c more
    return (field :: fields, c)

end FieldSpec

namespace Layout

/-- Gives every declared field its place; all of them must fit into one record. -/
def pack (specs : List FieldSpec) : Except ConfigError Layout := do
  let (fields, c) ← FieldSpec.placeAll 0 [] .start specs
  let bits := c.position
  if bits > recordBits then .error ⟨"state", .tooWide bits recordBits⟩
  else return { fields, bits }

/-- The field with a given name. -/
def field? (l : Layout) (name : String) : Option Field := l.fields.find? (·.name = name)

/-- The type of a cell in the rule language: flags are Boolean and numbers Int. -/
def cellType (l : Layout) : Ty := .struct (l.fields.map fun f => (f.name, f.type))

/-- One line per field with its place, and how many bits are in use. -/
def listing (l : Layout) : String :=
  let place (s : Span) := s!" [byte {s.byte} bits {s.low}..{s.high}]"
  let line (f : Field) :=
    Text.padRight 16 f.name ++ " " ++ Text.padRight 6 f.kind.name ++ " "
      ++ Text.padLeft 2 (toString f.width) ++ " bits "
      ++ String.join (f.spans.map place) ++ "\n"
  String.join (l.fields.map line) ++ s!"{l.bits}/{recordBits} bits used\n"

end Layout

end Cellular
