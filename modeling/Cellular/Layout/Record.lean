/-!
# Cell records

The state of a cell is one texel: four bytes.  State fields are runs of bits that never cross a
byte, so a field is a list of spans.

* `Record` is the texel, with `byte` and `setByte`.
* `Span` is a run of bits inside one byte; `Span.get` and `Span.set` read and write it.
* `Record.hex` shows a record.

Reading and writing a span masks, so neither has to do with other bits of the byte, and a value that
is too large loses its high bits.  A span is well placed if its byte is one of the four and it ends
within that byte; packing gives only such spans.
-/

namespace Cellular

/-- One cell: the red, green, blue and alpha bytes of a texel. -/
structure Record where
  r : UInt8 := 0
  g : UInt8 := 0
  b : UInt8 := 0
  a : UInt8 := 0
deriving Repr, DecidableEq, Inhabited

namespace Record

/-- The byte with a given number; there are no bytes from the fourth on. -/
def byte (c : Record) : Nat → UInt8
  | 0 => c.r
  | 1 => c.g
  | 2 => c.b
  | 3 => c.a
  | _ => 0

/-- The record with another byte at a given number. -/
def setByte (c : Record) (n : Nat) (v : UInt8) : Record :=
  match n with
  | 0 => { c with r := v }
  | 1 => { c with g := v }
  | 2 => { c with b := v }
  | 3 => { c with a := v }
  | _ => c

/-- A byte in two hexadecimal digits. -/
def hexByte (v : UInt8) : String :=
  String.ofList [Nat.digitChar (v.toNat / 16), Nat.digitChar (v.toNat % 16)]

/-- The four bytes in hexadecimal. -/
def hex (c : Record) : String := hexByte c.r ++ hexByte c.g ++ hexByte c.b ++ hexByte c.a

end Record

/-- The bits `low` to `high` of one byte, both included. -/
structure Span where
  byte : Nat
  low : Nat
  high : Nat
deriving Repr, DecidableEq, Inhabited

namespace Span

/-- The number of bits. -/
def length (s : Span) : Nat := s.high - s.low + 1

/-- The number of bits of some spans. -/
def lengthAll : List Span → Nat
  | [] => 0
  | s :: more => s.length + lengthAll more

/-- As many low bits set as the span is long. -/
def mask (s : Span) : UInt32 := (1 <<< UInt32.ofNat s.length) - 1

/-- The bits of the span as a number. -/
def get (s : Span) (c : Record) : UInt32 :=
  ((c.byte s.byte).toUInt32 >>> UInt32.ofNat s.low) &&& s.mask

/-- The record with the low bits of `v` in the span. -/
def set (s : Span) (c : Record) (v : UInt32) : Record :=
  let low := UInt32.ofNat s.low
  let kept := (c.byte s.byte).toUInt32 &&& ~~~(s.mask <<< low)
  c.setByte s.byte (kept ||| ((v &&& s.mask) <<< low)).toUInt8

end Span

end Cellular
