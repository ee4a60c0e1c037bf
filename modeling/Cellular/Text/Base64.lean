/-!
# Bytes as text

Bytes may be written with 64 characters, four of them for three bytes.

* `Text.base64?` reads bytes that are written so.
* `Text.ofBytes` reads bytes as a text.

Line breaks between the characters are passed over, and the last group is filled up with a sign of
its own.  Reading fails where a character is none of the 64 and where the groups do not come out
even.
-/

namespace Cellular.Text

/-- The value of one of the 64 characters. -/
def base64Digit? (c : Char) : Option Nat :=
  let n := c.toNat
  if 'A' ≤ c && c ≤ 'Z' then some (n - 'A'.toNat)
  else if 'a' ≤ c && c ≤ 'z' then some (n - 'a'.toNat + 26)
  else if '0' ≤ c && c ≤ '9' then some (n - '0'.toNat + 52)
  else if c = '+' then some 62
  else if c = '/' then some 63
  else none

/-- The bytes of the number that digits spell, `count` of them. -/
def digitBytes (digits : List Nat) (count : Nat) : List UInt8 :=
  let n := digits.foldl (fun n d => 64 * n + d) 0
  ([n / 65536, n / 256, n].map UInt8.ofNat).take count

/-- Reads groups of four characters.  Only the last group may have fewer, and equals signs fill
it. -/
def base64Groups? : List Char → Option (List UInt8)
  | [] => some []
  | [a, b, '=', '='] =>
    match base64Digit? a, base64Digit? b with
    | some x, some y => some (digitBytes [x, y, 0, 0] 1)
    | _, _ => none
  | [a, b, c, '='] =>
    match base64Digit? a, base64Digit? b, base64Digit? c with
    | some x, some y, some z => some (digitBytes [x, y, z, 0] 2)
    | _, _, _ => none
  | a :: b :: c :: d :: more =>
    match base64Digit? a, base64Digit? b, base64Digit? c, base64Digit? d, base64Groups? more with
    | some x, some y, some z, some w, some bytes => some (digitBytes [x, y, z, w] 3 ++ bytes)
    | _, _, _, _, _ => none
  | _ => none

/-- Reads bytes that are written with 64 characters.  Line breaks have no meaning. -/
def base64? (cs : List Char) : Option (List UInt8) :=
  base64Groups? (cs.filter fun c => c ≠ '\n' && c ≠ '\r')

/-- The length and the lead value of a character by its first byte. -/
def leadByte (b : Nat) : Nat × Nat :=
  if b < 0x80 then (1, b)
  else if b / 32 = 6 then (2, b % 32)
  else if b / 16 = 14 then (3, b % 16)
  else if b / 8 = 30 then (4, b % 8)
  else (0, 0)

/-- The number that further bytes of a character give. -/
def furtherByte? (n : Nat) (b : UInt8) : Option Nat :=
  if b.toNat / 64 = 2 then some (64 * n + b.toNat % 64) else none

/-- The first character of some bytes and its length, if they start with one in its shortest
form. -/
def firstChar? : List UInt8 → Option (Char × Nat)
  | [] => none
  | b :: more =>
    let (count, lead) := leadByte b.toNat
    if count = 0 || more.length + 1 < count then none
    else
      match (more.take (count - 1)).foldlM furtherByte? lead with
      | none => none
      | some n =>
        if n.isValidChar && (Char.ofNat n).utf8Size = count then some (Char.ofNat n, count)
        else none

/-- Reads bytes as a text; `fuel` is the number of bytes at most. -/
def charsOfBytes : Nat → List UInt8 → List Char
  | 0, _ => []
  | fuel + 1, bytes =>
    match firstChar? bytes with
    | some (c, count) => c :: charsOfBytes fuel (bytes.drop count)
    | none =>
      match bytes with
      | [] => []
      | _ :: more => Char.ofNat 0xfffd :: charsOfBytes fuel more

/-- Reads bytes as a text.  A byte that belongs to no character is replaced. -/
def ofBytes (bytes : List UInt8) : String := String.ofList (charsOfBytes bytes.length bytes)

end Cellular.Text
