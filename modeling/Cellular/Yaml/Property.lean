import Cellular.Yaml.Scalar
import Cellular.Yaml.Token

/-!
# Anchors, tags and directives

A node may have a name and a tag before it, and a document may have directives before it.

* `anchorName` reads the name of an anchor, or that of a node that stands elsewhere.
* `readTag` reads a tag.
* `readDirective` reads a directive.
-/

namespace Cellular.Yaml

/-- Characters of the names of anchors, directives and tag handles. -/
def isNameChar (c : Char) : Bool := c.isAlphanum || c = '_' || c = '-'

/-! ## Anchors

A name consists of letters, figures, dashes and underscores; what may stand right behind it is a
short list of marks beside white space.
-/

/-- Characters that may stand right behind the name of an anchor. -/
def anchorEnds : List Char := ['?', ':', ',', ']', '\x7d', '%', '@', Char.ofNat 0x60]

/-- Reads the name of an anchor behind its mark. -/
def anchorName (p : Point) : Parsed (String × Point) :=
  let name := p.rest.takeWhile isNameChar
  let q := p.skipMany name.length
  if name.isEmpty then none
  else if startsBlank q.rest || q.rest.head?.any (· ∈ anchorEnds) then some (String.ofList name, q)
  else none

/-! ## Tags

A tag is read as a handle and a suffix.  What the handle stands for is known only to the document,
so the two are put together later.
-/

/-- Characters that stand for themselves in a tag. -/
def isTagChar (c : Char) : Bool :=
  isNameChar c || c ∈ [';', '/', '?', ':', '@', '&', '=', '+', '$', ',', '.', '!', '~', '*', '\'',
    '(', ')', '[', ']']

/-- A byte that is written as a percent sign and two digits, and the text behind it. -/
def escapedByte? : List Char → Option (Nat × List Char)
  | '%' :: a :: b :: cs =>
    match hexValue? a, hexValue? b with
    | some x, some y => some (16 * x + y, cs)
    | _, _ => none
  | _ => none

/-- The further bytes of a character, of which `n` is what the bytes so far give. -/
def furtherBytes? : Nat → Nat → List Char → Option Nat
  | 0, n, _ => some n
  | count + 1, n, cs =>
    match escapedByte? cs with
    | some (b, more) => if b / 64 = 2 then furtherBytes? count (64 * n + b % 64) more else none
    | none => none

/-- A character that is written byte by byte, and the number of its bytes. -/
def escapedChar? (cs : List Char) : Option (Char × Nat) :=
  match escapedByte? cs with
  | none => none
  | some (b, more) =>
    let (count, lead) :=
      if b < 0x80 then (1, b)
      else if b / 32 = 6 then (2, b % 32)
      else if b / 16 = 14 then (3, b % 16)
      else if b / 8 = 30 then (4, b % 8)
      else (0, 0)
    if count = 0 then none
    else (furtherBytes? (count - 1) lead more).map fun n => (Char.ofNat n, count)

/-- Reads the characters of a tag; `acc` are those so far. -/
def tagChars : Nat → List Char → Point → Parsed (List Char × Point)
  | 0, acc, p => some (acc, p)
  | fuel + 1, acc, p =>
    match p.rest with
    | [] => some (acc, p)
    | c :: _ =>
      if c = '%' then
        match escapedChar? p.rest with
        | some (d, count) => tagChars fuel (acc ++ [d]) (p.skipMany (3 * count))
        | none => none
      else if isTagChar c then tagChars fuel (acc ++ [c]) p.skip
      else some (acc, p)

/-- Reads a tag, or the rest of one that starts with `head`, which counts without its first
character.  A tag has at least one character. -/
def tagText (head : List Char) (p : Point) : Parsed (List Char × Point) :=
  match tagChars (p.rest.length + 1) [] p with
  | none => none
  | some (text, q) => if head.isEmpty && text.isEmpty then none else some (head.drop 1 ++ text, q)

/-- The handle at the start of a tag: an exclamation mark and a name, and a second mark if there is
one. -/
def tagHandle (p : Point) : List Char :=
  let name := (p.rest.drop 1).takeWhile isNameChar
  let closing := ((p.rest.drop (1 + name.length)).take 1).filter (· = '!')
  '!' :: name ++ closing

/-- Whether a handle has its second mark. -/
def isClosedHandle (handle : List Char) : Bool :=
  1 < handle.length && handle.getLast? = some '!'

/-- Reads a tag from its first mark on.  A tag in angles has no handle, and neither has the mark on
its own. -/
def readTag (p : Point) : Parsed (Mark × Point) := do
  let (mark, q) ←
    if p.skip.startsWith '<' then do
      let (text, q) ← tagText [] (p.skipMany 2)
      if q.startsWith '>' then some (Mark.tag "" (String.ofList text), q.skip) else none
    else do
      let handle := tagHandle p
      let q := p.skipMany handle.length
      if isClosedHandle handle then do
        let (text, q) ← tagText [] q
        some (Mark.tag (String.ofList handle) (String.ofList text), q)
      else do
        let (text, q) ← tagText handle q
        some (if text.isEmpty then Mark.tag "" "!" else Mark.tag "!" (String.ofList text), q)
  if startsBlank q.rest then some (mark, q) else none

/-! ## Directives

There are two directives, for the version and for a handle.  Any other name ends the reading.
-/

/-- One or two digits as a number. -/
def versionNumber (p : Point) : Parsed (Nat × Point) :=
  let digits := p.rest.takeWhile fun c => '0' ≤ c && c ≤ '9'
  if digits.isEmpty || 2 < digits.length then none
  else (hexDigits? 10 digits).map fun n => (n, p.skipMany digits.length)

/-- Reads the version behind its directive's name. -/
def readVersion (p : Point) : Parsed (Mark × Point) := do
  let (major, p) ← versionNumber p.skipGap
  if p.startsWith '.' then do
    let (minor, p) ← versionNumber p.skip
    some (.version major minor, p)
  else none

/-- Reads a handle and what it stands for, behind the name of their directive. -/
def readHandle (p : Point) : Parsed (Mark × Point) :=
  let p := p.skipGap
  let handle := tagHandle p
  let q := p.skipMany handle.length
  if p.startsWith '!' && (isClosedHandle handle || handle = ['!']) && q.atGap then do
    let (text, r) ← tagText [] q.skipGap
    if startsBlank r.rest then some (.handle (String.ofList handle) (String.ofList text), r)
    else none
  else none

/-- Reads a directive behind its mark, with the rest of its line. -/
def readDirective (p : Point) : Parsed (Mark × Point) := do
  let name := p.rest.takeWhile isNameChar
  let q := p.skipMany name.length
  let (mark, q) ←
    if !startsBlank q.rest then none
    else if name = "YAML".toList then readVersion q
    else if name = "TAG".toList then readHandle q
    else none
  let q ← lineEnd q
  return (mark, q)

end Cellular.Yaml
