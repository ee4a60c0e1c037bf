/-!
# Places in a document

* `Point` is a place in the text of a document: the text to come, and where it starts.
* `Point.skip` and `Point.skipBreak` move over one character and over one line break.
* `Gap` is the white space between two parts of a scalar, which is folded into less.

A place carries the text to come and not the whole text, so to read on is to drop from the front of
a list. Its numbers are kept beside it: the column decides on indentation, the line is shown in
faults, and the index bounds how long a key may be.
-/

namespace Cellular.Yaml

/-- A character that ends a line. -/
def isBreak (c : Char) : Bool :=
  c = '\n' || c = '\r' || c = Char.ofNat 0x85 || c = Char.ofNat 0x2028 || c = Char.ofNat 0x2029

/-- A blank inside a line. -/
def isGapChar (c : Char) : Bool := c = ' ' || c = '\t'

/-- Whether a text starts with white space or is at its end. -/
def startsBlank : List Char → Bool
  | [] => true
  | c :: _ => isGapChar c || isBreak c

/-- Characters that may stand in a document. -/
def isAllowed (c : Char) : Bool :=
  let n := c.toNat
  n = 0x09 || n = 0x0a || n = 0x0d || (0x20 ≤ n && n ≤ 0x7e) || n = 0x85
    || (0xa0 ≤ n && n ≤ 0xfffd) || 0x10000 ≤ n

/-- A place in the text of a document: the text to come, the number of characters before it, and its
line and column, both counted from 0. -/
structure Point where
  rest : List Char
  index : Nat := 0
  line : Nat := 0
  column : Nat := 0
deriving Repr, DecidableEq, Inhabited

namespace Point

/-- The place behind the next character. -/
def skip (p : Point) : Point :=
  { p with rest := p.rest.tail, index := p.index + 1, column := p.column + 1 }

/-- The place `n` characters further on in the same line. -/
def skipMany (p : Point) (n : Nat) : Point :=
  { p with rest := p.rest.drop n, index := p.index + n, column := p.column + n }

/-- The place behind a line break; two characters may make one break. -/
def skipBreak (p : Point) : Point :=
  match p.rest with
  | '\r' :: '\n' :: r => { rest := r, index := p.index + 2, line := p.line + 1 }
  | c :: r => if isBreak c then { rest := r, index := p.index + 1, line := p.line + 1 } else p
  | [] => p

/-- What the line break at a place stands for: a new line, or itself if it is one of those that
separate lines and paragraphs; nothing at the end of the text. -/
def breakText (p : Point) : List Char :=
  match p.rest with
  | [] => []
  | c :: _ =>
    if c = Char.ofNat 0x2028 || c = Char.ofNat 0x2029 then [c]
    else if isBreak c then ['\n'] else []

/-- Whether a line break is next. -/
def atBreak (p : Point) : Bool := (p.rest.head?.map isBreak).getD false

/-- Whether a blank is next. -/
def atGap (p : Point) : Bool := (p.rest.head?.map isGapChar).getD false

/-- Whether the text is at its end. -/
def atEnd (p : Point) : Bool := p.rest.isEmpty

/-- Whether a given character is next. -/
def startsWith (p : Point) (c : Char) : Bool := p.rest.head? = some c

/-- Whether a line that starts or ends a document begins here. -/
def atDocumentMark (p : Point) : Bool :=
  p.column = 0 && match p.rest with
    | '-' :: '-' :: '-' :: r => startsBlank r
    | '.' :: '.' :: '.' :: r => startsBlank r
    | _ => false

end Point

/-- The white space between two parts of a scalar: the blanks before its first line break, and what
its line breaks stand for. -/
structure Gap where
  blanks : List Char := []
  breaks : List Char := []
deriving Repr, DecidableEq, Inhabited

/-- What a gap stands for: blanks inside a line stay, one line break becomes a blank, and of more
the first is dropped. -/
def Gap.folded (g : Gap) : List Char :=
  match g.breaks with
  | [] => g.blanks
  | '\n' :: [] => [' ']
  | '\n' :: more => more
  | breaks => breaks

end Cellular.Yaml
