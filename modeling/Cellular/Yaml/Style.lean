import Cellular.Yaml.Meaning

/-!
# Styles of written texts

A text in a document stands without quotes, in single or double quotes, or in a block of lines.
Which of them is taken depends on what the text would mean without quotes and on where its blanks
and breaks are.

* `ScalarStyle` is one of the four styles.
* `fitsPlain`, `fitsSingle` and `fitsLines` say which texts can be written in a style; all texts can
  be written in double quotes.
* `ScalarStyle.ofText` and `ScalarStyle.ofKey` choose the style of a value and of a key;
  `ScalarStyle.readsBack` says which values are read back.
-/

namespace Cellular.Yaml

open Number (isDigit)

/-- The styles of written texts: without quotes, in single quotes, in double quotes, and as a block
of lines. -/
inductive ScalarStyle where
  | plain
  | single
  | double
  | lines
deriving Repr, DecidableEq, Inhabited

/-! ## Characters and their neighbours

Most conditions on a text look at a character and the one behind it, in the whole text or at its
ends.
-/

/-- Characters that are written as they are.  Characters outside the basic plane are not. -/
def isShown (c : Char) : Bool :=
  let n := c.toNat
  n = 0x0a || (0x20 ≤ n && n ≤ 0x7e) || (0xa0 ≤ n && n ≤ 0xfffd && n ≠ 0xfeff)

/-- Whether a character with one property is followed at once by one with another. -/
def hasPair (p q : Char → Bool) : List Char → Bool
  | a :: b :: cs => (p a && q b) || hasPair p q (b :: cs)
  | _ => false

/-- A blank that is no tab. -/
def isSpace (c : Char) : Bool := c = ' '

/-- Whether a text starts or ends with a blank or a break. -/
def hasLooseEnds (cs : List Char) : Bool :=
  let loose (c : Option Char) : Bool := c.any fun c => isSpace c || isBreak c
  loose cs.head? || loose cs.getLast?

/-- Whether a text has characters that only an escape can show. -/
def needsEscape (cs : List Char) : Bool := cs.any fun c => c ≠ '\t' && !isShown c

/-! ## Marks of the document

A mark counts only in its place: most at the start of a text, some there only at the end of a word,
and a colon and a comment further on as well.
-/

/-- Whether a word ends here: at a blank or at the end of the text. -/
def endsWord : List Char → Bool
  | [] => true
  | c :: _ => isGapChar c

/-- Whether the start of a text would be taken for a mark of the document. -/
def startsWithMark : List Char → Bool
  | [] => false
  | '-' :: '-' :: '-' :: _ => true
  | '.' :: '.' :: '.' :: _ => true
  | c :: cs =>
    c ∈ ['#', ',', '[', ']', '\x7b', '\x7d', '&', '*', '!', '|', '>', '\'', '"', '%', '@', '\x60']
      || (c ∈ ['?', ':', '-'] && endsWord cs)

/-- Whether a text has, behind its first character, a colon at the end of a word or the start of a
comment. -/
def hasInnerMark : List Char → Bool
  | a :: b :: cs =>
    (b = ':' && endsWord cs) || (b = '#' && (isGapChar a || isBreak a)) || hasInnerMark (b :: cs)
  | _ => false

/-! ## What fits

The conditions come from the way in which texts of each style are read: from folding, from the marks
that end a text without quotes, and from the lack of escapes.
-/

/-- Whether a text can stand in single quotes: breaks have no blank next to them, and no character
needs an escape. -/
def fitsSingle (cs : List Char) : Bool :=
  !(hasPair isBreak isSpace cs || hasPair isSpace isBreak cs || cs.contains '\t' || needsEscape cs)

/-- Whether a text can stand without quotes: it fits on one line and has no marks of the document. -/
def fitsPlain (cs : List Char) : Bool :=
  fitsSingle cs && !(hasLooseEnds cs || cs.any isBreak || startsWithMark cs || hasInnerMark cs)

/-- Whether a text can be written as a block of lines: no line ends in a blank, and no character
needs an escape. -/
def fitsLines (cs : List Char) : Bool :=
  !(cs.getLast?.any isSpace || hasPair isSpace isBreak cs || needsEscape cs)

/-! ## What means something else

A text that would mean a number, a truth value or nothing without quotes has to have quotes.  So do
texts that meant something in older documents, although they mean themselves now.
-/

/-- Words that older documents used for truth values. -/
def oldTruthWords : List String :=
  ["y", "Y", "yes", "Yes", "YES", "on", "On", "ON", "n", "N", "no", "No", "NO", "off", "Off", "OFF"]

/-- A part of a number to the base 60: a colon and one or two digits, the first of two below 6. -/
def sixtieth? : List Char → Option (List Char)
  | ':' :: a :: b :: cs =>
    if isDigit a && a < '6' && isDigit b then some cs
    else if isDigit a then some (b :: cs)
    else none
  | [':', a] => if isDigit a then some [] else none
  | _ => none

/-- Whether a text is nothing but parts of a number to the base 60, perhaps with a fraction. -/
def isSixties : Nat → List Char → Bool
  | 0, _ => false
  | fuel + 1, cs =>
    match sixtieth? cs with
    | none => false
    | some [] => true
    | some ('.' :: fraction) => fraction.all fun c => isDigit c || c = '_'
    | some rest => isSixties fuel rest

/-- Whether a text looks like a number to the base 60, as older documents had them. -/
def isBaseSixty (cs : List Char) : Bool :=
  let (_, body) := Number.takeSign cs
  match body with
  | c :: more =>
    isDigit c && isSixties cs.length (more.dropWhile fun c => isDigit c || c = '_')
  | [] => false

/-- Whether a text without quotes is read as that text, also by readers of older documents. -/
def meansItself (s : String) : Bool :=
  match resolve s with
  | .text => s ∉ oldTruthWords && !isBaseSixty s.toList
  | _ => false

/-! ## Choices

A text of one line gets the plainest style that fits, if it means itself, and double quotes if not;
one of several lines is written as a block where it can be.
-/

namespace ScalarStyle

/-- The first of plain style, single quotes and double quotes that a text fits. -/
def least (cs : List Char) : ScalarStyle :=
  if fitsPlain cs then .plain else if fitsSingle cs then .single else .double

/-- A block of lines, or double quotes for a text that does not fit one. -/
def ofLines (cs : List Char) : ScalarStyle := if fitsLines cs then .lines else .double

/-- The style of a value. -/
def ofText (s : String) : ScalarStyle :=
  let cs := s.toList
  if cs.contains '\n' then ofLines cs else if meansItself s then least cs else .double

/-- Whether a value is read back from what is written of it.  A block of lines whose first character
is a tab is not: nothing shows where the indentation ends. -/
def readsBack (s : String) : Bool := !(ofText s = .lines && s.toList.head? = some '\t')

/-- The longest key that stands before its colon on one line, in bytes. -/
def longestKey : Nat := 128

/-- Whether a key stands before its colon on one line. -/
def isShortKey (s : String) : Bool := !s.toList.any isBreak && s.utf8ByteSize ≤ longestKey

/-- The style of a key.  It is a name whatever it would mean as a value. -/
def ofKey (s : String) : ScalarStyle :=
  let cs := s.toList
  if cs.contains '\n' then ofLines cs else if cs.isEmpty then .single else least cs

end ScalarStyle

end Cellular.Yaml
