import Cellular.Text.Quoted
import Cellular.Yaml.Style

/-!
# Written documents

A document is written as lines.  What belongs to an entry stands behind its key or its dash, and the
lines below it are indented by two blanks.

* `Outline` is what is to be written.
* `Outline.lines` are its lines.
* `Outline.render` is the document.

A document is put together from the lines of its parts, innermost first, and a part does not know
how far it will be indented.  Lines carry their ends with them because a line of a text may end in
another break than a new line.
-/

namespace Cellular.Yaml

/-- A line and the character that ends it. -/
structure Line where
  text : String
  ending : Char := '\n'
deriving Repr, DecidableEq, Inhabited

namespace Line

/-- Lines as one text. -/
def join (ls : List Line) : String := String.join (ls.map fun l => l.text.push l.ending)

/-- The line indented by one level; an empty line has no indentation. -/
def indented (l : Line) : Line := if l.text.isEmpty then l else { l with text := "  " ++ l.text }

/-- Lines whose first stands behind `lead`, the others below it and indented. -/
def hang (lead : String) : List Line → List Line
  | [] => [{ text := lead }]
  | l :: ls => { l with text := lead ++ l.text } :: ls.map indented

/-- The lines of a text.  What stands behind its last break is a line too; `acc` is the line so far,
its last character first. -/
def split (acc : List Char) : List Char → List Line
  | [] => [{ text := String.ofList acc.reverse }]
  | c :: cs =>
    if isBreak c then { text := String.ofList acc.reverse, ending := c } :: split [] cs
    else split (c :: acc) cs

end Line

/-! ## Texts

The writer does not check whether a style fits a text; the choice of the style is made before.  Only
texts in double quotes have escapes.
-/

/-- The letter of the short escape of a character, if it has one. -/
def escapeLetter? (c : Char) : Option Char :=
  match c.toNat with
  | 0x00 => some '0'
  | 0x07 => some 'a'
  | 0x08 => some 'b'
  | 0x09 => some 't'
  | 0x0a => some 'n'
  | 0x0b => some 'v'
  | 0x0c => some 'f'
  | 0x0d => some 'r'
  | 0x1b => some 'e'
  | 0x22 => some '"'
  | 0x5c => some '\\'
  | 0x85 => some 'N'
  | 0x2028 => some 'L'
  | 0x2029 => some 'P'
  | _ => none

/-- The escape of a character by its number. -/
def numberEscape (c : Char) : String :=
  let n := c.toNat
  let digits (width : Nat) : String := (Text.hex width n).toUpper
  if n ≤ 0xff then "\\x" ++ digits 2
  else if n ≤ 0xffff then "\\u" ++ digits 4
  else "\\U" ++ digits 8

/-- A character inside double quotes. -/
def escaped (c : Char) : String :=
  match escapeLetter? c with
  | some e => String.ofList ['\\', e]
  | none => if isShown c then String.singleton c else numberEscape c

/-- A character inside single quotes; a quote is written twice. -/
def doubledQuote (c : Char) : List Char := if c = '\'' then [c, c] else [c]

/-- What stands behind the mark of a block of lines.  A figure says how far the lines are indented,
where the first one does not show it; a sign says what becomes of the breaks at the end: there is
none, or there is more than one. -/
def linesHeader (cs : List Char) : String :=
  let indentation := if cs.head?.any fun c => isSpace c || isBreak c then "2" else ""
  let ending := match cs.reverse with
    | [] => "-"
    | [c] => if isBreak c then "+" else "-"
    | c :: d :: _ => if !isBreak c then "-" else if isBreak d then "+" else ""
  "|" ++ indentation ++ ending

/-- The lines of a text in a style. -/
def ScalarStyle.write (style : ScalarStyle) (s : String) : List Line :=
  let cs := s.toList
  match style with
  | .plain => [{ text := s }]
  | .single => Line.split [] ('\'' :: cs.flatMap doubledQuote ++ ['\''])
  | .double => [{ text := "\"" ++ String.join (cs.map escaped) ++ "\"" }]
  | .lines =>
    let body := Line.split [] cs
    { text := linesHeader cs } :: (if cs.getLast?.any isBreak then body.dropLast else body)

/-! ## Outlines

An outline says what is written and not where.  A scalar and a row stand behind their key; lists and
records that are not empty stand below it.
-/

/-- What is to be written: a word as it is, a text, a list of words on one line, a list, or a record
of keys with their values. -/
inductive Outline where
  | word (w : String)
  | text (s : String)
  | row (words : List String)
  | list (items : List Outline)
  | record (entries : List (String × Outline))
deriving Repr, Inhabited

namespace Outline

/-- Whether the value stands below its key and not behind it. -/
def isBlock : Outline → Bool
  | .list items => !items.isEmpty
  | .record entries => !entries.isEmpty
  | _ => false

/-- A key with the lines of its value.  A key that is too long, or has breaks, has a mark of its
own. -/
def entryLines (key : String) (block : Bool) (value : List Line) : List Line :=
  let written := (ScalarStyle.ofKey key).write key
  if !ScalarStyle.isShortKey key then Line.hang "? " written ++ Line.hang ": " value
  else
    let lead := String.join (written.map (·.text))
    if block then { text := lead ++ ":" } :: value.map Line.indented
    else Line.hang (lead ++ ": ") value

mutual

/-- The lines of an outline. -/
def lines : Outline → List Line
  | .word w => [{ text := w }]
  | .text s => (ScalarStyle.ofText s).write s
  | .row words => [{ text := "[" ++ ", ".intercalate words ++ "]" }]
  | .list [] => [{ text := "[]" }]
  | .list items => itemLines items
  | .record [] => [{ text := "\x7b\x7d" }]
  | .record entries => recordLines entries

/-- The lines of the items of a list. -/
def itemLines : List Outline → List Line
  | [] => []
  | t :: ts => Line.hang "- " t.lines ++ itemLines ts

/-- The lines of the entries of a record. -/
def recordLines : List (String × Outline) → List Line
  | [] => []
  | (key, value) :: more => entryLines key value.isBlock value.lines ++ recordLines more

end

/-- The outline as a document. -/
def render (t : Outline) : String := Line.join t.lines

end Outline

end Cellular.Yaml
