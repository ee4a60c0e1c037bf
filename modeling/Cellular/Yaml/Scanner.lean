import Cellular.Yaml.Property

/-!
# Splitting a document into tokens

Blocks have no marks of their own in the text: they start and end where the indentation says, so the
scanner keeps the indentations of the blocks that are open.  A key is known as one only when its
colon is reached, so the scanner keeps the place of what may turn out to be a key, one for every
open bracket, and inserts the mark of the key there.

Tokens are given away one by one, and never more than needed is read of the text: a token is given
away once two more are known and it is settled that no mark has to be inserted before it.

* `Scanner` is the state of splitting.
* `Scanner.fetch` reads the next token.
* `scan` splits a text; behind what it cannot split there are no more tokens.
-/

namespace Cellular.Yaml

/-- What may turn out to be a key: where it starts, the number of tokens before it, whether it may
still be one, and whether it has to be one because nothing else can stand there. -/
structure PossibleKey where
  possible : Bool := false
  required : Bool := false
  number : Nat
  index : Nat := 0
  line : Nat := 0
  column : Nat := 0
deriving Repr, DecidableEq, Inhabited

/-- The state of splitting a document. -/
structure Scanner where
  point : Point
  tokens : Array Token := #[⟨.textStart, 1⟩]
  /-- The number of tokens that are given away. -/
  given : Nat := 0
  /-- The indentation of the innermost open block; without one it is -1. -/
  indent : Int := -1
  outer : List Int := []
  /-- One entry for every open bracket and one for the text around them, the innermost first. -/
  keys : List PossibleKey := [{ number := 0 }]
  /-- Tokens that wait until it is settled whether they start a key, and how many brackets are open
  around each of them. -/
  waiting : List (Nat × Nat) := []
  keyAllowed : Bool := true
  /-- The part of the text, from its start on, in which the first character of a line is passed
  over. -/
  margin : Nat := 0
deriving Repr, Inhabited

namespace Scanner

/-- Blocks and brackets are nested at most this deep. -/
def maxDepth : Nat := 10000

/-- The number of open brackets. -/
def flow (s : Scanner) : Nat := s.keys.length - 1

/-- Whether a bracket is open. -/
def inFlow (s : Scanner) : Bool := s.flow ≠ 0

/-- Adds a token that starts at the present place. -/
def push (s : Scanner) (mark : Mark) : Scanner :=
  { s with tokens := s.tokens.push ⟨mark, s.point.line + 1⟩ }

/-- Inserts a token behind the first `number` tokens.  Behind tokens that are given away already
nothing can be inserted, so it comes last then. -/
def insert (s : Scanner) (number : Nat) (t : Token) : Scanner :=
  { s with
    tokens := if number < s.given then s.tokens.push t else s.tokens.insertIdxIfInBounds number t }

/-- Moves on by `n` characters. -/
def skip (s : Scanner) (n : Nat) : Scanner := { s with point := s.point.skipMany n }

/-- Says whether a key may start behind the present place. -/
def allowKey (s : Scanner) (allowed : Bool) : Scanner := { s with keyAllowed := allowed }

/-! ## Keys

A possible key lasts as long as its line and no longer than the format allows.  One that has to be a
key, because it stands where a block wants one, may not lapse.
-/

/-- The innermost possible key. -/
def key (s : Scanner) : PossibleKey := s.keys.headD { number := 0 }

/-- Replaces the innermost possible key. -/
def setKey (s : Scanner) (k : PossibleKey) : Scanner := { s with keys := k :: s.keys.tail }

/-- A token no longer waits. -/
def release (s : Scanner) (number : Nat) : Scanner :=
  { s with waiting := s.waiting.filter (·.1 ≠ number) }

/-- Gives the innermost possible key up; one that has to be a key may not be given up. -/
def dropKey (s : Scanner) : Parsed Scanner :=
  let k := s.key
  if !k.possible then some s
  else if k.required then none
  else some ((s.setKey { k with possible := false }).release k.number)

/-- Notes that a key may start here, if one is allowed here. -/
def noteKey (s : Scanner) : Parsed Scanner :=
  if s.keyAllowed then do
    let p := s.point
    let number := s.tokens.size
    let t ← s.dropKey
    let t := t.setKey
      { possible := true, required := !s.inFlow && s.indent = p.column, number, index := p.index,
        line := p.line, column := p.column }
    return { t.release number with waiting := (number, s.flow) :: (t.release number).waiting }
  else some s

/-- Whether a possible key can still get its colon: it has to stand in the same line, at most 1024
characters before.  If it cannot, it is no possible key any more, unless it has to be one. -/
def judge (s : Scanner) (k : PossibleKey) : Parsed (Bool × PossibleKey) :=
  if !k.possible then some (false, k)
  else if k.line < s.point.line || k.index + 1024 < s.point.index then
    if k.required then none else some (false, { k with possible := false })
  else some (true, k)

/-! ## Blocks

Inside brackets there are no blocks, and indentation means nothing.  Otherwise each block that is
deeper than the present column is closed before the next token.
-/

/-- Opens a block at a column if the open ones are all indented by less.  Its token is inserted
behind the first `number` tokens. -/
def openBlock (s : Scanner) (column number line : Nat) (mark : Mark) : Parsed Scanner :=
  if s.inFlow || (column : Int) ≤ s.indent then some s
  else if maxDepth ≤ s.outer.length then none
  else some { s.insert number ⟨mark, line + 1⟩ with indent := column, outer := s.indent :: s.outer }

/-- Opens a block at the present place. -/
def openHere (s : Scanner) (mark : Mark) : Parsed Scanner :=
  s.openBlock s.point.column s.tokens.size s.point.line mark

/-- Closes the blocks that are indented by more than a column. -/
def closeBlocks (column : Int) : List Int → Int → Array Token → Nat → List Int × Int × Array Token
  | [], indent, tokens, line =>
    if column < indent then ([], -1, tokens.push ⟨.blockEnd, line + 1⟩) else ([], indent, tokens)
  | up :: outer, indent, tokens, line =>
    if column < indent then closeBlocks column outer up (tokens.push ⟨.blockEnd, line + 1⟩) line
    else (up :: outer, indent, tokens)

/-- Closes the blocks that are indented by more than a column, unless a bracket is open. -/
def closeTo (s : Scanner) (column : Int) : Scanner :=
  if s.inFlow then s
  else
    let (outer, indent, tokens) := closeBlocks column s.outer s.indent s.tokens s.point.line
    { s with outer, indent, tokens }

/-! ## White space and comments

Nothing here gives a token, but a new line may allow a key again.  A comment is read together with
the comments behind it, as far as the scanner looks ahead.
-/

/-- The place behind blanks and breaks. -/
def skipBlankLines : Nat → Point → Point
  | 0, p => p
  | fuel + 1, p =>
    if p.atBreak then skipBlankLines fuel p.skipBreak
    else if p.atGap then skipBlankLines fuel p.skip
    else p

/-- How far comments look ahead for the next one. -/
def commentReach : Nat := 512

/-- The blanks and breaks between the end of a comment and another comment, if one follows. -/
def toNextComment? (p : Point) : Option Nat :=
  let isWhite (c : Char) : Bool := isGapChar c || c = '\n' || c = '\r'
  let near := p.rest.take commentReach
  let white := near.takeWhile isWhite
  if !white.isEmpty && (near.drop white.length).head? = some '#' then some white.length else none

/-- The place behind a comment and behind all comments that follow it. -/
def skipComments : Nat → Point → Point
  | 0, p => p
  | fuel + 1, p =>
    let q := p.skipComment
    match toNextComment? q with
    | some n => skipComments fuel (skipBlankLines n q)
    | none => q

/-- Passes the first character of a line over, where this has to be done. -/
def skipMargin (s : Scanner) : Scanner :=
  if s.point.column = 0 && 0 < s.margin && !s.point.atEnd then s.skip 1 else s

/-- Moves over white space and comments.  A new line outside brackets allows a key again; where one
is allowed, tabs are no white space. -/
def skipSpace : Nat → Scanner → Scanner
  | 0, s => s
  | fuel + 1, s =>
    let s := s.skipMargin
    let blank (c : Char) : Bool := c = ' ' || ((s.inFlow || !s.keyAllowed) && c = '\t')
    let p := s.point.skipMany (s.point.rest.takeWhile blank).length
    let p := if p.startsWith '#' then skipComments p.rest.length p else p
    if p.atBreak then
      skipSpace fuel { s with point := p.skipBreak, keyAllowed := s.keyAllowed || !s.inFlow }
    else { s with point := p }

/-- Moves over a comment in the line of the token before it. -/
def skipLineComment (s : Scanner) : Scanner :=
  let p := s.point.skipGap
  if p.startsWith '#' then { s with point := p.skipComment } else s

/-! ## Single tokens

One function for each sort of token.  Each says what becomes of the possible key before it, adds its
token, and says whether a key may come next.
-/

/-- A line that starts or ends a document, or a directive: all blocks are closed. -/
def boundary (s : Scanner) : Parsed Scanner := do
  let s ← (s.closeTo (-1)).dropKey
  return s.allowKey false

/-- The end of the text.  It stands in a line of its own. -/
def textEnd (s : Scanner) : Parsed Scanner := do
  let p := s.point
  let s := if p.column = 0 then s else { s with point := { p with line := p.line + 1, column := 0 } }
  let s ← s.boundary
  return s.push .textEnd

/-- The mark of three characters that starts or ends a document. -/
def documentMark (s : Scanner) (mark : Mark) : Parsed Scanner := do
  let s ← s.boundary
  return (s.push mark).skip 3

/-- A directive. -/
def directive (s : Scanner) : Parsed Scanner := do
  let s ← s.boundary
  let (mark, p) ← readDirective s.point.skip
  return { s.push mark with point := p }

/-- An opening bracket or brace. -/
def openFlow (s : Scanner) (mark : Mark) : Parsed Scanner := do
  let s ← s.noteKey
  if maxDepth ≤ s.flow then none
  else
    let inner : PossibleKey := { number := s.tokens.size }
    return ({ s.push mark with keys := inner :: s.keys, keyAllowed := true }).skip 1

/-- A closing bracket or brace. -/
def closeFlow (s : Scanner) (mark : Mark) : Parsed Scanner := do
  let s ← s.dropKey
  let s := if s.inFlow then { s.release s.key.number with keys := s.keys.tail } else s
  return ((s.allowKey false).push mark).skip 1

/-- A comma. -/
def comma (s : Scanner) : Parsed Scanner := do
  let s ← s.dropKey
  return ((s.allowKey true).push .comma).skip 1

/-- The dash of a sequence entry, which opens a sequence where none is open. -/
def entry (s : Scanner) : Parsed Scanner := do
  if !s.inFlow && !s.keyAllowed then none
  else
    let s ← s.openHere .sequenceStart
    let s ← s.dropKey
    return ((s.allowKey true).push .entry).skip 1

/-- The mark of a key that is written out. -/
def explicitKey (s : Scanner) : Parsed Scanner := do
  if !s.inFlow && !s.keyAllowed then none
  else
    let s ← s.openHere .mappingStart
    let s ← s.dropKey
    return ((s.allowKey !s.inFlow).push .key).skip 1

/-- A colon.  If a key stands before it, its mark is inserted, and that of a mapping if none is open
there. -/
def value (s : Scanner) : Parsed Scanner := do
  let (valid, k) ← s.judge s.key
  let s := s.setKey k
  if valid then
    let s := s.insert k.number ⟨.key, k.line + 1⟩
    let s ← s.openBlock k.column k.number k.line .mappingStart
    let s := (s.setKey { k with possible := false }).release k.number
    return ((s.allowKey false).push .value).skip 1
  else if !s.inFlow && !s.keyAllowed then none
  else
    let s ← s.openHere .mappingStart
    return ((s.allowKey !s.inFlow).push .value).skip 1

/-- Adds a token that starts at the present place and ends at another one. -/
def addTo (s : Scanner) (mark : Mark) (p : Point) : Scanner := { s.push mark with point := p }

/-- The name of a node, or that of a node that stands elsewhere. -/
def name (s : Scanner) (mark : String → Mark) : Parsed Scanner := do
  let s ← s.noteKey
  let (name, p) ← anchorName s.point.skip
  return (s.allowKey false).addTo (mark name) p

/-- A tag. -/
def tag (s : Scanner) : Parsed Scanner := do
  let s ← s.noteKey
  let (mark, p) ← readTag s.point
  return (s.allowKey false).addTo mark p

/-- A scalar in lines of its own. -/
def block (s : Scanner) (literal : Bool) : Parsed Scanner := do
  let s ← s.dropKey
  let (text, p) ← blockScalar literal s.indent s.point.skip
  return (s.allowKey true).addTo (.scalar false (String.ofList text)) p

/-- A scalar in quotes. -/
def quoted (s : Scanner) (double : Bool) : Parsed Scanner := do
  let s ← s.noteKey
  let (text, p) ← quotedScalar double s.point.skip
  return (s.allowKey false).addTo (.scalar false (String.ofList text)) p

/-- A scalar without quotes. -/
def plain (s : Scanner) : Parsed Scanner := do
  let s ← s.noteKey
  let (text, newLine, p) ← plainScalar s.inFlow (s.indent + 1) s.point
  let s := (s.allowKey newLine).addTo (.scalar true (String.ofList text)) p
  return if newLine then s else s.skipLineComment

/-- Characters that do not start a scalar without quotes. -/
def marks : List Char :=
  ['-', '?', ':', ',', '[', ']', '\x7b', '\x7d', '#', '&', '*', '!', '|', '>', '\'', '"', '%',
   '@', Char.ofNat 0x60]

/-- Whether a scalar without quotes starts with `c` before the text `cs`. -/
def startsPlain (s : Scanner) (c : Char) (cs : List Char) : Bool :=
  !(isGapChar c || isBreak c || c ∈ marks)
    || (c = '-' && !(cs.head?.map isGapChar).getD false)
    || (!s.inFlow && (c = '?' || c = ':') && !startsBlank cs)

/-- Reads the token at the present place, which is not at the end of the text. -/
def token (s : Scanner) (c : Char) (cs : List Char) : Parsed Scanner :=
  if s.point.column = 0 && c = '%' then s.directive
  else if s.point.atDocumentMark then
    s.documentMark (if c = '-' then .documentStart else .documentEnd)
  else match c with
    | '[' => (s.openFlow .bracketOpen).map skipLineComment
    | '\x7b' => (s.openFlow .braceOpen).map skipLineComment
    | ']' => (s.closeFlow .bracketClose).map skipLineComment
    | '\x7d' => (s.closeFlow .braceClose).map skipLineComment
    | ',' => s.comma.map skipLineComment
    | '*' => (s.name .reference).map skipLineComment
    | '&' => (s.name .anchor).map skipLineComment
    | '!' => s.tag.map skipLineComment
    | '\'' => (s.quoted false).map skipLineComment
    | '"' => (s.quoted true).map skipLineComment
    | _ =>
      if c = '-' && startsBlank cs then s.entry
      else if c = '?' && (s.inFlow || startsBlank cs) then s.explicitKey.map skipLineComment
      else if c = ':' && (s.inFlow || startsBlank cs) then s.value.map skipLineComment
      else if c = '|' && !s.inFlow then s.block true
      else if c = '>' && !s.inFlow then s.block false
      else if s.startsPlain c cs then s.plain
      else none

/-! ## All tokens

Marks of keys and of blocks are inserted before tokens that were read earlier.  A token therefore
waits until nothing can be inserted before it any more.
-/

/-- Reads the next token, and the ends of the blocks before it. -/
def fetch (s : Scanner) : Parsed Scanner :=
  let s := skipSpace (s.point.rest.length + 1) s
  let s := s.closeTo s.point.column
  let s := if s.margin < s.point.index + 4 then { s with margin := 0 } else s
  match s.point.rest with
  | [] => s.textEnd
  | c :: cs => s.token c cs

/-- Whether the next token can be given away: two more are known, and no mark can be inserted before
it any more. -/
def settle (s : Scanner) : Parsed (Bool × Scanner) :=
  if s.tokens.size ≤ s.given + 2 then some (false, s)
  else match s.waiting.lookup s.given with
    | none => some (true, s)
    | some depth =>
      let i := s.flow - depth
      match s.keys[i]? with
      | none => some (true, s)
      | some k => (s.judge k).map fun (valid, k) => (!valid, { s with keys := s.keys.set i k })

/-- Gives tokens away up to the end of the text, or up to a place where there is no token. -/
def run : Nat → Scanner → List Token
  | 0, s => s.tokens.toList.take s.given
  | fuel + 1, s =>
    match s.settle with
    | none => s.tokens.toList.take s.given
    | some (true, s) =>
      if s.tokens[s.given]?.any (·.mark = .textEnd) then s.tokens.toList.take (s.given + 1)
      else run fuel { s with given := s.given + 1 }
    | some (false, s) =>
      match s.fetch with
      | none => s.tokens.toList.take s.given
      | some t => run fuel t

end Scanner

/-- The mark that says in which order the bytes of a text are. -/
def byteOrderMark : Char := Char.ofNat 0xfeff

/-- The number of characters in the first `n` bytes of a text. -/
def charsIn : Nat → List Char → Nat
  | _, [] => 0
  | n, c :: cs => if c.utf8Size ≤ n then charsIn (n - c.utf8Size) cs + 1 else 0

/-- The margin of a text behind its byte order mark.  A second mark right behind it takes up the
first column of the lines that stand in the first 512 bytes. -/
def margin (text : List Char) : Nat :=
  if text.head? = some byteOrderMark then charsIn 509 text else 0

/-- Splits a text into tokens.  A byte order mark before the text is no part of it, and a text with
characters that no document has gives no tokens. -/
def scan (text : List Char) : List Token :=
  let body := if text.head? = some byteOrderMark then text.tail else text
  let marked := body.length ≠ text.length
  if body.all isAllowed then
    Scanner.run (8 * body.length + 64)
      { point := { rest := body }, margin := if marked then margin body else 0 }
  else []

end Cellular.Yaml
