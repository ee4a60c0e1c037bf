import Cellular.Yaml.Point

/-!
# Scalars of a document

How the text of a scalar is read, for each of its styles.

* `plainScalar` reads a scalar without quotes, `quotedScalar` one in quotes, and `blockScalar` one
  in lines of its own.
* The result is the text that the scalar stands for and the place behind it.
-/

namespace Cellular.Yaml

/-- What reading a document gives; a text that is no document has no further reason here. -/
abbrev Parsed (β : Type) := Option β

/-! ## White space inside scalars

White space is read as a gap and folded afterwards, since the style decides on what a gap becomes.
Blanks behind a break are indentation and are dropped.
-/

/-- Reads white space up to the next other character.  `tabsFrom` is the column from which on a line
may be indented by tabs, if that matters. -/
def readGap (tabsFrom : Option Nat) : Nat → Gap → Point → Parsed (Gap × Point)
  | 0, g, p => some (g, p)
  | fuel + 1, g, p =>
    if p.atBreak then readGap tabsFrom fuel { g with breaks := g.breaks ++ p.breakText } p.skipBreak
    else match p.rest with
      | c :: _ =>
        if !isGapChar c then some (g, p)
        else if g.breaks.isEmpty then
          readGap tabsFrom fuel { g with blanks := g.blanks ++ [c] } p.skip
        else if c = '\t' && tabsFrom.any (p.column < ·) then none
        else readGap tabsFrom fuel g p.skip
      | [] => some (g, p)

/-! ## Plain scalars

Whether a mark ends a scalar depends on what stands behind it and on the brackets around it.  The
text is collected part by part, and a gap becomes text only when another part follows.
-/

/-- The characters that end a plain scalar inside brackets. -/
def flowMarks : List Char := [',', '?', '[', ']', '\x7b', '\x7d']

/-- One part of a plain scalar: up to white space, to a colon before white space, and inside
brackets to a mark of theirs. -/
def plainPart (inFlow : Bool) : List Char → List Char
  | [] => []
  | c :: cs =>
    if isGapChar c || isBreak c then []
    else if c = ':' && startsBlank cs then []
    else if inFlow && c ∈ flowMarks then []
    else c :: plainPart inFlow cs

/-- Reads the parts of a plain scalar; `acc` is its text so far and `gap` the white space behind it.
The scalar ends where a line is indented by less than `indent`.  The result says whether a line
break stands between its end and the place behind it. -/
def plainParts (inFlow : Bool) (indent : Int) :
    Nat → List Char → Gap → Point → Parsed (List Char × Bool × Point)
  | 0, acc, gap, p => some (acc, !gap.breaks.isEmpty, p)
  | fuel + 1, acc, gap, p =>
    if p.atDocumentMark || p.startsWith '#' then some (acc, !gap.breaks.isEmpty, p)
    else match plainPart inFlow p.rest with
      | [] => some (acc, !gap.breaks.isEmpty, p)
      | part =>
        let acc := acc ++ gap.folded ++ part
        let p := p.skipMany part.length
        if p.atGap || p.atBreak then
          match readGap (some indent.toNat) p.rest.length {} p with
          | none => none
          | some (gap, q) =>
            if !inFlow && (q.column : Int) < indent then some (acc, !gap.breaks.isEmpty, q)
            else plainParts inFlow indent fuel acc gap q
        else some (acc, false, p)

/-- Reads a plain scalar whose further lines are indented by `indent` at least. -/
def plainScalar (inFlow : Bool) (indent : Int) (p : Point) : Parsed (List Char × Bool × Point) :=
  plainParts inFlow indent (p.rest.length + 1) [] {} p

/-! ## Quoted scalars

Single quotes know one escape, two quotes for one.  Double quotes have the others, among them one
that joins two lines without a blank.
-/

/-- The value of a hexadecimal digit. -/
def hexValue? (c : Char) : Option Nat :=
  if '0' ≤ c && c ≤ '9' then some (c.toNat - '0'.toNat)
  else if 'a' ≤ c && c ≤ 'f' then some (c.toNat - 'a'.toNat + 10)
  else if 'A' ≤ c && c ≤ 'F' then some (c.toNat - 'A'.toNat + 10)
  else none

/-- The number that digits of a base spell, up to 16. -/
def hexDigits? (base : Nat) (cs : List Char) : Option Nat :=
  cs.foldlM
    (fun n c => (hexValue? c).bind fun d => if d < base then some (base * n + d) else none) 0

/-- The number that hexadecimal digits spell. -/
def hexNumber? (cs : List Char) : Option Nat := hexDigits? 16 cs

/-- What an escape stands for that is a single letter. -/
def letterEscape? : Char → Option Nat
  | '0' => some 0x00
  | 'a' => some 0x07
  | 'b' => some 0x08
  | 't' => some 0x09
  | '\t' => some 0x09
  | 'n' => some 0x0a
  | 'v' => some 0x0b
  | 'f' => some 0x0c
  | 'r' => some 0x0d
  | 'e' => some 0x1b
  | ' ' => some 0x20
  | '"' => some 0x22
  | '\'' => some 0x27
  | '\\' => some 0x5c
  | 'N' => some 0x85
  | '_' => some 0xa0
  | 'L' => some 0x2028
  | 'P' => some 0x2029
  | _ => none

/-- How many digits follow the letter of an escape by number. -/
def escapeDigits? : Char → Option Nat
  | 'x' => some 2
  | 'u' => some 4
  | 'U' => some 8
  | _ => none

/-- The character that the escape with the letter `c` before the text `more` stands for, and the
number of characters of `more` that belong to it. -/
def escape? (c : Char) (more : List Char) : Option (Char × Nat) :=
  match letterEscape? c, escapeDigits? c with
  | some n, _ => some (Char.ofNat n, 0)
  | none, some digits =>
    if more.length < digits then none
    else match hexNumber? (more.take digits) with
      | none => none
      | some n => if n.isValidChar then some (Char.ofNat n, digits) else none
  | none, none => none

/-- The end of one part of a quoted scalar. -/
inductive PartEnd where
  /-- The closing quote, and the place behind it. -/
  | closed (p : Point)
  /-- White space, and the place before it. -/
  | gap (p : Point)
  /-- A line break that is escaped, and the place behind it. -/
  | joined (p : Point)

/-- Reads one part of a quoted scalar, up to white space or to the closing quote. -/
def quotedPart (double : Bool) : Nat → List Char → Point → Parsed (List Char × PartEnd)
  | 0, _, _ => none
  | fuel + 1, acc, p =>
    match p.rest with
    | [] => none
    | c :: cs =>
      if isGapChar c || isBreak c then some (acc, .gap p)
      else if double then
        if c = '"' then some (acc, .closed p.skip)
        else if c = '\\' then
          if p.skip.atBreak then some (acc, .joined p.skip.skipBreak)
          else match cs with
            | [] => none
            | letter :: more =>
              match escape? letter more with
              | none => none
              | some (d, n) => quotedPart double fuel (acc ++ [d]) (p.skipMany (2 + n))
        else quotedPart double fuel (acc ++ [c]) p.skip
      else if c = '\'' then
        if p.skip.startsWith '\'' then quotedPart double fuel (acc ++ [c]) (p.skipMany 2)
        else some (acc, .closed p.skip)
      else quotedPart double fuel (acc ++ [c]) p.skip

/-- Reads the parts of a quoted scalar up to its closing quote; `acc` is its text so far. -/
def quotedParts (double : Bool) : Nat → List Char → Point → Parsed (List Char × Point)
  | 0, _, _ => none
  | fuel + 1, acc, p =>
    if p.atDocumentMark then none
    else match quotedPart double (p.rest.length + 1) acc p with
      | none => none
      | some (acc, .closed q) => some (acc, q)
      | some (acc, .gap q) =>
        match readGap none q.rest.length {} q with
        | none => none
        | some (gap, r) => quotedParts double fuel (acc ++ gap.folded) r
      | some (acc, .joined q) =>
        -- the break and the blanks around it are gone; further breaks stay
        match readGap none q.rest.length {} q with
        | none => none
        | some (gap, r) => quotedParts double fuel (acc ++ gap.breaks) r

/-- Reads a quoted scalar behind its opening quote. -/
def quotedScalar (double : Bool) (p : Point) : Parsed (List Char × Point) :=
  quotedParts double (p.rest.length + 1) [] p

/-! ## Block scalars

The lines of a block are indented by one width, which the header says or the first line that is not
empty shows.  Breaks at the end are kept apart, because the header decides on them.
-/

/-- What becomes of the line breaks at the end of a block scalar. -/
inductive Chomp where
  | strip
  | clip
  | keep
deriving Repr, DecidableEq

/-- The header of a block scalar behind its mark: what becomes of its end, and how far its lines are
indented if the header says so. -/
def blockHeader (p : Point) : Parsed (Chomp × Option Nat × Point) :=
  let chomp? (c : Char) : Option Chomp :=
    if c = '+' then some .keep else if c = '-' then some .strip else none
  let digit? (c : Char) : Option Nat :=
    if '0' ≤ c && c ≤ '9' then some (c.toNat - '0'.toNat) else none
  match p.rest with
  | [] => some (.clip, none, p)
  | c :: cs =>
    match chomp? c, digit? c with
    | some chomp, _ =>
      match cs.head?.bind digit? with
      | some 0 => none
      | some n => some (chomp, some n, p.skipMany 2)
      | none => some (chomp, none, p.skip)
    | none, some 0 => none
    | none, some n =>
      match cs.head?.bind chomp? with
      | some chomp => some (chomp, some n, p.skipMany 2)
      | none => some (.clip, some n, p.skip)
    | none, none => some (.clip, none, p)

/-- The place behind blanks. -/
def Point.skipGap (p : Point) : Point := p.skipMany (p.rest.takeWhile isGapChar).length

/-- The place behind the comment that starts at a place, if one does. -/
def Point.skipComment (p : Point) : Point :=
  if p.startsWith '#' then p.skipMany (p.rest.takeWhile (!isBreak ·)).length else p

/-- The rest of a line: blanks, perhaps a comment, and the line break. -/
def lineEnd (p : Point) : Parsed Point :=
  let p := p.skipGap.skipComment
  if p.atEnd then some p else if p.atBreak then some p.skipBreak else none

/-- Reads the empty lines before a line of a block scalar.  `indent` is how far its lines are
indented, if that is known; `widest` is the widest indentation seen.  A tab may not stand for
indentation. -/
def blockBreaks (indent : Option Nat) :
    Nat → List Char → Nat → Point → Parsed (List Char × Nat × Point)
  | 0, breaks, widest, p => some (breaks, widest, p)
  | fuel + 1, breaks, widest, p =>
    let blanks := (p.rest.takeWhile (· = ' ')).length
    let p := p.skipMany (match indent with
      | none => blanks
      | some n => min blanks (n - p.column))
    let widest := max widest p.column
    let unsettled := indent.all (p.column < ·)
    if unsettled && p.startsWith '\t' then none
    else if p.atBreak then
      blockBreaks indent fuel (breaks ++ p.breakText) widest p.skipBreak
    else some (breaks, widest, p)

/-- The state between two lines of a block scalar: its text, the break behind its last line, the
breaks behind that, and whether its last line started with a blank. -/
structure BlockText where
  text : List Char := []
  lastBreak : List Char := []
  breaks : List Char := []
  blankStart : Bool := false

/-- Reads the lines of a block scalar that are indented by `indent`.  A folded scalar turns a single
break between two lines into a blank, unless one of them starts with a blank. -/
def blockLines (literal : Bool) (indent : Nat) :
    Nat → BlockText → Point → Parsed (BlockText × Point)
  | 0, t, p => some (t, p)
  | fuel + 1, t, p =>
    if p.column ≠ indent || p.atEnd then some (t, p)
    else
      let joint :=
        if !literal && !t.blankStart && !p.atGap && t.lastBreak = ['\n'] then
          if t.breaks.isEmpty then [' '] else []
        else t.lastBreak
      let line := p.rest.takeWhile (!isBreak ·)
      let q := p.skipMany line.length
      match blockBreaks (some indent) (q.rest.length + 1) [] 0 q.skipBreak with
      | none => none
      | some (breaks, _, r) =>
        blockLines literal indent fuel
          { text := t.text ++ joint ++ t.breaks ++ line
            lastBreak := q.breakText, breaks, blankStart := p.atGap } r

/-- Reads a block scalar behind its mark, inside a block that is indented by `parent`. -/
def blockScalar (literal : Bool) (parent : Int) (p : Point) : Parsed (List Char × Point) := do
  let (chomp, given, p) ← blockHeader p
  let p ← lineEnd p
  let base := given.map fun n => (max parent 0).toNat + n
  let (breaks, widest, p) ← blockBreaks base (p.rest.length + 1) [] 0 p
  let indent := base.getD (max widest (max (parent + 1) 1).toNat)
  let (t, p) ← blockLines literal indent (p.rest.length + 1) { breaks } p
  return match chomp with
    | .strip => (t.text, p)
    | .clip => (t.text ++ t.lastBreak, p)
    | .keep => (t.text ++ t.lastBreak ++ t.breaks, p)

end Cellular.Yaml
