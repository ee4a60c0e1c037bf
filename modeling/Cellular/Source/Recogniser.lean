import Cellular.Source.Grammar

/-!
# Recognising tokens by the grammar

The recogniser walks the grammar with one token of lookahead and does not go back over a choice
that has moved on by more than one token.  When a text does not fit, the diagnostic that got
furthest is reported, so beside its place in the tokens the recogniser carries the deepest
diagnostic seen.

* `Cursor` is that state, `Outcome` the result of trying one grammar expression.
* `recognise` tries a grammar expression; its fuel bounds the depth of the walk.
* `parseTree` recognises a whole text and gives its `Tree`.

With so little lookahead a recogniser may refuse a text that the grammar derives.  For the grammar
of rules it does not, and the fuel that `parseTree` gives is enough for every text; both are proved
in terms of a relation of derivability, which has neither lookahead nor fuel.
-/

namespace Cellular

/-- How a text was derived: tokens and the named rules above them.  A rule carries the place of its
first token. -/
inductive Tree where
  | leaf (token : Token)
  | node (production : Production) (pos : Position) (children : List Tree)
deriving Repr, Inhabited

/-- A token that the grammar does not allow, and what it would allow there. -/
structure Unexpected where
  token : Token
  expected : List Grammar := []
deriving Repr, Inhabited

/-- The diagnostic of an unexpected token. -/
def Unexpected.cause (u : Unexpected) : ParseCause :=
  .unexpected u.token.shown
    (if u.expected.isEmpty then none else some (Grammar.restText u.expected))

/-- Where the recogniser stands: the tokens to come and the number of those behind, and the deepest
diagnostic so far with the number of tokens before it. -/
structure Cursor where
  rest : List Token
  index : Nat := 0
  deepest : Option Unexpected := none
  depth : Nat := 0
deriving Repr, Inhabited

namespace Cursor

/-- The next token; behind the last one there is only the end. -/
def next (c : Cursor) : Token := c.rest.headD {}

/-- The state behind the next token. -/
def advance (c : Cursor) : Cursor := { c with rest := c.rest.tail, index := c.index + 1 }

/-- Records a diagnostic unless a deeper one is known. -/
def note (c : Cursor) (u : Unexpected) : Cursor :=
  if c.depth ≤ c.index then { c with deepest := some u, depth := c.index } else c

/-- Moves on to where the attempt `b` stands, with its diagnostic if it is at least as deep. -/
def accept (c b : Cursor) : Cursor :=
  let moved := { c with rest := b.rest, index := b.index }
  if c.depth ≤ b.depth then { moved with deepest := b.deepest, depth := b.depth } else moved

/-- Takes the diagnostic of the attempt `b`, which failed with `u`. -/
def learn (c b : Cursor) (u : Unexpected) : Cursor :=
  if c.depth < b.depth then { c with deepest := b.deepest, depth := b.depth }
  else if c.depth ≤ b.index then { c with deepest := some u, depth := max b.index b.depth }
  else c

/-- Whether the attempt `b` has moved on by more than one token, so that its failure is final. -/
def committed (c b : Cursor) : Bool := c.index + 1 < b.index

end Cursor

/-- The result of trying one grammar expression. -/
inductive Outcome where
  | noMatch
  | matched (trees : List Tree)
  | failed (error : Unexpected)
deriving Repr, Inhabited

mutual

/-- Tries the grammar expression `g` at `c`. -/
def recognise (fuel : Nat) (g : Grammar) (c : Cursor) : Outcome × Cursor :=
  match fuel with
  | 0 => (.noMatch, c)
  | fuel + 1 =>
    match g with
    | .literal text =>
      if c.next.text = text then (.matched [.leaf c.next], c.advance) else (.noMatch, c)
    | .kind k =>
      if c.next.kind = k then (.matched [.leaf c.next], c.advance) else (.noMatch, c)
    | .rule p =>
      match recognise fuel p.body c with
      | (.matched trees, b) => (.matched [.node p c.next.pos trees], b)
      | (.failed u, b) => (.failed u, b.note u)
      | (.noMatch, b) => (.noMatch, b)
    | .seq items => recogniseSeq fuel true items c
    | .alt items => recogniseAlt fuel items 0 none c
    | .optional item => recogniseMany fuel false item c
    | .many item => recogniseMany fuel true item c

/-- Tries the items of a sequence in turn.  A sequence whose `first` item does not match does not
match; after that a missing item is an error. -/
def recogniseSeq (fuel : Nat) (first : Bool) (items : List Grammar) (c : Cursor) :
    Outcome × Cursor :=
  match fuel with
  | 0 => if first then (.noMatch, c) else (.failed ⟨c.next, items⟩, c)
  | fuel + 1 =>
    match items with
    | [] => (.matched [], c)
    | item :: more =>
      match recognise fuel item c with
      | (.failed u, b) => (.failed u, b)
      | (.noMatch, b) =>
        if first then (.noMatch, b) else (.failed ⟨b.next, item :: more⟩, b)
      | (.matched trees, b) =>
        match recogniseSeq fuel false more b with
        | (.matched others, d) => (.matched (trees ++ others), d)
        | r => r

/-- Tries alternatives in turn and takes the first that matches.  `best` is the error that got
furthest, as the number of tokens behind it and the error itself. -/
def recogniseAlt (fuel : Nat) (items : List Grammar) (reach : Nat) (best : Option Unexpected)
    (c : Cursor) : Outcome × Cursor :=
  match fuel with
  | 0 => (.noMatch, c)
  | fuel + 1 =>
    match items with
    | [] =>
      match best with
      | some u => (.failed u, c.note u)
      | none => (.noMatch, c)
    | item :: more =>
      match recognise fuel item c with
      | (.matched trees, b) => (.matched trees, c.accept b)
      | (.noMatch, _) => recogniseAlt fuel more reach best c
      | (.failed u, b) =>
        let d := c.learn b u
        if c.committed b then (.failed u, d.accept b)
        else if reach ≤ b.index then recogniseAlt fuel more b.index (some u) d
        else recogniseAlt fuel more reach best d

/-- Tries an item as often as it matches, or at most once unless `again`.  An error that is not
final ends the repetition. -/
def recogniseMany (fuel : Nat) (again : Bool) (item : Grammar) (c : Cursor) : Outcome × Cursor :=
  match fuel with
  | 0 => (.matched [], c)
  | fuel + 1 =>
    match recognise fuel item c with
    | (.noMatch, b) => (.matched [], c.accept b)
    | (.matched trees, b) =>
      if again then
        match recogniseMany fuel true item (c.accept b) with
        | (.matched others, d) => (.matched (trees ++ others), d)
        | r => r
      else (.matched trees, c.accept b)
    | (.failed u, b) =>
      let d := (c.note u).learn b u
      if c.committed b then (.failed u, d.accept b) else (.matched [], d)

end

/-- Enough fuel for every text of `n` tokens: between two tokens the walk goes through each named
rule at most once, and no right-hand side is deeper than the factor. -/
def recogniserFuel (n : Nat) : Nat := 64 * (n + 1)

/-- Derives a whole list of tokens, the last of which marks the end, from a named rule. -/
def parseTree (p : Production) (tokens : List Token) : Except Unexpected Tree :=
  match recognise (recogniserFuel tokens.length) (.rule p) { rest := tokens } with
  | (.failed u, _) => .error u
  | (.matched [tree], c) =>
    if c.next.kind = .eof then .ok tree else .error (final c)
  | (_, c) => .error (final c)
where
  /-- The diagnostic for a text that goes on where it should end. -/
  final (c : Cursor) : Unexpected :=
    if c.depth ≤ c.index then { token := c.next } else c.deepest.getD { token := c.next }

end Cellular
