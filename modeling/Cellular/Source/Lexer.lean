import Cellular.Source.Token
import Cellular.Number.Decimal

/-!
# From characters to tokens

At every place of a rule text the lexical rules are tried in a fixed order and the first that
matches wins, whatever the length of its match.  Blanks and comments match rules of their own and
are left out of the result.

* `lexemeLength` says how many characters each rule takes at the front of a text.
* `scan?` finds the first rule that matches.
* `lex` splits a whole text.

Where no rule matches, the splitting ends, and the tokens before that place come with the error.
Tokens keep their exact text, so that diagnostics show it and a tree has the literals of its source.
-/

namespace Cellular

open Number (isDigit)

/-- What a lexical rule recognises: text that is skipped, or a token. -/
inductive Lexeme where
  | comment
  | blank
  | token (kind : TokenKind)
deriving Repr, DecidableEq

/-! ## Character classes

Only ASCII letters and digits belong to names and numbers.  Other characters stand in comments
alone.
-/

/-- The blanks of a rule text. -/
def isBlank (c : Char) : Bool :=
  c = ' ' || c = '\t' || c = '\n' || c = '\r' || c = '\x0c'

/-- An ASCII letter or an underscore, which may start a name. -/
def isNameStart (c : Char) : Bool :=
  ('a' ≤ c && c ≤ 'z') || ('A' ≤ c && c ≤ 'Z') || c = '_'

/-- A character that may stand inside a name. -/
def isNamePart (c : Char) : Bool := isNameStart c || isDigit c

/-- The words of the rule language. -/
def keywords : List String := ["if", "else", "true", "false", "int", "float", "bool"]

/-- The operators of two characters. -/
def longOperators : List (Char × Char) :=
  [('|', '|'), ('&', '&'), ('=', '='), ('!', '='), ('<', '='), ('>', '='),
   ('+', '='), ('-', '='), ('*', '='), ('/', '='), ('%', '=')]

/-- The operators of one character. -/
def shortOperators : List Char :=
  ['-', '+', '*', '/', '%', '<', '>', '=', '!', '?', ':']

/-- The punctuation marks. -/
def punctuation : List Char := ['(', ')', '\x7b', '\x7d', ';', '.']

/-! ## How many characters a rule takes

Each function gives the length of what its rule matches at the front of the text, 0 for no match. -/

/-- The length of the longest front part in a class. -/
def spanLength (p : Char → Bool) (cs : List Char) : Nat := (cs.takeWhile p).length

/-- The number of characters up to and with the first `*/`, 0 if there is none. -/
def closeLength : List Char → Nat
  | '*' :: '/' :: _ => 2
  | _ :: cs => match closeLength cs with
    | 0 => 0
    | n + 1 => n + 2
  | [] => 0

/-- A comment: two slashes up to the end of the line, or `/*` up to the first `*/`. -/
def commentLength : List Char → Nat
  | '/' :: '/' :: cs => 2 + spanLength (· ≠ '\n') cs
  | '/' :: '*' :: cs => match closeLength cs with
    | 0 => 0
    | n + 1 => n + 3
  | _ => 0

/-- An exponent: a mark, an optional sign and at least one digit. -/
def exponentLength : List Char → Nat
  | mark :: cs =>
    if mark = 'e' || mark = 'E' then
      match cs with
      | sign :: ds =>
        if sign = '+' || sign = '-' then
          match spanLength isDigit ds with
          | 0 => 0
          | n + 1 => n + 3
        else match spanLength isDigit cs with
          | 0 => 0
          | n + 1 => n + 2
      | [] => 0
    else 0
  | [] => 0

/-- A float: digits with a point before, among or behind them and an optional exponent, or digits
and an exponent. -/
def floatLength (cs : List Char) : Nat :=
  let whole := spanLength isDigit cs
  match cs.drop whole with
  | '.' :: back =>
    let fraction := spanLength isDigit back
    if whole = 0 && fraction = 0 then 0
    else whole + 1 + fraction + exponentLength (back.drop fraction)
  | back =>
    match whole, exponentLength back with
    | 0, _ => 0
    | _, 0 => 0
    | w, e => w + e

/-- The longest word at the front: a name start and name parts. -/
def wordLength : List Char → Nat
  | c :: cs => if isNameStart c then 1 + spanLength isNamePart cs else 0
  | [] => 0

/-- A word of the language that no further name part follows. -/
def keywordLength (cs : List Char) : Nat :=
  let n := wordLength cs
  if String.ofList (cs.take n) ∈ keywords then n else 0

/-- An operator, of two characters if possible. -/
def operatorLength : List Char → Nat
  | c :: d :: _ =>
    if (c, d) ∈ longOperators then 2 else if c ∈ shortOperators then 1 else 0
  | [c] => if c ∈ shortOperators then 1 else 0
  | [] => 0

/-- A punctuation mark. -/
def punctLength : List Char → Nat
  | c :: _ => if c ∈ punctuation then 1 else 0
  | [] => 0

/-- The length of what the rule for `l` matches at the front of a text; 0 stands for no match. -/
def lexemeLength (l : Lexeme) (cs : List Char) : Nat :=
  match l with
  | .comment => commentLength cs
  | .blank => spanLength isBlank cs
  | .token .float => floatLength cs
  | .token .int => spanLength isDigit cs
  | .token .keyword => keywordLength cs
  | .token .ident => wordLength cs
  | .token .operator => operatorLength cs
  | .token .punct => punctLength cs
  | .token .eof => 0

/-- The lexical rules in the order in which they are tried. -/
def lexicalRules : List Lexeme :=
  [.comment, .blank, .token .float, .token .int, .token .keyword, .token .ident,
   .token .operator, .token .punct]

/-! ## Splitting a text

Splitting goes from the front to the end and does not go back.  Every rule that matches takes at
least one character, so the text gets shorter with every step.
-/

/-- The first rule that matches at the front of a text, and the length of its match. -/
def scan? (cs : List Char) : Option (Lexeme × Nat) :=
  lexicalRules.findSome? fun l =>
    match lexemeLength l cs with
    | 0 => none
    | n + 1 => some (l, n + 1)

/-- What splitting a text gives: the tokens up to its end, or up to a place where no token starts,
with that place and the text from there on. -/
structure Lexed where
  tokens : List Token := []
  stop : Option (Position × List Char) := none
deriving Repr, DecidableEq

/-- Puts a token before those of `l`, unless the text is one to be skipped. -/
def Lexed.cons (lexeme : Lexeme) (text : List Char) (pos : Position) (l : Lexed) : Lexed :=
  match lexeme with
  | .token kind => { l with tokens := ⟨kind, String.ofList text, pos⟩ :: l.tokens }
  | _ => l

/-- Splits the text `cs` that starts at `pos`. -/
def lexFrom (cs : List Char) (pos : Position) : Lexed :=
  match cs with
  | [] => { tokens := [⟨.eof, "", pos⟩] }
  | c :: cs =>
    match scan? (c :: cs) with
    | none => { stop := some (pos, c :: cs) }
    | some (lexeme, n) =>
      let text := c :: cs.take (n - 1)
      (lexFrom (cs.drop (n - 1)) (pos.afterAll text)).cons lexeme text pos
termination_by cs.length
decreasing_by
  simp only [List.length_drop, List.length_cons]
  omega

/-- Splits a rule text into its tokens, the last of which marks the end.  Where no token starts, the
tokens before that place come with the error. -/
def lex (src : List Char) : Except (List Token × ParseError) (List Token) :=
  let l := lexFrom src Position.start
  match l.stop with
  | none => .ok l.tokens
  | some (pos, rest) => .error (l.tokens, .at src pos (.invalidText (String.ofList rest)))

end Cellular
