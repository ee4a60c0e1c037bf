import Cellular.Position
import Cellular.Text.Quoted

/-!
# Tokens and the errors of reading a rule

* `Token` is one lexical unit of a rule text with its kind, its exact text and its place.
* `ParseError` is the one error that reading a rule text gives, with the line it happened in.

The text of a token is a part of the rule text without any change, and its place is that of its
first character.  An error carries the line itself, since whoever shows the error need not have the
text any more.
-/

namespace Cellular

/-- The kinds of tokens a rule text is made of. -/
inductive TokenKind where
  | float
  | int
  | keyword
  | ident
  | operator
  | punct
  | eof
deriving Repr, DecidableEq, Inhabited

/-- The name of a token kind in listings. -/
def TokenKind.name : TokenKind → String
  | .float => "Float"
  | .int => "Int"
  | .keyword => "Keyword"
  | .ident => "Ident"
  | .operator => "Operator"
  | .punct => "Punct"
  | .eof => "EOF"

/-- One lexical unit of a rule text.  The end of the text is a token without text. -/
structure Token where
  kind : TokenKind := .eof
  text : String := ""
  pos : Position := {}
deriving Repr, DecidableEq, Inhabited

namespace Token

/-- The line of a token listing for a kind name, a text and a place. -/
def listingOf (kind text : String) (pos : Position) : String :=
  Text.padRight 10 kind ++ " " ++ Text.padRight 10 (Text.quote text) ++ "  " ++ pos.text

/-- A token as one line of a listing. -/
def listing (t : Token) : String := listingOf t.kind.name t.text t.pos

/-- How a diagnostic names a token. -/
def shown (t : Token) : String := if t.kind = .eof then "<EOF>" else t.text

end Token

/-- Why a text is no rule. -/
inductive ParseCause where
  /-- No token starts here; `rest` is the text from here on. -/
  | invalidText (rest : String)
  /-- The grammar allows no such token here; `expected` says what it wants, where that is known. -/
  | unexpected (token : String) (expected : Option String)
  | integerRange (text : String)
  | floatRange (text : String)
  | emptyStatement
  | missingExpression
  /-- An operator that is left over when the others have been ranked. -/
  | strayOperator (symbol : String)
  /-- A message of the caller's own. -/
  | other (text : String)
deriving Repr, DecidableEq, Inhabited

/-- At most sixteen characters of a text, with dots if there are more. -/
def sample (s : String) : String :=
  if s.length > 16 then String.ofList (s.toList.take 16) ++ "..." else s

/-- The wording of a cause. -/
def ParseCause.message : ParseCause → String
  | .invalidText rest => "invalid input text " ++ Text.quote (sample rest)
  | .unexpected token none => "unexpected token " ++ Text.quote token
  | .unexpected token (some wanted) =>
    "unexpected token " ++ Text.quote token ++ " (expected " ++ wanted ++ ")"
  | .integerRange text => "integer literal " ++ text ++ " out of 32-bit range"
  | .floatRange text => "float literal " ++ text ++ " out of range"
  | .emptyStatement => "empty statement"
  | .missingExpression => "expected expression"
  | .strayOperator symbol => "unexpected operator " ++ Text.quote symbol
  | .other text => text

/-- A text that is no rule: where, why, and the line it happened in, which may be empty. -/
structure ParseError where
  pos : Position
  cause : ParseCause
  line : String := ""
deriving Repr, DecidableEq, Inhabited

/-- The line with the given number, counted from 1, without carriage returns at its end; empty if
there is no such line. -/
def sourceLine (src : List Char) (number : Int) : String :=
  if number < 1 then ""
  else match (src.splitOn '\n')[(number - 1).toNat]? with
    | some line => String.ofList (line.reverse.dropWhile (· = '\r')).reverse
    | none => ""

/-- The error of cause `cause` at `pos` in the text `src`, with its line. -/
def ParseError.at (src : List Char) (pos : Position) (cause : ParseCause) : ParseError :=
  { pos, cause, line := sourceLine src pos.line }

/-- The full message: the place, the cause, and the line with a mark under the column. -/
def ParseError.message (e : ParseError) : String :=
  let head := "syntax error at " ++ e.pos.text ++ ": " ++ e.cause.message
  if e.line.isEmpty then head
  else head ++ "\n  |> " ++ e.line ++ "\n  |  "
    ++ Text.repeated ((max e.pos.column 1) - 1).toNat " " ++ "^"

end Cellular
