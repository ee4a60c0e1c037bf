import Cellular.Number.Decimal
import Cellular.Rule.Chain
import Cellular.Source.Lexer
import Cellular.Source.Recogniser

/-!
# Reading rules

From a text to a rule: split it into tokens, derive them from the grammar, and read the derivation
as a tree of the rule language.  A text that does not split is reported before one that does not
fit the grammar, and that before a literal out of range.

* `readExpr` and `readStmt` read derivations.
* `Expr.parse` and `Program.parse` read texts.

Derivations stand between the tokens and the trees so that the grammar can be data.  The trees of
the rule language have operators nested by rank, which the derivations do not; that step is left to
chains.
-/

namespace Cellular

open Number (Decimal)

/-- What reading a derivation gives, or where and why it fails. -/
abbrev Reading (β : Type) := Except (Position × ParseCause) β

/-! ## Literals

A literal is checked when its derivation is read, after the whole text fits the grammar.  An integer
has to fit a word of 32 bits; a float too large to be one is refused as well.
-/

/-- The largest integer of the rule language. -/
def maxInt : Nat := Nat.pow 2 31 - 1

/-- An integer literal; its value must be an integer of the rule language. -/
def readInt (pos : Position) (text : String) : Reading (Expr Position) :=
  let n := Number.digitsValue text.toList
  if n ≤ maxInt then .ok (.int pos (Int32.ofNat n) text) else .error (pos, .integerRange text)

/-- A float literal, rounded once to a 32-bit float; its value must stay finite. -/
def readFloat (pos : Position) (text : String) : Reading (Expr Position) :=
  match Decimal.parse? text.toList with
  | some d =>
    let bits := d.nearest Number.single
    if bits = Number.single.infinity false then .error (pos, .floatRange text)
    else .ok (.float pos d.toSingle text)
  | none => .error (pos, .floatRange text)

/-- The least integer has no literal of its own: it is a minus sign before an integer literal that
is one too large. -/
def readLeastInt? (pos : Position) (sign : Token) : Tree → Option (Expr Position)
  | .node .unary _ [.node .primary _ [.leaf t]] =>
    if sign.text = "-" && t.kind = .int && Number.digitsValue t.text.toList = maxInt + 1 then
      some (.int pos Int32.minValue ("-" ++ t.text))
    else none
  | _ => none

/-- The parts of a dotted name among the leaves of its derivation. -/
def readPath (root : Token) (more : List Tree) : Path :=
  { root := root.text
    rest := more.filterMap fun
      | .leaf t => if t.kind = .ident then some t.text else none
      | .node .. => none }

/-- The expression of an operator chain, whose operators must all find a place. -/
def readChain (head : Expr Position) (links : List (Link Position)) : Reading (Expr Position) :=
  match (Chain.climb 1 (.operand head) links).val with
  | (c, []) => .ok c.toExpr
  | (_, link :: _) => .error (link.note, .strayOperator link.op.symbol)

/-! ## Derivations

A derivation has the shape that the grammar gives it, so each function has one case for each
production it reads and no case for other shapes than an internal error.
-/

/-- The place of a derivation. -/
def Tree.pos : Tree → Position
  | .leaf t => t.pos
  | .node _ pos _ => pos

mutual

/-- Reads the derivation of an expression, an operator chain, an operand or a primary. -/
def readExpr : Tree → Reading (Expr Position)
  | .node .expr _ [chain] => readExpr chain
  | .node .expr pos [chain, _, yes, _, no] => do
    let test ← readExpr chain
    let yes ← readExpr yes
    let no ← readExpr no
    return .ternary pos test yes no
  | .node .chain _ (head :: links) => do
    let head ← readExpr head
    let links ← readLinks links
    readChain head links
  | .node .unary _ [primary] => readExpr primary
  | .node .unary pos [.leaf op, operand] =>
    match readLeastInt? pos op operand with
    | some e => .ok e
    | none => do
      let e ← readExpr operand
      return .unary pos (UnaryOp.ofSymbol op.text) e
  | .node .primary pos [.leaf t] =>
    match t.kind with
    | .float => readFloat pos t.text
    | .int => readInt pos t.text
    | _ => .ok (.bool pos (t.text = "true"))
  | .node .primary pos [.node .cast _ [.leaf target, _, operand, _]] => do
    let e ← readExpr operand
    return .cast pos (TypeName.ofText target.text) e
  | .node .primary _ [.node .access pos (.leaf root :: more)] =>
    .ok (.access pos (readPath root more))
  | .node .primary _ [_, inner, _] => readExpr inner
  | t => .error (t.pos, .missingExpression)

/-- Reads the operators and operands behind the first operand of a chain. -/
def readLinks : List Tree → Reading (List (Link Position))
  | [] => .ok []
  | .node .link pos [.leaf op, operand] :: more => do
    let e ← readExpr operand
    let links ← readLinks more
    return ⟨pos, BinaryOp.ofSymbol op.text, e⟩ :: links
  | t :: _ => .error (t.pos, .missingExpression)

end

mutual

/-- Reads the derivation of a statement. -/
def readStmt : Tree → Reading (Stmt Position)
  | .node .stmt _ [inner] => readStmt inner
  | .node .block pos (_ :: more) => do
    let body ← readBlock more
    return .block pos body
  | .node .cond pos [_, _, test, _, body] => do
    let test ← readExpr test
    let body ← readStmt body
    return .when pos test body
  | .node .cond pos [_, _, test, _, yes, _, no] => do
    let test ← readExpr test
    let yes ← readStmt yes
    let no ← readStmt no
    return .branch pos test yes no
  | .node .decl pos [.leaf type, .leaf name, _] =>
    .ok (.declare pos (TypeName.ofText type.text) name.text none)
  | .node .decl pos [.leaf type, .leaf name, _, init, _] => do
    let e ← readExpr init
    return .declare pos (TypeName.ofText type.text) name.text (some e)
  | .node .assign pos [.node .access targetPos (.leaf root :: more), .leaf op, value, _] => do
    let e ← readExpr value
    return .assign pos targetPos (readPath root more) (AssignOp.ofSymbol op.text) e
  | t => .error (t.pos, .emptyStatement)

/-- Reads the statements of a block up to the brace that closes it. -/
def readBlock : List Tree → Reading (List (Stmt Position))
  | [] => .ok []
  | [.leaf _] => .ok []
  | t :: more => do
    let s ← readStmt t
    let ss ← readBlock more
    return s :: ss

end

/-- Reads the derivation of a whole program. -/
def readProgram : Tree → Reading (Program Position)
  | .node .program _ statements => do
    let body ← readBlock statements
    return { body }
  | t => .error (t.pos, .emptyStatement)

/-! ## Texts

A text of an expression and a text of a rule are read in the same way, from two productions of the
grammar.
-/

/-- Reads a text that derives from a named rule. -/
def parseWith {β : Type} (p : Production) (read : Tree → Reading β) (src : String) :
    Except ParseError β :=
  let cs := src.toList
  match lex cs with
  | .error (_, e) => .error e
  | .ok tokens =>
    match parseTree p tokens with
    | .error u => .error (.at cs u.token.pos u.cause)
    | .ok tree =>
      match read tree with
      | .error (pos, cause) => .error (.at cs pos cause)
      | .ok value => .ok value

/-- Reads an expression. -/
def Expr.parse (src : String) : Except ParseError (Expr Position) :=
  parseWith .expr readExpr src

/-- Reads a program. -/
def Program.parse (src : String) : Except ParseError (Program Position) :=
  parseWith .program readProgram src

end Cellular
