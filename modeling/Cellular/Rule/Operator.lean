/-!
# Operators of the rule language

Every operator has a symbol; hand-made syntax trees may hold symbols that the language does not
know, and these are kept as they are.

* `BinaryOp`, `UnaryOp` and `AssignOp` are the three kinds, with `symbol` and `ofSymbol`.
* `BinaryOp.precedence` ranks the binary operators.

The symbols of operators stand in the grammar, in diagnostics and in shaders alike, and all of them
are taken from here.  An assignment with an operator is that operator followed by a plain
assignment, which `AssignOp.binaryOp?` says.
-/

namespace Cellular

/-- The binary operators. -/
inductive BinaryOp where
  | or | and
  | eq | ne
  | lt | le | gt | ge
  | add | sub
  | mul | div | mod
  /-- A symbol that the language does not know. -/
  | unknown (symbol : String)
deriving Repr, DecidableEq, Inhabited

namespace BinaryOp

/-- How the operator is written. -/
def symbol : BinaryOp → String
  | .or => "||"
  | .and => "&&"
  | .eq => "=="
  | .ne => "!="
  | .lt => "<"
  | .le => "<="
  | .gt => ">"
  | .ge => ">="
  | .add => "+"
  | .sub => "-"
  | .mul => "*"
  | .div => "/"
  | .mod => "%"
  | .unknown s => s

/-- The operators of the language, in the order in which a reader tries them. -/
def known : List BinaryOp :=
  [.or, .and, .eq, .ne, .le, .ge, .lt, .gt, .add, .sub, .mul, .div, .mod]

/-- The operator with a given symbol. -/
def ofSymbol (s : String) : BinaryOp :=
  (known.find? (·.symbol = s)).getD (.unknown s)

/-- The rank of an operator; the higher binds tighter.  Operators of one rank associate to the
left. -/
def precedence : BinaryOp → Nat
  | .or => 1
  | .and => 2
  | .eq | .ne => 3
  | .lt | .le | .gt | .ge => 4
  | .add | .sub => 5
  | .mul | .div | .mod => 6
  | .unknown _ => 0

end BinaryOp

/-- The unary operators. -/
inductive UnaryOp where
  | not
  | neg
  /-- A symbol that the language does not know. -/
  | unknown (symbol : String)
deriving Repr, DecidableEq, Inhabited

namespace UnaryOp

/-- How the operator is written. -/
def symbol : UnaryOp → String
  | .not => "!"
  | .neg => "-"
  | .unknown s => s

/-- The operator with a given symbol. -/
def ofSymbol : String → UnaryOp
  | "!" => .not
  | "-" => .neg
  | s => .unknown s

end UnaryOp

/-- The operators of assignments. -/
inductive AssignOp where
  /-- Plain assignment. -/
  | set
  /-- Assignment of the old value combined with a new one. -/
  | update (op : BinaryOp)
  /-- A symbol that the language does not know. -/
  | unknown (symbol : String)
deriving Repr, DecidableEq, Inhabited

namespace AssignOp

/-- How the operator is written. -/
def symbol : AssignOp → String
  | .set => "="
  | .update op => op.symbol ++ "="
  | .unknown s => s

/-- The operators that an assignment may combine with. -/
def arithmetic : List BinaryOp := [.add, .sub, .mul, .div, .mod]

/-- The operator with a given symbol. -/
def ofSymbol (s : String) : AssignOp :=
  if s = "=" then .set
  else match arithmetic.find? fun op => op.symbol ++ "=" = s with
    | some op => .update op
    | none => .unknown s

/-- A symbol without an equals sign at its end. -/
def dropEquals (s : String) : String :=
  match s.toList.reverse with
  | '=' :: r => String.ofList r.reverse
  | _ => s

/-- The binary operator that combines old and new value, if the assignment has one.  A symbol that
the language does not know stands for what is left of it without its equals sign. -/
def binaryOp? : AssignOp → Option BinaryOp
  | .set => none
  | .update op => some op
  | .unknown s =>
    let rest := dropEquals s
    if rest.isEmpty then none else some (BinaryOp.ofSymbol rest)

end AssignOp

end Cellular
