import Cellular.Rule.Operator

/-!
# Shaders as trees

The part of the shading language that generated shaders use, as a syntax tree.  Parentheses are
nodes of their own: a tree holds them exactly where its text does.

* `Term` is an expression, `Code` a statement, `Function` a function definition.
* `Shader` is a whole shader: declarations, then functions.

There is no evaluation here, and a tree need not make sense.  What the names in it mean, whether
they are declared and whether their types fit is the matter of a check on these trees.  A tree
without parentheses where its ranks need them would be read differently from its text; the same
check refuses it.
-/

namespace Cellular.Shader

/-- The types that occur in shaders. -/
inductive GType where
  | void
  | bool
  | int
  | float
  | ivec2
  | ivec4
  | uvec4
  | usampler2D
  | sampler2DArray
deriving Repr, DecidableEq, Inhabited

/-- How a type is written. -/
def GType.name : GType → String
  | .void => "void"
  | .bool => "bool"
  | .int => "int"
  | .float => "float"
  | .ivec2 => "ivec2"
  | .ivec4 => "ivec4"
  | .uvec4 => "uvec4"
  | .usampler2D => "usampler2D"
  | .sampler2DArray => "sampler2DArray"

/-- Binary operators: those of rules, and those on bits. -/
inductive Op where
  | rule (op : BinaryOp)
  | bitAnd
  | bitOr
  | shiftLeft
  | shiftRight
deriving Repr, DecidableEq, Inhabited

/-- How a binary operator is written. -/
def Op.symbol : Op → String
  | .rule op => op.symbol
  | .bitAnd => "&"
  | .bitOr => "|"
  | .shiftLeft => "<<"
  | .shiftRight => ">>"

/-- Unary operators: those of rules, and the complement of all bits. -/
inductive Sign where
  | rule (op : UnaryOp)
  | complement
deriving Repr, DecidableEq, Inhabited

/-- How a unary operator is written. -/
def Sign.symbol : Sign → String
  | .rule op => op.symbol
  | .complement => "~"

/-- Expressions. -/
inductive Term where
  | name (id : String)
  /-- A decimal integer. -/
  | int (n : Int)
  /-- A hexadecimal integer. -/
  | hex (n : Nat)
  /-- A float as it is written. -/
  | float (text : String)
  | bool (b : Bool)
  | paren (t : Term)
  | binary (op : Op) (left right : Term)
  | unary (op : Sign) (t : Term)
  | ternary (test yes no : Term)
  /-- A call of a function or of a constructor of a type. -/
  | call (function : String) (args : List Term)
  /-- One component of a vector, by its number. -/
  | component (vector : Term) (index : Nat)
  /-- One component of a vector, by its name. -/
  | member (vector : Term) (name : String)
deriving Repr, Inhabited

/-- Statements. -/
inductive Code where
  | declare (type : GType) (name : String) (init : Term)
  | assign (target : Term) (op : AssignOp) (value : Term)
  | call (t : Term)
  | block (body : List Code)
  | when (test : Term) (body : List Code)
  | branch (test : Term) (yes no : List Code)
  /-- A loop over the integers from 0 up to a bound that is left out. -/
  | loop (counter : String) (bound : Nat) (body : List Code)
  | skip
  | result (t : Term)
  | comment (text : String)
deriving Repr, Inhabited

/-- How a parameter is passed. -/
inductive Passing where
  | plain
  | input
  | inputOutput
deriving Repr, DecidableEq, Inhabited

/-- A parameter of a function. -/
structure Param where
  passing : Passing := .plain
  type : GType
  name : String
deriving Repr, DecidableEq, Inhabited

/-- A function definition. -/
structure Function where
  type : GType
  name : String
  params : List Param := []
  body : List Code
deriving Repr, Inhabited

/-- A variable outside all functions. -/
structure Global where
  type : GType
  name : String
deriving Repr, DecidableEq, Inhabited

end Cellular.Shader

namespace Cellular

/-- A whole shader. -/
structure Shader where
  precisions : List Shader.GType := []
  uniforms : List Shader.Global := []
  outputs : List Shader.Global := []
  globals : List Shader.Global := []
  functions : List Shader.Function := []
deriving Repr, Inhabited

end Cellular
