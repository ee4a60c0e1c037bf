import Cellular.Number.Numeral
import Cellular.Rule.Expr

/-!
# Values

The values of rule expressions: wrapping 32-bit integers, 32-bit floats and truth values.

* `Value` has a constructor per scalar type, and one for a variable that nothing was stored in.
* `Value.toFloat`, `Value.toInt` and `Value.toBool` are the conversions of the rule language.
  `Value.toInt` gives every float an integer, also those whose conversion is left to implementations.
* `BinaryOp.apply?` and `UnaryOp.apply?` compute with values.

Arithmetic on integers wraps, and a quotient by zero is zero: the operators of the rule language
have no errors of their own.  Operands of two types meet only in trees that no check has seen.
There the left operand decides on the arithmetic, and the right one counts as zero if it has no such
number.
-/

namespace Cellular

/-- A value of the rule language.  A value of no scalar type has a component for each conversion. -/
inductive Value where
  | int (i : Int32)
  | float (f : Float32)
  | bool (b : Bool)
  | untyped (i : Int32) (f : Float32) (b : Bool)
deriving Repr, Inhabited

namespace Value

/-- What a variable holds that nothing was stored in. -/
def unset : Value := .untyped 0 0 false

/-- The kind of a value. -/
def kind : Value → Kind
  | .int _ => .int
  | .float _ => .float
  | .bool _ => .boolean
  | .untyped .. => .invalid

/-- The value that a variable of a type starts with. -/
def zeroOf : Ty → Value
  | .int => .int 0
  | .float => .float 0
  | .bool => .bool false
  | _ => unset

/-- The value as a float; truth is 1. -/
def toFloat : Value → Float32
  | .int i => Number.ofInteger i.toInt
  | .float f => f
  | .bool b => if b then 1 else 0
  | .untyped _ f _ => f

/-- The value as an integer; a float is cut toward zero, truth is 1.  What becomes of a float whose
integer part does not fit is left to implementations.  Here the integer part is taken modulo
`2 ^ 32`, and infinities and what is no number become 0. -/
def toInt : Value → Int32
  | .int i => i
  | .float f => Int32.ofInt (Number.truncate f)
  | .bool b => if b then 1 else 0
  | .untyped i _ _ => i

/-- The value as a truth value; a number is true unless it is zero. -/
def toBool : Value → Bool
  | .int i => i != 0
  | .float f => f != 0
  | .bool b => b
  | .untyped _ _ b => b

/-- The value as listings show it. -/
def text : Value → String
  | .int i => toString i.toInt
  | .float f => Number.Style.answer.write32 f
  | .bool b => if b then "true" else "false"
  | .untyped .. => "<invalid>"

/-- Converts a value; a target that the language does not know converts to a truth value. -/
def convert (target : TypeName) (v : Value) : Value :=
  match target with
  | .int => .int v.toInt
  | .float => .float v.toFloat
  | _ => .bool v.toBool

/-- The integer of an integer value; other values have none. -/
def intPart : Value → Int32
  | .int i => i
  | .untyped i _ _ => i
  | _ => 0

/-- The float of a float value; other values have none. -/
def floatPart : Value → Float32
  | .float f => f
  | .untyped _ f _ => f
  | _ => 0

/-- Whether a value is the truth value true. -/
def isTrue : Value → Bool
  | .bool b => b
  | .untyped _ _ b => b
  | _ => false

/-- Whether two values are equal: of one kind and the same number.  A float that is no number is
not equal to itself, and the two zeros are equal. -/
def same : Value → Value → Bool
  | .int a, .int b => a = b
  | .float a, .float b => a == b
  | .bool a, .bool b => a = b
  | .untyped i f b, .untyped j g c => i = j && f == g && b = c
  | _, _ => false

end Value

/-- Integer arithmetic wraps; a quotient or a remainder by zero is zero. -/
def BinaryOp.applyInt? (op : BinaryOp) (a b : Int32) : Option Value :=
  match op with
  | .add => some (.int (a + b))
  | .sub => some (.int (a - b))
  | .mul => some (.int (a * b))
  | .div => some (.int (if b = 0 then 0 else a / b))
  | .mod => some (.int (if b = 0 then 0 else a % b))
  | .lt => some (.bool (a < b))
  | .le => some (.bool (a ≤ b))
  | .gt => some (.bool (b < a))
  | .ge => some (.bool (b ≤ a))
  | _ => none

/-- Float arithmetic rounds after every operation and has no remainder. -/
def BinaryOp.applyFloat? (op : BinaryOp) (a b : Float32) : Option Value :=
  match op with
  | .add => some (.float (a + b))
  | .sub => some (.float (a - b))
  | .mul => some (.float (a * b))
  | .div => some (.float (a / b))
  | .lt => some (.bool (a < b))
  | .le => some (.bool (a ≤ b))
  | .gt => some (.bool (b < a))
  | .ge => some (.bool (b ≤ a))
  | _ => none

/-- The value of `l op r`, if the operator applies.  The left operand decides on the arithmetic. -/
def BinaryOp.apply? (op : BinaryOp) (l r : Value) : Option Value :=
  match op with
  | .eq => some (.bool (l.same r))
  | .ne => some (.bool !(l.same r))
  | _ =>
    match l with
    | .int a => op.applyInt? a r.intPart
    | .float a => op.applyFloat? a r.floatPart
    | _ => none

/-- The value of `op v`, if the operator applies.  Every operator but `!` negates numbers. -/
def UnaryOp.apply? (op : UnaryOp) (v : Value) : Option Value :=
  match op, v with
  | .not, v => some (.bool !v.isTrue)
  | _, .int i => some (.int (-i))
  | _, .float f => some (.float (-f))
  | _, _ => none

end Cellular
