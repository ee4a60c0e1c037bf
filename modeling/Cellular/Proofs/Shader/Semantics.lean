import Cellular.Number.Decimal
import Cellular.Shader.Code
import Mathlib.Tactic.Common

/-!
# What shader code means

An evaluator for the part of the shading language that generated shaders use.  Integers are 32-bit
words in two's complement, floats are 32-bit floats, and there are no implicit conversions: an
operator, an initial value or an assignment with operands of other types has no meaning.  Neither
has a shift by less than 0 or by more than 31.

* `Datum` is a value, `Vars` the variables in scope, the innermost first.
* `Calls` says what the functions do that a piece of code may call.
* `Term.eval` evaluates an expression, `Code.exec` runs a statement; `Flow` is how a statement ends.
* `Function.value?` and `Function.update?` call a function definition.

Braces are scopes: what is declared inside is dropped at the end, a name means its innermost
declaration, and one scope declares a name only once.  Code that breaks a rule of the language has
no meaning, and neither has code that leaves the part of the language described here.  A theorem
that gives emitted code a value therefore says as well that what is run has the right types, and
names only what has been declared.
-/

namespace Cellular.Shader

/-! ## Values and operators

Arithmetic on words wraps around.  The language leaves a quotient by zero open; here it is zero, as
in rules.
-/

/-- Values: the three scalars, and vectors of integers. -/
inductive Datum where
  | int (i : Int32)
  | float (f : Float32)
  | bool (b : Bool)
  | vector (components : List Int32)
deriving Repr, Inhabited

/-- The type of a value. -/
def Datum.type : Datum → GType
  | .int _ => .int
  | .float _ => .float
  | .bool _ => .bool
  | .vector cs => if cs.length = 2 then .ivec2 else if cs.length = 4 then .ivec4 else .void

@[simp] lemma Datum.type_int (i : Int32) : (Datum.int i).type = .int := rfl

@[simp] lemma Datum.type_float (f : Float32) : (Datum.float f).type = .float := rfl

@[simp] lemma Datum.type_bool (b : Bool) : (Datum.bool b).type = .bool := rfl

/-- Operators between integers.  A quotient or a remainder by zero is zero. -/
def Op.onInts (op : Op) (a b : Int32) : Option Datum :=
  match op with
  | .rule .add => some (.int (a + b))
  | .rule .sub => some (.int (a - b))
  | .rule .mul => some (.int (a * b))
  | .rule .div => some (.int (if b = 0 then 0 else a / b))
  | .rule .mod => some (.int (if b = 0 then 0 else a % b))
  | .rule .lt => some (.bool (a < b))
  | .rule .le => some (.bool (a ≤ b))
  | .rule .gt => some (.bool (b < a))
  | .rule .ge => some (.bool (b ≤ a))
  | .rule .eq => some (.bool (a = b))
  | .rule .ne => some (.bool (a ≠ b))
  | .bitAnd => some (.int (a &&& b))
  | .bitOr => some (.int (a ||| b))
  | .shiftLeft => if 0 ≤ b ∧ b < 32 then some (.int (a <<< b)) else none
  -- the sign moves in from the left
  | .shiftRight => if 0 ≤ b ∧ b < 32 then some (.int (a >>> b)) else none
  | _ => none

/-- Operators between floats. -/
def Op.onFloats (op : Op) (a b : Float32) : Option Datum :=
  match op with
  | .rule .add => some (.float (a + b))
  | .rule .sub => some (.float (a - b))
  | .rule .mul => some (.float (a * b))
  | .rule .div => some (.float (a / b))
  | .rule .lt => some (.bool (a < b))
  | .rule .le => some (.bool (a ≤ b))
  | .rule .gt => some (.bool (b < a))
  | .rule .ge => some (.bool (b ≤ a))
  | .rule .eq => some (.bool (a == b))
  | .rule .ne => some (.bool (a != b))
  | _ => none

/-- Operators between truth values. -/
def Op.onBools (op : Op) (a b : Bool) : Option Datum :=
  match op with
  | .rule .and => some (.bool (a && b))
  | .rule .or => some (.bool (a || b))
  | .rule .eq => some (.bool (a = b))
  | .rule .ne => some (.bool (a ≠ b))
  | _ => none

/-- The value of `l op r` for operands of one scalar type. -/
def Op.value? (op : Op) : Datum → Datum → Option Datum
  | .int a, .int b => op.onInts a b
  | .float a, .float b => op.onFloats a b
  | .bool a, .bool b => op.onBools a b
  | _, _ => none

/-- The value that the left operand of `&&` or `||` gives without a look at the right one. -/
def Op.decided? (op : Op) (l : Datum) : Option Datum :=
  match op, l with
  | .rule .and, .bool false => some (.bool false)
  | .rule .or, .bool true => some (.bool true)
  | _, _ => none

/-- The value of a unary operator. -/
def Sign.value? (op : Sign) (v : Datum) : Option Datum :=
  match op, v with
  | .rule .not, .bool b => some (.bool !b)
  | .rule .neg, .int i => some (.int (-i))
  | .rule .neg, .float f => some (.float (-f))
  | .complement, .int i => some (.int (~~~i))
  | _, _ => none

/-- The value that an assignment stores.  Only arithmetic combines with an assignment. -/
def combine? (op : AssignOp) (old new : Datum) : Option Datum :=
  match op with
  | .set => some new
  | .update b => if b ∈ AssignOp.arithmetic then (Op.rule b).value? old new else none
  | .unknown _ => none

/-- The constructors of the scalar types: truth is 1, a float is cut toward zero, and a number is
true unless it is zero. -/
def construct? (target : String) (v : Datum) : Option Datum :=
  match target, v with
  | "int", .int i => some (.int i)
  | "int", .float f => some (.int (Int32.ofInt (Number.truncate f)))
  | "int", .bool b => some (.int (if b then 1 else 0))
  | "float", .int i => some (.float (Number.ofInteger i.toInt))
  | "float", .float f => some (.float f)
  | "float", .bool b => some (.float (if b then 1 else 0))
  | "bool", .int i => some (.bool (i != 0))
  | "bool", .float f => some (.bool (f != 0))
  | "bool", .bool b => some (.bool b)
  | _, _ => none

/-! ## Variables

Variables are a list, and a scope is a number: that of the variables outside of it.
-/

/-- The variables in scope, the innermost first. -/
abbrev Vars := List (String × Datum)

namespace Vars

/-- Gives the innermost variable of a name a new value, which has the type of the old one. -/
def assign (name : String) (v : Datum) : Vars → Option Vars
  | [] => none
  | (n, old) :: outer =>
    if n = name then
      if old.type = v.type then some ((n, v) :: outer) else none
    else (assign name v outer).map ((n, old) :: ·)

/-- Declares a variable in a scope that `start` variables lie outside of. -/
def declare (start : Nat) (type : GType) (name : String) (v : Datum) (vars : Vars) : Option Vars :=
  if v.type = type ∧ name ∉ (vars.take (vars.length - start)).map Prod.fst then
    some ((name, v) :: vars)
  else none

/-- Drops what was declared since there were `start` variables. -/
def leave (start : Nat) (vars : Vars) : Vars := vars.drop (vars.length - start)

end Vars

/-! ## Expressions

Functions with a result have no effect on variables, so an expression has a value and nothing else.
-/

/-- The functions that code may call: those with a result, and those that give their first argument
a new value. -/
structure Calls where
  function : String → List Datum → Option Datum
  update : String → Datum → List Datum → Option Datum

/-- The value of a call: of a constructor if the name is that of a scalar type. -/
def Calls.value? (calls : Calls) (name : String) (args : List Datum) : Option Datum :=
  if name = "int" ∨ name = "float" ∨ name = "bool" then
    match args with
    | [v] => construct? name v
    | _ => none
  else calls.function name args

/-- One component of a vector. -/
def Datum.component? (i : Nat) : Datum → Option Datum
  | .vector cs => cs[i]?.map .int
  | _ => none

/-- The number of a component by its name. -/
def memberIndex? : String → Option Nat
  | "x" => some 0
  | "y" => some 1
  | "z" => some 2
  | "w" => some 3
  | _ => none

mutual

/-- The value of an expression.  `&&` and `||` look at their right operand only if the left one does
not decide. -/
def Term.eval (calls : Calls) (vars : Vars) : Term → Option Datum
  | .name id => vars.lookup id
  -- a decimal literal with its sign
  | .int n => if n.natAbs < 2147483648 then some (.int (Int32.ofInt n)) else none
  -- a hexadecimal literal is a bit pattern
  | .hex n => if n < 4294967296 then some (.int (Int32.ofNat n)) else none
  | .float text => (Number.Decimal.parse? text.toList).map fun d => .float d.toSingle
  | .bool b => some (.bool b)
  | .paren t => t.eval calls vars
  | .binary op l r => do
    let a ← l.eval calls vars
    match op.decided? a with
    | some v => some v
    | none => do
      let b ← r.eval calls vars
      op.value? a b
  | .unary op t => do
    let v ← t.eval calls vars
    op.value? v
  | .ternary test yes no => do
    match ← test.eval calls vars with
    | .bool true => yes.eval calls vars
    | .bool false => no.eval calls vars
    | _ => none
  | .call f args => do
    let vs ← Term.evals calls vars args
    calls.value? f vs
  | .component v i => do
    let v ← v.eval calls vars
    v.component? i
  | .member v part => do
    let v ← v.eval calls vars
    let i ← memberIndex? part
    v.component? i

/-- The values of expressions in turn. -/
def Term.evals (calls : Calls) (vars : Vars) : List Term → Option (List Datum)
  | [] => some []
  | t :: ts => do
    let v ← t.eval calls vars
    let vs ← Term.evals calls vars ts
    return v :: vs

end

/-! ## Statements

The number `start` says where the innermost braces were opened.  A declaration is compared with the
variables since then, and at the closing brace they are dropped.
-/

/-- How a statement ends: the next one follows, the next round of the loop follows, or the function
ends with a result. -/
inductive Flow where
  | next (vars : Vars)
  | skip (vars : Vars)
  | result (v : Datum)
deriving Repr, Inhabited

/-- Drops what was declared since there were `start` variables. -/
def Flow.leave (start : Nat) : Flow → Flow
  | .next vars => .next (vars.leave start)
  | .skip vars => .skip (vars.leave start)
  | .result v => .result v

/-- Gives a variable, or one component of a vector, the value `v` or a combination with it. -/
def store? (vars : Vars) (target : Term) (op : AssignOp) (v : Datum) : Option Vars :=
  match target with
  | .name x => do
    let old ← vars.lookup x
    let new ← combine? op old v
    vars.assign x new
  | .component (.name x) i => do
    match ← vars.lookup x with
    | .vector cs => do
      let old ← cs[i]?
      match ← combine? op (.int old) v with
      | .int new => vars.assign x (.vector (cs.set i new))
      | _ => none
    | _ => none
  | _ => none

/-- Runs the rounds of a loop in turn; each has its own value of the counter. -/
def iterate (counter : String) (body : Vars → Option Flow) : List Nat → Vars → Option Flow
  | [], vars => some (.next vars)
  | i :: more, vars => do
    match ← body ((counter, .int (Int32.ofNat i)) :: vars) with
    | .next inner => iterate counter body more (inner.leave vars.length)
    | .skip inner => iterate counter body more (inner.leave vars.length)
    | .result v => some (.result v)

mutual

/-- Runs a statement in a scope that `start` variables lie outside of. -/
def Code.exec (calls : Calls) (start : Nat) : Code → Vars → Option Flow
  | .declare type name init, vars => do
    let v ← init.eval calls vars
    let vars ← vars.declare start type name v
    return .next vars
  | .assign target op value, vars => do
    let v ← value.eval calls vars
    let vars ← store? vars target op v
    return .next vars
  -- the first argument is passed in and out
  | .call (.call f (.name x :: args)), vars => do
    let old ← vars.lookup x
    let vs ← Term.evals calls vars args
    let new ← calls.update f old vs
    let vars ← vars.assign x new
    return .next vars
  | .call _, _ => none
  | .block body, vars => (Code.execAll calls vars.length body vars).map (Flow.leave vars.length)
  | .when test body, vars => do
    match ← test.eval calls vars with
    | .bool true => (Code.execAll calls vars.length body vars).map (Flow.leave vars.length)
    | .bool false => some (.next vars)
    | _ => none
  | .branch test yes no, vars => do
    match ← test.eval calls vars with
    | .bool true => (Code.execAll calls vars.length yes vars).map (Flow.leave vars.length)
    | .bool false => (Code.execAll calls vars.length no vars).map (Flow.leave vars.length)
    | _ => none
  | .loop counter bound body, vars =>
    iterate counter (fun vars => Code.execAll calls vars.length body vars) (List.range bound) vars
  | .skip, vars => some (.skip vars)
  | .result t, vars => do
    let v ← t.eval calls vars
    return .result v
  | .comment _, vars => some (.next vars)

/-- Runs statements in turn, up to the first that does not let the next one follow. -/
def Code.execAll (calls : Calls) (start : Nat) : List Code → Vars → Option Flow
  | [], vars => some (.next vars)
  | c :: cs, vars => do
    match ← Code.exec calls start c vars with
    | .next vars => Code.execAll calls start cs vars
    | flow => some flow

end

/-! ## Functions

A parameter that is passed in and out is returned at the end, which is what a setter is for.
-/

namespace Function

/-- The parameters of a function as variables, if the arguments have their types. -/
def bind? (f : Function) (args : List Datum) : Option Vars :=
  if args.map Datum.type = f.params.map (·.type) then
    some ((f.params.map (·.name)).zip args).reverse
  else none

/-- Runs the body of a function.  Its parameters and its body share one scope. -/
def run? (calls : Calls) (f : Function) (args : List Datum) : Option Flow := do
  let vars ← f.bind? args
  Code.execAll calls 0 f.body vars

/-- The result of a function, which has the type that the function promises. -/
def value? (calls : Calls) (f : Function) (args : List Datum) : Option Datum :=
  match f.run? calls args with
  | some (.result v) => if v.type = f.type then some v else none
  | _ => none

/-- What a function without a result leaves in its first parameter, if that one is passed out. -/
def update? (calls : Calls) (f : Function) (args : List Datum) : Option Datum :=
  match f.params, f.run? calls args with
  | p :: _, some (.next vars) =>
    if f.type = .void ∧ p.passing = .inputOutput then vars.lookup p.name else none
  | _, _ => none

end Function

end Cellular.Shader
