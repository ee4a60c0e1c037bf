import Cellular.Rule.Expr

/-!
# Checking rules

A check gives every expression its type and every node the scope it sees.  A declaration is visible
from the next statement of its block on; what a block or a branch declares ends with it.

* `TypingError` says where and why a rule is ill-typed.
* `BinaryOp.result?` is the table of the binary operators.
* `Expr.check`, `Stmt.check` and `Program.check` annotate trees.

A check stops at its first error, and it checks the parts of an expression before the expression
itself.  A checked tree is the given tree with other notes, so nothing that a check finds has to be
found again when a rule is run or turned into a shader.
-/

namespace Cellular

/-- The name of the cell that a rule rewrites. -/
def cellName : String := "cell"

/-- The name of the cell as it was before the rule. -/
def prevName : String := "prev"

/-- Why a rule is ill-typed. -/
inductive TypingCause where
  | unknownType (name : String)
  | reservedName (name : String)
  | redeclared (name : String)
  | initialValue (name : String) (wanted got : Ty)
  | readOnly (path : Path)
  | notAssignable (path : Path)
  | binaryOperator (symbol : String) (left right : Ty)
  | assignedValue (got : Ty) (path : Path) (wanted : Ty)
  | ifCondition (got : Ty)
  | ternaryCondition (got : Ty)
  | ternaryBranches (yes no : Ty)
  | unaryOperator (symbol : String) (operand : Ty)
  | castOperand (operand : Ty) (target : String)
  | castTarget (target : String)
  | undefined (name : String)
  | propertyOf (property : String) (type : Ty)
  | noProperty (walked property : String)
  /-- A message of the caller's own. -/
  | other (text : String)
deriving Repr, Inhabited

/-- The wording of a cause. -/
def TypingCause.message : TypingCause → String
  | .unknownType name => "unknown type " ++ Text.quote name
  | .reservedName name =>
    "identifier " ++ name ++ " is reserved: names may not contain \"__\""
  | .redeclared name => name ++ " is already declared in this block"
  | .initialValue name wanted got =>
    "cannot initialise variable " ++ name ++ " of type " ++ wanted.text ++ " with value of type "
      ++ got.text
  | .readOnly path => path.text ++ " is read-only"
  | .notAssignable path =>
    "cannot assign to " ++ path.text ++ ": only " ++ cellName ++ ".<field> can be assigned"
  | .binaryOperator symbol left right =>
    "operator " ++ symbol ++ " can not be used on types " ++ left.text ++ " and " ++ right.text
  | .assignedValue got path wanted =>
    "cannot assign value of type " ++ got.text ++ " to " ++ path.text ++ " of type " ++ wanted.text
  | .ifCondition got => "condition of if statement must be Boolean, got " ++ got.text
  | .ternaryCondition got => "ternary condition can not be " ++ got.text
  | .ternaryBranches yes no =>
    "ternary consequent and alternate must have the same type, got " ++ yes.text ++ " and "
      ++ no.text
  | .unaryOperator symbol operand =>
    "operator " ++ symbol ++ " can not be used on type " ++ operand.text
  | .castOperand operand target => "can not cast " ++ operand.text ++ " to " ++ target
  | .castTarget target => "unknown cast target " ++ Text.quote target
  | .undefined name => name ++ " is not defined"
  | .propertyOf property type => "trying to access property " ++ property ++ " on " ++ type.text
  | .noProperty walked property => walked ++ " has no property " ++ property
  | .other text => text

/-- An ill-typed place of a rule. -/
structure TypingError where
  pos : Position
  cause : TypingCause
deriving Repr, Inhabited

/-- The full message. -/
def TypingError.message (e : TypingError) : String :=
  "type error at " ++ e.pos.text ++ ": " ++ e.cause.message

/-- Fails with a typing error. -/
def illTyped {β : Type} (pos : Position) (cause : TypingCause) : Except TypingError β :=
  .error ⟨pos, cause⟩

/-! ## Expressions

The type of an expression is found from the types of its parts, bottom up.  There are no conversions
that are not written: an operator is refused if its operands have two types.
-/

/-- The type of `l op r` for operands of the given types, if the operator applies to them.  Both
operands of an operator have the same type. -/
def BinaryOp.result? (op : BinaryOp) (l r : Ty) : Option Ty :=
  if !l.equal r then none
  else match op with
    | .or | .and => if l.kind = .boolean then some .bool else none
    | .eq | .ne => some .bool
    | .lt | .le | .gt | .ge => if l.isNumeric then some .bool else none
    | .add | .sub | .mul | .div => if l.isNumeric then some l else none
    | .mod => if l.kind = .int then some l else none
    | .unknown _ => none

/-- Whether a unary operator applies to a type. -/
def UnaryOp.appliesTo : UnaryOp → Ty → Bool
  | .not, t => t.kind = .boolean
  | .neg, t => t.isNumeric
  | .unknown _, _ => false

/-- Whether values of a type can be converted. -/
def Ty.isScalar : Ty → Bool
  | .int | .float | .bool => true
  | _ => false

/-- Follows the parts behind the dots of a name; `walked` is the name so far, of type `t`. -/
def walkProps (pos : Position) (walked : String) (t : Ty) :
    List String → Except TypingError Ty
  | [] => .ok t
  | name :: more =>
    if t.kind ≠ .struct then illTyped pos (.propertyOf name t)
    else match t.prop? name with
      | none => illTyped pos (.noProperty walked name)
      | some u => walkProps pos (walked ++ "." ++ name) u more

/-- The type of a dotted name in a scope. -/
def Path.check (pos : Position) (scope : Scope) (path : Path) : Except TypingError Ty :=
  match scope.find? path.root with
  | none => illTyped pos (.undefined path.root)
  | some (b, _) => walkProps pos path.root b.type path.rest

/-- Gives every part of an expression its type. -/
def Expr.check (scope : Scope) : Expr Position → Except TypingError (Expr Note)
  | .ternary pos test yes no => do
    let test ← test.check scope
    let yes ← yes.check scope
    let no ← no.check scope
    if test.type.kind ≠ .boolean then illTyped pos (.ternaryCondition test.type)
    else if !yes.type.equal no.type then illTyped pos (.ternaryBranches yes.type no.type)
    else return .ternary ⟨pos, scope, yes.type⟩ test yes no
  | .binary pos op left right => do
    let left ← left.check scope
    let right ← right.check scope
    match op.result? left.type right.type with
    | none => illTyped pos (.binaryOperator op.symbol left.type right.type)
    | some t => return .binary ⟨pos, scope, t⟩ op left right
  | .unary pos op operand => do
    let operand ← operand.check scope
    if op.appliesTo operand.type then return .unary ⟨pos, scope, operand.type⟩ op operand
    else illTyped pos (.unaryOperator op.symbol operand.type)
  | .cast pos target operand => do
    let operand ← operand.check scope
    if !operand.type.isScalar then illTyped pos (.castOperand operand.type target.text)
    else match target.type? with
      | none => illTyped pos (.castTarget target.text)
      | some t => return .cast ⟨pos, scope, t⟩ target operand
  | .int pos v text => .ok (.int ⟨pos, scope, .int⟩ v text)
  | .float pos v text => .ok (.float ⟨pos, scope, .float⟩ v text)
  | .bool pos v => .ok (.bool ⟨pos, scope, .bool⟩ v)
  | .access pos path => do
    let t ← path.check pos scope
    return .access ⟨pos, scope, t⟩ path

/-! ## Statements

Statements are checked in order with the scope that those before them leave.  A statement gives back
the scope for the next one; a block gives back the scope that it got, whatever is declared in it.
-/

/-- Whether a text contains two underscores in a row, which generated names may not. -/
def hasDoubleUnderscore : List Char → Bool
  | '_' :: '_' :: _ => true
  | _ :: cs => hasDoubleUnderscore cs
  | [] => false

/-- Whether a dotted name may be assigned to: a variable, or one field of the cell. -/
def Path.checkTarget (pos : Position) (scope : Scope) (path : Path) : Except TypingError Unit :=
  let assignable := match scope.find? path.root with
    | some (b, _) => b.assignable
    | none => false
  match path.rest with
  | [] => if assignable then .ok () else illTyped pos (.readOnly path)
  | [_] =>
    if path.root = cellName && !assignable then .ok () else illTyped pos (.notAssignable path)
  | _ => illTyped pos (.notAssignable path)

/-- The type that an assignment stores, for a target of type `target` and a value of type
`value`. -/
def AssignOp.check (pos : Position) (op : AssignOp) (target value : Ty) : Except TypingError Ty :=
  match op.binaryOp? with
  | none => .ok value
  | some b =>
    match b.result? target value with
    | some t => .ok t
    | none => illTyped pos (.binaryOperator op.symbol target value)

/-- Checks the initial value of a variable, if it has one. -/
def checkInit (scope : Scope) (pos : Position) (name : String) (t : Ty) :
    Option (Expr Position) → Except TypingError (Option (Expr Note))
  | none => .ok none
  | some e => do
    let e ← e.check scope
    if e.type.equal t then return some e else illTyped pos (.initialValue name t e.type)

mutual

/-- Checks a statement that sees `scope`, in a block that started at depth `start`, and gives the
scope of the next statement. -/
def Stmt.check (scope : Scope) (start : Nat) :
    Stmt Position → Except TypingError (Stmt Note × Scope)
  | .block pos body => do
    let body ← Stmt.checkAll scope scope.length body
    return (.block ⟨pos, scope, .invalid⟩ body, scope)
  | .declare pos type name init =>
    match type.type? with
    | none => illTyped pos (.unknownType type.text)
    | some t =>
      if hasDoubleUnderscore name.toList then illTyped pos (.reservedName name)
      else if scope.declaredSince start name then illTyped pos (.redeclared name)
      else do
        let init ← checkInit scope pos name t init
        return (.declare ⟨pos, scope, t⟩ type name init, scope.declare name t)
  | .assign pos targetPos target op value => do
    let targetType ← target.check targetPos scope
    let value ← value.check scope
    target.checkTarget pos scope
    let stored ← op.check pos targetType value.type
    if targetType.equal stored then
      return (.assign ⟨pos, scope, .invalid⟩ ⟨targetPos, scope, targetType⟩ target op value, scope)
    else illTyped pos (.assignedValue stored target targetType)
  | .when pos test body => do
    let test ← test.check scope
    if test.type.kind ≠ .boolean then illTyped pos (.ifCondition test.type)
    else
      let (body, _) ← Stmt.check scope scope.length body
      return (.when ⟨pos, scope, .invalid⟩ test body, scope)
  | .branch pos test yes no => do
    let test ← test.check scope
    if test.type.kind ≠ .boolean then illTyped pos (.ifCondition test.type)
    else
      let (yes, _) ← Stmt.check scope scope.length yes
      let (no, _) ← Stmt.check scope scope.length no
      return (.branch ⟨pos, scope, .invalid⟩ test yes no, scope)

/-- Checks the statements of a block in turn, each in the scope that the one before it gives. -/
def Stmt.checkAll (scope : Scope) (start : Nat) :
    List (Stmt Position) → Except TypingError (List (Stmt Note))
  | [] => .ok []
  | s :: ss => do
    let (s, next) ← Stmt.check scope start s
    let ss ← Stmt.checkAll next start ss
    return s :: ss

end

/-- Checks a program against the names that it may use. -/
def Program.check (root : Scope) (p : Program Position) : Except TypingError (Program Note) := do
  let body ← Stmt.checkAll root root.length p.body
  return { pos := p.pos, body }

end Cellular
