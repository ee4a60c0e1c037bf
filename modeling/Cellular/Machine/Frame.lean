import Cellular.Kernel
import Cellular.Machine.Value

/-!
# Running a rule on one cell

* `Frame` is the state while a rule runs: the cell, the cell as it was, the neighbour counts and the
  variables.
* `Expr.eval` evaluates an expression, `Stmt.exec` runs a statement.

Evaluation can fail, although no checked rule does.  The failures are those of trees that no check
has seen: a name without a binding, a field that is not there, an operator on types that it does not
have. A checked tree carries the scope of every node, and a variable is looked up by its slot in
that scope, so a variable that shadows another one is another variable here too.

The operands of a binary operator are evaluated from left to right, and the right operand of a
logical operator only if it can still decide.  No expression changes the frame.
-/

namespace Cellular

/-- The variables of a running rule, by the slots of their bindings; the last one stored counts. -/
abbrev Locals := List (Slot × Value)

/-- The state while a rule runs on one cell. -/
structure Frame where
  cell : Record
  prev : Record := {}
  counts : List (String × Value) := []
  locals : Locals := []
deriving Repr, Inhabited

/-- What evaluation gives, or the error of a rule that has no value. -/
abbrev Eval (β : Type) := Except InternalError β

/-- Fails with an internal error. -/
def noValue {β : Type} (pos : Position) (cause : InternalCause) : Eval β := .error ⟨pos, cause⟩

/-- The value of a state field in a record: a truth value for a flag, else an integer. -/
def Field.value (f : Field) (r : Record) : Value :=
  let raw := f.get r
  if f.kind = .flag then .bool (raw != 0) else .int raw.toInt32

/-- Looks a state field up in a record. -/
def Layout.read (l : Layout) (pos : Position) (r : Record) (name : String) : Eval Value :=
  match l.field? name with
  | some f => .ok (f.value r)
  | none => noValue pos (.noField name)

namespace Frame

/-- The value of a dotted name: a variable, a neighbour count, or a field of the cell or of the cell
as it was. -/
def access (l : Layout) (f : Frame) (note : Note) (path : Path) : Eval Value :=
  match note.scope.find? path.root with
  | none => noValue note.pos (.noBinding path.root)
  | some (b, slot) =>
    match path.rest with
    | [] =>
      if b.assignable then .ok ((f.locals.lookup slot).getD .unset)
      else match f.counts.lookup path.root with
        | some v => .ok v
        | none => noValue note.pos (.noValue path.text)
    | [field] =>
      if path.root = cellName then l.read note.pos f.cell field
      else if path.root = prevName then l.read note.pos f.prev field
      else noValue note.pos (.noValue path.text)
    | _ => noValue note.pos (.noValue path.text)

/-- Stores a value in a variable. -/
def store (f : Frame) (slot : Slot) (v : Value) : Frame :=
  { f with locals := (slot, v) :: f.locals }

/-- Stores a value in a state field of the cell. -/
def write (l : Layout) (f : Frame) (pos : Position) (name : String) (v : Value) : Eval Frame :=
  match l.field? name with
  | some field => .ok { f with cell := field.set f.cell v.toInt.toUInt32 }
  | none => noValue pos (.noField name)

/-- Stores a value where a dotted name says. -/
def assign (l : Layout) (f : Frame) (note : Note) (target : Path) (v : Value) : Eval Frame :=
  match target.rest with
  | [] =>
    match note.scope.find? target.root with
    | some (b, slot) =>
      if b.assignable then .ok (f.store slot v) else noValue note.pos (.noTarget target)
    | none => noValue note.pos (.noTarget target)
  | [field] =>
    if target.root = cellName then f.write l note.pos field v
    else noValue note.pos (.noTarget target)
  | _ => noValue note.pos (.noTarget target)

end Frame

/-- The value of an expression.  `&&` and `||` look at their right operand only if the left one does
not decide. -/
def Expr.eval (l : Layout) (f : Frame) : Expr Note → Eval Value
  | .ternary _ test yes no => do
    let t ← test.eval l f
    if t.isTrue then yes.eval l f else no.eval l f
  | .binary note op left right => do
    let a ← left.eval l f
    if op = .and && !a.isTrue then return .bool false
    else if op = .or && a.isTrue then return .bool true
    else
      let b ← right.eval l f
      if op = .and || op = .or then return .bool b.isTrue
      else match op.apply? a b with
        | some v => return v
        | none => noValue note.pos (.noValue (Expr.binary note op left right).text)
  | .unary note op operand => do
    let v ← operand.eval l f
    match op.apply? v with
    | some w => return w
    | none => noValue note.pos (.noValue (Expr.unary note op operand).text)
  | .cast _ target operand => do
    let v ← operand.eval l f
    return v.convert target
  | .int _ v _ => .ok (.int v)
  | .float _ v _ => .ok (.float v)
  | .bool _ v => .ok (.bool v)
  | .access note path => f.access l note path

/-- The value that an assignment stores: the new value, combined with the old one if the operator
says so. -/
def AssignOp.eval (l : Layout) (f : Frame) (note targetNote : Note) (op : AssignOp) (target : Path)
    (v : Value) : Eval Value :=
  match op.binaryOp? with
  | none => .ok v
  | some b => do
    let old ← f.access l targetNote target
    match b.apply? old v with
    | some w => return w
    | none => noValue note.pos (.noUpdate op.symbol old.kind)

/-- The value that a declared variable starts with. -/
def evalInit (l : Layout) (f : Frame) (type : Ty) : Option (Expr Note) → Eval Value
  | none => .ok (Value.zeroOf type)
  | some e => e.eval l f

mutual

/-- Runs a statement. -/
def Stmt.exec (l : Layout) : Stmt Note → Frame → Eval Frame
  | .block _ body, f => Stmt.execAll l body f
  | .declare note _ _ init, f => do
    let v ← evalInit l f note.type init
    return f.store note.scope.length v
  | .assign note targetNote target op value, f => do
    let v ← value.eval l f
    let w ← op.eval l f note targetNote target v
    f.assign l note target w
  | .when _ test body, f => do
    let t ← test.eval l f
    if t.isTrue then Stmt.exec l body f else return f
  | .branch _ test yes no, f => do
    let t ← test.eval l f
    if t.isTrue then Stmt.exec l yes f else Stmt.exec l no f

/-- Runs statements in turn. -/
def Stmt.execAll (l : Layout) : List (Stmt Note) → Frame → Eval Frame
  | [], f => .ok f
  | s :: ss, f => do
    let f ← Stmt.exec l s f
    Stmt.execAll l ss f

end

end Cellular
