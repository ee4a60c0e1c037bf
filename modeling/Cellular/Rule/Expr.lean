import Cellular.Position
import Cellular.Rule.Operator
import Cellular.Rule.Scope

/-!
# Rules as trees

A rule is a list of statements over expressions.  Every node carries a note of a type `α` that the
stage at hand chooses: a rule that was only read has its places (`Position`), one that was checked
has places, scopes and types (`Note`).

* `Expr`, `Stmt` and `Program` are the trees; `map` changes their notes.
* `Note.unchecked` is the note of a node that no check has seen.
* `Expr.text` and `Stmt.text` write a tree down; an expression is written with all its parentheses.

The note is a parameter so that one tree serves all stages.  A check does not build another tree; it
changes the notes, and what holds of the shape of a rule before the check holds of it afterwards.
The text of an expression loses nothing but places: what was read once gives the same tree when its
text is read.  Literals keep their text beside their value, so that a shader shows a float as it was
written.
-/

namespace Cellular

/-- A dotted name: a first part and the parts behind the dots. -/
structure Path where
  root : String
  rest : List String := []
deriving Repr, DecidableEq, Inhabited

/-- All parts of a dotted name. -/
def Path.parts (p : Path) : List String := p.root :: p.rest

/-- A dotted name as it is written. -/
def Path.text (p : Path) : String := ".".intercalate p.parts

/-- Expressions with notes of type `α`. -/
inductive Expr (α : Type) where
  | ternary (note : α) (test yes no : Expr α)
  | binary (note : α) (op : BinaryOp) (left right : Expr α)
  | unary (note : α) (op : UnaryOp) (operand : Expr α)
  | cast (note : α) (target : TypeName) (operand : Expr α)
  /-- An integer and the text it was written as. -/
  | int (note : α) (value : Int32) (text : String)
  /-- A float and the text it was written as. -/
  | float (note : α) (value : Float32) (text : String)
  | bool (note : α) (value : Bool)
  | access (note : α) (path : Path)
deriving Repr, Inhabited

namespace Expr

/-- The note of the outermost node. -/
def note {α : Type} : Expr α → α
  | .ternary n .. | .binary n .. | .unary n .. | .cast n .. | .int n .. | .float n .. | .bool n ..
  | .access n .. => n

/-- The same expression with other notes. -/
def map {α β : Type} (f : α → β) : Expr α → Expr β
  | .ternary n t a b => .ternary (f n) (t.map f) (a.map f) (b.map f)
  | .binary n op l r => .binary (f n) op (l.map f) (r.map f)
  | .unary n op e => .unary (f n) op (e.map f)
  | .cast n target e => .cast (f n) target (e.map f)
  | .int n v text => .int (f n) v text
  | .float n v text => .float (f n) v text
  | .bool n v => .bool (f n) v
  | .access n p => .access (f n) p

/-- An expression as it is written with all its parentheses. -/
def text {α : Type} : Expr α → String
  | .ternary _ t a b => "(" ++ t.text ++ " ? " ++ a.text ++ " : " ++ b.text ++ ")"
  | .binary _ op l r => "(" ++ l.text ++ " " ++ op.symbol ++ " " ++ r.text ++ ")"
  | .unary _ op e => "(" ++ op.symbol ++ e.text ++ ")"
  | .cast _ target e => target.text ++ "(" ++ e.text ++ ")"
  | .int _ _ text => text
  | .float _ _ text => text
  | .bool _ v => if v then "true" else "false"
  | .access _ p => p.text

end Expr

/-- Statements with notes of type `α`. -/
inductive Stmt (α : Type) where
  /-- Statements in braces; what they declare ends with them. -/
  | block (note : α) (body : List (Stmt α))
  /-- A new variable, which starts at zero without an initial value. -/
  | declare (note : α) (type : TypeName) (name : String) (init : Option (Expr α))
  /-- An assignment; the target has a note of its own. -/
  | assign (note targetNote : α) (target : Path) (op : AssignOp) (value : Expr α)
  /-- A condition with one branch. -/
  | when (note : α) (test : Expr α) (body : Stmt α)
  /-- A condition with two branches. -/
  | branch (note : α) (test : Expr α) (yes no : Stmt α)
deriving Repr, Inhabited

namespace Stmt

/-- The note of the outermost node. -/
def note {α : Type} : Stmt α → α
  | .block n .. | .declare n .. | .assign n .. | .when n .. | .branch n .. => n

mutual

/-- The same statement with other notes. -/
def map {α β : Type} (f : α → β) : Stmt α → Stmt β
  | .block n body => .block (f n) (mapAll f body)
  | .declare n type name init => .declare (f n) type name (init.map (·.map f))
  | .assign n m target op value => .assign (f n) (f m) target op (value.map f)
  | .when n test body => .when (f n) (test.map f) (map f body)
  | .branch n test yes no => .branch (f n) (test.map f) (map f yes) (map f no)

/-- The same statements with other notes. -/
def mapAll {α β : Type} (f : α → β) : List (Stmt α) → List (Stmt β)
  | [] => []
  | s :: ss => map f s :: mapAll f ss

end

/-- A statement in one line, as listings show it. -/
def text {α : Type} : Stmt α → String
  | .block _ body => "Block(len=" ++ toString body.length ++ ")"
  | .declare _ type name none => "Declaration(" ++ type.text ++ " " ++ name ++ ")"
  | .declare _ type name (some e) =>
    "Declaration(" ++ type.text ++ " " ++ name ++ " = " ++ e.text ++ ")"
  | .assign _ _ target op value =>
    "Assignment(" ++ target.text ++ " " ++ op.symbol ++ " " ++ value.text ++ ")"
  | .when _ test body => "Conditional(if " ++ test.text ++ " then " ++ body.text ++ ")"
  | .branch _ test yes no =>
    "Conditional(if " ++ test.text ++ " then " ++ yes.text ++ " else " ++ no.text ++ ")"

end Stmt

/-- A rule: its statements in order. -/
structure Program (α : Type) where
  pos : Position := Position.start
  body : List (Stmt α) := []
deriving Repr, Inhabited

/-- The same program with other notes. -/
def Program.map {α β : Type} (f : α → β) (p : Program α) : Program β :=
  { pos := p.pos, body := Stmt.mapAll f p.body }

/-- A program in one line, as listings show it. -/
def Program.text {α : Type} (p : Program α) : String :=
  "Program(len=" ++ toString p.body.length ++ ")"

/-- What a check leaves at a node: its place, the names visible there, and its type.  The type of a
declaration is that of its variable; other statements have none. -/
structure Note where
  pos : Position := {}
  scope : Scope := []
  type : Ty := .invalid
deriving Repr, Inhabited

/-- The note of a node that no check has seen: it sees no names and has no type. -/
def Note.unchecked (pos : Position) : Note := { pos }

/-- The type that a check found for an expression. -/
def Expr.type (e : Expr Note) : Ty := e.note.type

end Cellular
