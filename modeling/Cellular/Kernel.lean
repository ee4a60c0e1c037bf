import Cellular.Layout.Basic
import Cellular.Number.Binary
import Cellular.Source.Reader

/-!
# Neighbour counts

A kernel weighs the cells around a cell: a matrix of weights with its centre on the cell, a value
function of one cell, and a policy for what lies outside the board.  The weights of all kernels
share one table, a layer per kernel, as wide and as high as the largest of them.

* `KernelSpec` is a declared kernel, `Kernel` one that passed its checks.
* `KernelSet.compile` checks the declared kernels and builds the table.
* `KernelSet.weight?` looks a weight up in the table, `KernelSet.weightAt?` at any coordinates.

A kernel is checked on its own: its path in the errors, its centre and its matrix do not depend on
the others.  What the kernels of a rule share is only the table.  Its layers have one size, so a
kernel that is smaller than the table has weights of zero outside its own matrix; it never reads
them, since it visits its own places alone.
-/

namespace Cellular

/-- What a kernel reads outside the board. -/
inductive Overflow where
  /-- The board closes onto itself. -/
  | wrap
  /-- The nearest cell of the board. -/
  | border
  /-- Nothing. -/
  | zero
deriving Repr, DecidableEq, Inhabited

namespace Overflow

/-- All policies, by their codes. -/
def all : List Overflow := [.wrap, .border, .zero]

/-- How a policy is written. -/
def name : Overflow → String
  | .wrap => "wrap"
  | .border => "border"
  | .zero => "zero"

/-- The policy with a given spelling. -/
def ofName? (s : String) : Option Overflow := all.find? (·.name = s)

/-- The code of a policy. -/
def code : Overflow → Nat
  | .wrap => 0
  | .border => 1
  | .zero => 2

/-- The name of the policy with a given code; other codes are shown as they are. -/
def nameOfCode (n : Int) : String :=
  match all.find? fun o => (o.code : Int) = n with
  | some o => o.name
  | none => s!"Overflow({n})"

end Overflow

/-- The type of a neighbour count. -/
inductive CountType where
  | int
  | float
deriving Repr, DecidableEq, Inhabited

namespace CountType

/-- How the type is written, in configurations and in shaders. -/
def name : CountType → String
  | .int => "int"
  | .float => "float"

/-- The type with a given spelling. -/
def ofName? : String → Option CountType
  | "int" => some .int
  | "float" => some .float
  | _ => none

/-- The type in the rule language. -/
def type : CountType → Ty
  | .int => .int
  | .float => .float

end CountType

/-- A declared kernel. -/
structure KernelSpec where
  name : String
  matrix : List (List Float) := []
  valueFn : String := ""
  type : String := ""
  overflow : String := ""
deriving Repr, Inhabited

/-- A kernel that passed its checks.  Its index is its layer in the weight table. -/
structure Kernel where
  name : String
  index : Nat
  width : Nat
  height : Nat
  matrix : List (List Float)
  /-- The value function, checked where only the cell is visible. -/
  value : Expr Note
  result : CountType
  overflow : Overflow
deriving Repr, Inhabited

namespace Kernel

/-- The column of the centre. -/
def offsetX (k : Kernel) : Nat := k.width / 2

/-- The row of the centre. -/
def offsetY (k : Kernel) : Nat := k.height / 2

/-- The weight in column `x` of row `y`; outside the matrix there is none. -/
def entry (k : Kernel) (x y : Nat) : Float32 :=
  match k.matrix[y]? with
  | none => 0
  | some row =>
    match row[x]? with
    | none => 0
    | some w => Number.narrow w

end Kernel

namespace KernelSpec

/-- The path of a kernel inside its configuration. -/
def path (name : String) : String := "neighbourCounts." ++ name

/-- The height and width of a matrix: both odd, and all rows alike. -/
def checkMatrix (path : String) (matrix : List (List Float)) : Except Error (Nat × Nat) :=
  let height := matrix.length
  let width := (matrix.headD []).length
  if height = 0 || width = 0 then .error (configError path .emptyMatrix)
  else if matrix.any (·.length ≠ width) then .error (configError path .raggedMatrix)
  else if height % 2 ≠ 1 || width % 2 ≠ 1 then .error (configError path (.evenMatrix height width))
  else .ok (height, width)

/-- Reads and checks a value function where the names of `scope` are visible. -/
def checkValue (path : String) (scope : Scope) (source : String) : Except Error (Expr Note) := do
  let e ← (Expr.parse source).mapError fun e => .within path (.parse e)
  let e ← (e.check scope).mapError fun e => .within path (.typing e)
  if e.type.isScalar then return e else .error (configError path (.valueType e.type))

/-- Checks one declared kernel.  Its value function sees the names of `scope`. -/
def check (index : Nat) (scope : Scope) (s : KernelSpec) : Except Error Kernel := do
  let path := KernelSpec.path s.name
  if !isIdentifier s.name then .error (configError path (.kernelName s.name))
  else if s.name = cellName || s.name = prevName then
    .error (configError path (.reservedKernel s.name))
  else
    let (height, width) ← checkMatrix (path ++ ".matrix") s.matrix
    match CountType.ofName? s.type with
    | none => .error (configError (path ++ ".type") (.countType s.type))
    | some result =>
      match Overflow.ofName? s.overflow with
      | none => .error (configError (path ++ ".overflow") (.overflow s.overflow))
      | some overflow =>
        let value ← checkValue (path ++ ".valuefn") scope s.valueFn
        return { name := s.name, index, width, height, matrix := s.matrix, value, result, overflow }

/-- Checks the declared kernels in order, from number `index` on and behind the names `seen`. -/
def checkAll (scope : Scope) (index : Nat) (seen : List String) :
    List KernelSpec → Except Error (List Kernel)
  | [] => .ok []
  | s :: more => do
    let k ← s.check index scope
    if k.name ∈ seen then .error (configError (KernelSpec.path s.name) (.duplicateKernel k.name))
    else
      let ks ← checkAll scope (index + 1) (k.name :: seen) more
      return k :: ks

end KernelSpec

/-- The kernels of a rule and the size of their shared weight table. -/
structure KernelSet where
  kernels : List Kernel := []
  width : Nat := 0
  height : Nat := 0
  weights : Array Float32 := #[]
deriving Repr, Inhabited

namespace KernelSet

/-- One layer of the table after the other, each row by row, filled up with zeros. -/
def tableOf (width height : Nat) (kernels : List Kernel) : List Float32 :=
  kernels.flatMap fun k =>
    (List.range height).flatMap fun y => (List.range width).map fun x => k.entry x y

/-- The set of some kernels. -/
def ofKernels (kernels : List Kernel) : KernelSet :=
  let width := kernels.foldl (fun n k => max n k.width) 0
  let height := kernels.foldl (fun n k => max n k.height) 0
  { kernels, width, height, weights := (tableOf width height kernels).toArray }

/-- Checks the declared kernels; their value functions see only a cell of type `cell`. -/
def compile (specs : List KernelSpec) (cell : Ty) : Except Error KernelSet := do
  let kernels ← KernelSpec.checkAll (Scope.builtin [] cellName cell) 0 [] specs
  return ofKernels kernels

/-- The weight in column `x`, row `y` of layer `k`, if the table has it. -/
def weight? (s : KernelSet) (k x y : Nat) : Option Float32 :=
  s.weights[s.width * s.height * k + s.width * y + x]?

/-- The weight at any coordinates.  The table is one row of weights, so a place outside a row or a
layer is one of the rows or layers next to it. -/
def weightAt? (s : KernelSet) (k x y : Int) : Option Float32 :=
  let place := s.width * s.height * k + s.width * y + x
  if 0 ≤ place then s.weights[place.toNat]? else none

/-- The kernel with a given name. -/
def find? (s : KernelSet) (name : String) : Option Kernel := s.kernels.find? (·.name = name)

/-- The scope with the name of every kernel, read-only and of its result type. -/
def scope (s : KernelSet) (parent : Scope) : Scope :=
  s.kernels.foldl (fun scope k => scope.builtin k.name k.result.type) parent

/-- The size of the table and one line per kernel. -/
def listing (s : KernelSet) : String :=
  let line (k : Kernel) :=
    s!"[{k.index}] " ++ k.name ++ s!" {k.width}x{k.height} " ++ k.result.name ++ " "
      ++ k.overflow.name ++ " value=" ++ k.value.text ++ "\n"
  s!"weight table {s.width}x{s.height}x{s.kernels.length}\n" ++ String.join (s.kernels.map line)

end KernelSet

/-- The names that a rule sees: the cell, the cell as it was, and every kernel. -/
def rootScope (l : Layout) (ks : KernelSet) : Scope :=
  ks.scope ((Scope.builtin [] cellName l.cellType).builtin prevName l.cellType)

end Cellular
