import Cellular.Grid
import Cellular.Machine.Frame

/-!
# Boards and generations

A board is stepped cell by cell.  For every cell the machine counts the neighbours of each kernel,
runs the rule on a copy of the cell, and keeps the declared fields of the copy.  All reads are of
the old board.

* `Board` is one generation of cells.
* `Kernel.visits` lists what a kernel reads around a cell, in order.
* `Machine.step` computes the next generation.

A count is a sum of floats, and each addition is rounded.  Therefore the order of the visits is part
of what a count means, and `Kernel.visits` is a list: column by column, each from its first row on.
A policy decides before anything is read, so a place that is left out adds nothing, not even a zero.

Only `Machine.step` goes through a whole board, and it fails where the step of a cell fails.
-/

namespace Cellular

/-- One generation: the cells of a board, row by row. -/
structure Board where
  width : Nat
  height : Nat
  cells : Array Record
deriving Repr, DecidableEq, Inhabited

namespace Board

/-- The board whose cells are all zero. -/
def blank (width height : Nat) : Board := ⟨width, height, Array.replicate (width * height) {}⟩

/-- The number of the cell in column `x` of row `y`, if that number is one of a cell. -/
def index? (b : Board) (x y : Int) : Option Nat :=
  let i := y * b.width + x
  if 0 ≤ i && i < b.cells.size then some i.toNat else none

/-- The cell in column `x` of row `y`. -/
def get? (b : Board) (x y : Int) : Option Record := (b.index? x y).bind fun i => b.cells[i]?

/-- The board with another value in a field of one cell. -/
def set? (b : Board) (x y : Int) (f : Field) (v : UInt32) : Option Board :=
  (b.index? x y).map fun i => { b with cells := b.cells.modify i fun c => f.set c v }

/-- The number of cells in which a field is not zero. -/
def count (b : Board) (f : Field) : Nat := b.cells.countP fun c => f.get c != 0

/-- The rows of a board. -/
def rows (b : Board) : List (List Record) :=
  (List.range b.height).map fun y => (b.cells.extract (y * b.width) ((y + 1) * b.width)).toList

end Board

/-- What a policy makes of the place `(x, y)` on a board of the given size: a place of the board, or
nothing.  A board without cells cannot close onto itself. -/
def Overflow.locate (o : Overflow) (width height : Nat) (x y : Int) :
    Except Error (Option (Int × Int)) :=
  match o with
  | .wrap =>
    match Grid.wrapOnto? x width, Grid.wrapOnto? y height with
    | some cx, some cy => .ok (some (cx, cy))
    | _, _ => .error .outOfRange
  | .border => .ok (some (Grid.clampOnto x width, Grid.clampOnto y height))
  | .zero => .ok (if Grid.onBoard x width && Grid.onBoard y height then some (x, y) else none)

/-- One cell that a kernel reads: its place in the kernel and its place on the board. -/
structure Visit where
  ix : Nat
  iy : Nat
  cx : Int
  cy : Int
deriving Repr, DecidableEq

namespace Kernel

/-- The places of a kernel, column by column. -/
def places (k : Kernel) : List (Nat × Nat) :=
  (List.range k.width).flatMap fun ix => (List.range k.height).map fun iy => (ix, iy)

/-- The cells that a kernel reads around `(x, y)` from some of its places, in order. -/
def visitsFrom (k : Kernel) (width height : Nat) (x y : Int) :
    List (Nat × Nat) → Except Error (List Visit)
  | [] => .ok []
  | (ix, iy) :: more => do
    let place ← k.overflow.locate width height (x + ix - k.offsetX) (y + iy - k.offsetY)
    let others ← k.visitsFrom width height x y more
    match place with
    | some (cx, cy) => return ⟨ix, iy, cx, cy⟩ :: others
    | none => return others

/-- The cells that a kernel reads around `(x, y)`, in order. -/
def visits (k : Kernel) (width height : Nat) (x y : Int) : Except Error (List Visit) :=
  k.visitsFrom width height x y k.places

end Kernel

/-- The total of a count as a value of its type; an integer is cut toward zero.  A total that is too
large for an integer is converted as in `Value.toInt`: implementations are free in what they make of
it, and here it is its integer part modulo `2 ^ 32`, or 0 if it is infinite or no number. -/
def CountType.value (t : CountType) (total : Float32) : Value :=
  match t with
  | .float => .float total
  | .int => .int (Int32.ofInt (Number.truncate total))

/-- A rule ready to run. -/
structure Machine where
  layout : Layout
  kernels : KernelSet
  program : Program Note
deriving Repr, Inhabited

namespace Machine

/-- The weighted value of one visited cell. -/
def weigh (m : Machine) (b : Board) (k : Kernel) (v : Visit) : Except Error Float32 :=
  match m.kernels.weight? k.index v.ix v.iy, b.get? v.cx v.cy with
  | some weight, some cell => do
    let value ← (k.value.eval m.layout { cell }).mapError .internal
    return weight * value.toFloat
  | _, _ => .error .outOfRange

/-- Adds up the weighted values of visited cells in order, each sum rounded. -/
def total (m : Machine) (b : Board) (k : Kernel) (sum : Float32) :
    List Visit → Except Error Float32
  | [] => .ok sum
  | v :: more => do
    let w ← m.weigh b k v
    m.total b k (sum + w) more

/-- The count of one kernel around `(x, y)`. -/
def count (m : Machine) (b : Board) (k : Kernel) (x y : Int) : Except Error Value := do
  let visits ← k.visits b.width b.height x y
  let sum ← m.total b k 0 visits
  return k.result.value sum

/-- The counts of some kernels around `(x, y)`, by their names. -/
def countAll (m : Machine) (b : Board) (x y : Int) :
    List Kernel → Except Error (List (String × Value))
  | [] => .ok []
  | k :: more => do
    let v ← m.count b k x y
    let vs ← m.countAll b x y more
    return (k.name, v) :: vs

/-- The counts of all kernels around `(x, y)`. -/
def counts (m : Machine) (b : Board) (x y : Int) : Except Error (List (String × Value)) :=
  m.countAll b x y m.kernels.kernels

/-- A record that holds only the declared fields of another one. -/
def clean (l : Layout) (r : Record) : Record :=
  l.fields.foldl (fun out f => f.set out (f.get r)) {}

/-- The next record of the cell in column `x` of row `y`. -/
def stepCell (m : Machine) (b : Board) (x y : Int) : Except Error Record := do
  let counts ← m.counts b x y
  match b.get? x y with
  | none => .error .outOfRange
  | some prev =>
    let f ← (Stmt.execAll m.layout m.program.body { cell := prev, prev, counts }).mapError .internal
    return clean m.layout f.cell

/-- The next records of some cells, given by their numbers. -/
def stepCells (m : Machine) (b : Board) : List Nat → Except Error (List Record)
  | [] => .ok []
  | i :: more =>
    match Grid.place? i b.width with
    | none => .error .outOfRange
    | some (x, y) => do
      let r ← m.stepCell b x y
      let rs ← m.stepCells b more
      return r :: rs

/-- The next generation.  Every cell sees only the old one. -/
def step (m : Machine) (b : Board) : Except Error Board := do
  let cells ← m.stepCells b (List.range b.cells.size)
  return { b with cells := cells.toArray }

/-- The generation after `n` steps. -/
def run (m : Machine) (b : Board) : Nat → Except Error Board
  | 0 => .ok b
  | n + 1 => do
    let b ← m.step b
    m.run b n

end Machine

end Cellular
