import Cellular.Machine.Board

/-!
# Gray images of boards

A board can be seeded from an image and drawn as one.  A field that is not zero is light.

* `Image` is a gray image.
* `Image.sample` is the pixel that falls on a cell of a board of another size.
* `Board.seed` seeds a board, and `Board.image` and `Board.drawing` show one.

Seeding sets a field to 1 and clears nothing.  Random seeding is a function of its seed, so a run of
a simulation can be repeated.
-/

namespace Cellular

/-- A gray image, row by row; 0 is black and 255 white. -/
structure Image where
  rows : List (List UInt8)
deriving Repr, DecidableEq, Inhabited

namespace Image

/-- The number of columns. -/
def width (i : Image) : Nat := (i.rows.headD []).length

/-- The number of rows. -/
def height (i : Image) : Nat := i.rows.length

/-- The pixel in a column of a row; outside the image it is black. -/
def pixel (i : Image) (x y : Nat) : UInt8 := (i.rows.getD y []).getD x 0

/-- The pixel at the middle of the cell in column `x` of row `y`, if the image is stretched over a
board of the given size. -/
def sample (i : Image) (width height x y : Nat) : UInt8 :=
  i.pixel ((2 * x + 1) * i.width / (2 * width)) ((2 * y + 1) * i.height / (2 * height))

/-- The darkest gray that counts as light. -/
def lightFrom : UInt8 := 128

/-- Whether the cell in column `x` of row `y` is light, if the image is stretched over a board of the
given size. -/
def lights (i : Image) (width height x y : Nat) : Bool := lightFrom ≤ i.sample width height x y

end Image

namespace Board

/-- Sets a field to 1 in the cells that `lit` says, one after the other; other cells stay. -/
def seed (b : Board) (f : Field) (lit : List Bool) : Board :=
  { b with cells := (List.zipWith (fun c on => if on then f.set c 1 else c) b.cells.toList lit).toArray }

/-- The places of all cells, row by row. -/
def places (b : Board) : List (Nat × Nat) :=
  (List.range b.height).flatMap fun y => (List.range b.width).map fun x => (x, y)

/-- Sets a field to 1 in the cells on which an image is light. -/
def seedFrom (b : Board) (f : Field) (i : Image) : Board :=
  b.seed f (b.places.map fun (x, y) => i.lights b.width b.height x y)

/-- The board as an image: white where a field is not zero, else black. -/
def image (b : Board) (f : Field) : Image :=
  ⟨b.rows.map fun row => row.map fun c => if f.get c != 0 then 255 else 0⟩

/-- The board as text: a mark where a field is not zero, else a point. -/
def drawing (b : Board) (f : Field) : String :=
  let row (cells : List Record) : String :=
    String.ofList (cells.map fun c => if f.get c != 0 then '#' else '.')
  String.join (b.rows.map fun cells => row cells ++ "\n")

end Board

/-- The number of steps into which the unit interval is divided for random draws. -/
def drawSteps : Nat := 1000000000

/-- Which of `n` things are drawn, each with the same probability. -/
def draws (density : Float) : Nat → StdGen → List Bool
  | 0, _ => []
  | n + 1, g =>
    let (k, next) := randNat g 0 (drawSteps - 1)
    (k.toFloat / drawSteps.toFloat < density) :: draws density n next

/-- Sets a field to 1 in cells that are drawn with a given probability. -/
def Board.seedRandomly (b : Board) (f : Field) (density : Float) (seed : Int) : Board :=
  b.seed f (draws density b.cells.size (mkStdGen seed.toNat))

end Cellular
