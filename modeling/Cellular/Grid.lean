/-!
# Board coordinates

The cells of a board are numbered row by row, and a policy may ask for places beside the board.
This module has the arithmetic of both, twice.

The functions of the first part work on machine words, with wrapping arithmetic and quotients toward
zero.  Those of the second part work on integers without bounds, where a remainder is never
negative. In both parts what divides has no result for a divisor of zero.

Boards are stepped with the second part, because its functions say what they mean.  The two parts
agree wherever the words do not overflow, so what is proved of the one part also holds of a board
whose coordinates are kept in words.
-/

namespace Cellular.Grid

/-! ## Machine words

The quotient and the remainder of words go toward zero, so the remainder of a negative number is
negative or zero and `wrap?` has to move it up.
-/

/-- The column and row of a cell number. -/
def coords? (index cols : Int64) : Option (Int64 × Int64) :=
  if cols = 0 then none else some (index % cols, index / cols)

/-- The number of the cell in column `x` of row `y`. -/
def index (x y cols : Int64) : Int64 := y * cols + x

/-- The remainder of `i` by `size`, moved up by `size` where it is negative. -/
def wrap? (i size : Int64) : Option Int64 :=
  if size = 0 then none
  else
    let m := i % size
    some (if m < 0 then m + size else m)

/-- The number of `0 … size - 1` nearest to `i`; no size has nothing below 0. -/
def clamp (i size : Int64) : Int64 :=
  let last := size - 1
  let low := if i < last then i else last
  if 0 < low then low else 0

/-- Whether column `x` of row `y` lies on a board. -/
def inBounds (x y cols rows : Int64) : Bool := 0 ≤ x && x < cols && 0 ≤ y && y < rows

/-! ## Coordinates near a board

Here the remainder is the mathematical one, and closing a board onto itself is one operation.  A
board without cells has no nearest coordinate, and `clampOnto` gives 0 there, which is then not on
the board.
-/

/-- The column and row of cell number `i` on a board of `cols` columns. -/
def place? (i cols : Nat) : Option (Nat × Nat) :=
  if cols = 0 then none else some (i % cols, i / cols)

/-- The coordinate that a closed board of `size` cells has at `i`. -/
def wrapOnto? (i : Int) (size : Nat) : Option Int := if size = 0 then none else some (i % size)

/-- The coordinate of the cell nearest to `i` on a board of `size` cells. -/
def clampOnto (i : Int) (size : Nat) : Int := max 0 (min i (size - 1))

/-- Whether `i` is a coordinate of a board of `size` cells. -/
def onBoard (i : Int) (size : Nat) : Bool := 0 ≤ i && i < size

end Cellular.Grid
