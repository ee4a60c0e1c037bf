import Cellular.Image
import Cellular.Number.Decimal

/-!
# Plain graymaps

A plain graymap is a text of numbers: a mark, the width, the height, the number of the lightest gray,
and the pixels row by row.

* `Image.ofGraymap?` reads a plain graymap.

Grays are scaled to 255 by their lightest number, and rounded down.  A file whose pixels are not as
many as its size says is no graymap, and neither is one with a gray above the lightest.
-/

namespace Cellular

/-- The words of a text. -/
def wordsIn (cs : List Char) : List (List Char) :=
  (cs.splitBy fun a b => a.isWhitespace = b.isWhitespace).filter fun w => !w.any Char.isWhitespace

/-- The number that a word spells. -/
def wordNumber? (w : List Char) : Option Nat :=
  if w.all Number.isDigit then some (Number.digitsValue w) else none

/-- Rows of a given width; `height` is their number. -/
def rowsOf (width : Nat) : Nat → List Nat → List (List Nat)
  | 0, _ => []
  | height + 1, pixels => pixels.take width :: rowsOf width height (pixels.drop width)

/-- Reads a plain graymap. -/
def Image.ofGraymap? (text : String) : Option Image := do
  match wordsIn text.toList with
  | ['P', '2'] :: numbers =>
    let width :: height :: most :: pixels ← numbers.mapM wordNumber? | none
    if pixels.length = width * height && 0 < most && pixels.all (· ≤ most) then
      return ⟨(rowsOf width height pixels).map fun row =>
        row.map fun p => UInt8.ofNat (p * 255 / most)⟩
    else none
  | _ => none

end Cellular
