import Cellular.Number.Decimal

/-!
# Writing floats

A float is written with the fewest digits that read back.  Where the digits are written plainly and
where with an exponent, and how an exponent looks, is the choice of each kind of output and stands
in one `Style`.

* `Style.write` writes an unpacked float.
* `Style.answer` and `Style.table` are the styles of values and of weight tables.

The styles differ in where an exponent starts, in the number of its digits and in the words for
special values.  They share the digits, which are those of `shortest`.
-/

namespace Cellular.Number

/-- How one kind of output writes floats: the first exponents, downwards and upwards, that are
written as such, the least number of exponent digits, and the words for special values. -/
structure Style where
  plainFrom : Int
  plainBelow : Int
  exponentDigits : Nat
  infinity : String
  negativeInfinity : String
  nan : String

namespace Style

/-- Values and configurations: six places before the point and four zeros behind it are written
plainly, an exponent has a sign and two digits. -/
def answer : Style := ⟨-4, 6, 2, "+Inf", "-Inf", "NaN"⟩

/-- The same inside a configuration document, which has words of its own for special values. -/
def document : Style := { answer with infinity := ".inf", negativeInfinity := "-.inf", nan := ".nan" }

/-- Weight tables: exponents only below a millionth and from `10 ^ 21` on, with one digit at least. -/
def table : Style := ⟨-6, 21, 1, "+Inf", "-Inf", "NaN"⟩

/-- The digits `ds` of a number whose first digit counts `10 ^ point`, without exponent. -/
def plainDigits (ds : List Char) (point : Int) : List Char :=
  if point < 0 then '0' :: '.' :: List.replicate (-point - 1).toNat '0' ++ ds
  else
    let whole := (point + 1).toNat
    let front := ds.take whole ++ List.replicate (whole - ds.length) '0'
    match ds.drop whole with
    | [] => front
    | back => front ++ '.' :: back

/-- The same digits with an exponent. -/
def exponentDigitsOf (style : Style) (ds : List Char) (point : Int) : List Char :=
  let front := match ds with
    | [] => []
    | [d] => [d]
    | d :: back => d :: '.' :: back
  let e := Nat.toDigits 10 point.natAbs
  front ++ 'e' :: (if point < 0 then '-' else '+')
    :: List.replicate (style.exponentDigits - e.length) '0' ++ e

/-- Writes the magnitude of a finite float of format `f`. -/
def magnitude (style : Style) (f : Format) (mantissa : Nat) (exponent : Int) : List Char :=
  let (n, e) := shortest f mantissa exponent
  let ds := Nat.toDigits 10 n
  let point : Int := e + ds.length - 1
  if n = 0 || (style.plainFrom ≤ point && point < style.plainBelow) then plainDigits ds point
  else style.exponentDigitsOf ds point

/-- Writes an unpacked float of format `f`. -/
def write (style : Style) (f : Format) : Unpacked → String
  | .nan => style.nan
  | .infinite negative => if negative then style.negativeInfinity else style.infinity
  | .finite negative mantissa exponent =>
    let m := style.magnitude f mantissa exponent
    String.ofList (if negative then '-' :: m else m)

/-- Writes a 32-bit float. -/
def write32 (style : Style) (x : Float32) : String := style.write single (unpack32 x)

/-- Writes a 64-bit float. -/
def write64 (style : Style) (x : Float) : String := style.write double (unpack64 x)

end Style

end Cellular.Number
