import Cellular.Number.Binary

/-!
# Decimal numerals

Reading decimal numerals, and finding the decimal that stands for a float in the fewest digits.

* `Decimal` is a signed decimal number, `digits * 10 ^ exponent`.
* `Decimal.parse?` reads a numeral; `Decimal.nearest` rounds it once into a float format.
* `shortest` is the decimal of fewest digits that reads back as a given float.

A numeral is rounded once, from its exact value.  Digits far behind the point matter, as they can
decide on which side of a tie a value lies, so no digit is dropped before the rounding.
-/

namespace Cellular.Number

/-- The decimal number `digits * 10 ^ exponent` under its sign. -/
structure Decimal where
  negative : Bool := false
  digits : Nat := 0
  exponent : Int := 0
deriving Repr, DecidableEq

/-- An ASCII digit. -/
def isDigit (c : Char) : Bool := '0' ≤ c && c ≤ '9'

/-- The number that a list of ASCII digits spells. -/
def digitsValue (cs : List Char) : Nat :=
  cs.foldl (fun n c => 10 * n + (c.toNat - '0'.toNat)) 0

/-- An optional sign, and what follows it. -/
def takeSign : List Char → Bool × List Char
  | '-' :: cs => (true, cs)
  | '+' :: cs => (false, cs)
  | cs => (false, cs)

/-- Whether underscores stand only between digits; `after` says whether a digit stands before the
text. -/
def separatorsFit (digit : Char → Bool) (after : Bool) : List Char → Bool
  | [] => true
  | c :: cs =>
    if c = '_' then after && cs.head?.any digit && separatorsFit digit false cs
    else separatorsFit digit (digit c) cs

namespace Decimal

/-- The exponent part of a numeral: nothing, or a mark, an optional sign and digits to the end. -/
def parseExponent? : List Char → Option Int
  | [] => some 0
  | mark :: cs =>
    let (negative, ds) := takeSign cs
    if (mark = 'e' || mark = 'E') && !ds.isEmpty && ds.all isDigit then
      some (if negative then -(digitsValue ds : Int) else digitsValue ds)
    else none

/-- Reads a whole numeral: an optional sign, digits with at most one point among them, and an
optional exponent.  At least one digit must stand before the exponent. -/
def parse? (cs : List Char) : Option Decimal :=
  let (negative, body) := takeSign cs
  let whole := body.takeWhile isDigit
  let afterWhole := body.dropWhile isDigit
  let (fraction, tail) := match afterWhole with
    | '.' :: r => (r.takeWhile isDigit, r.dropWhile isDigit)
    | r => ([], r)
  if whole.isEmpty && fraction.isEmpty then none
  else (parseExponent? tail).map fun e =>
    { negative, digits := digitsValue (whole ++ fraction), exponent := e - fraction.length }

/-- The bit pattern of format `f` nearest to a decimal.  A value of 400 or more places before the
point, or whose first 400 decimal places are zero, is past the range of every format, and its power
of ten is not computed. -/
def nearest (f : Format) (d : Decimal) : Nat :=
  let size : Int := (Nat.toDigits 10 d.digits).length + d.exponent
  if d.digits = 0 || size < -400 then f.signBit d.negative
  else if 400 < size then f.infinity d.negative
  else if 0 ≤ d.exponent then f.nearest d.negative (d.digits * Nat.pow 10 d.exponent.toNat) 1
  else f.nearest d.negative d.digits (Nat.pow 10 (-d.exponent).toNat)

/-- The 32-bit float nearest to a decimal. -/
def toSingle (d : Decimal) : Float32 := Float32.ofBits (UInt32.ofNat (d.nearest single))

/-- The 64-bit float nearest to a decimal. -/
def toDouble (d : Decimal) : Float := Float.ofBits (UInt64.ofNat (d.nearest double))

end Decimal

/-! ## The fewest digits

A finite float stands for every real that rounds to it: an interval around its value, whose ends
belong to it when the mantissa is even.  On the grid of decimals with `n` digits, if any point lies
in the interval then one of the value's two neighbours does, so only these two are tried, for
`n = 1, 2, …`. -/

/-- A fraction of natural numbers, compared by cross-multiplication. -/
structure Ratio where
  num : Nat
  den : Nat
deriving Repr

/-- `a < b` for fractions. -/
def Ratio.lt (a b : Ratio) : Bool := a.num * b.den < b.num * a.den

/-- The reals that round to one float: a low end, the value and a high end, and whether the ends
belong to it. -/
structure Rounding where
  low : Ratio
  value : Ratio
  high : Ratio
  closed : Bool

/-- The rounding interval of `mantissa * 2 ^ exponent`.  Below a power of two the next float is only
half as far away as above it, except at the least exponent. -/
def Rounding.of (f : Format) (mantissa : Nat) (exponent : Int) : Rounding :=
  let atPower := mantissa = Nat.pow 2 f.fractionBits && f.leastExponent < exponent
  let quarter (k : Nat) : Ratio :=
    let (p, q) := scaled k (exponent - 2)
    ⟨p, q⟩
  { low := quarter (4 * mantissa - if atPower then 1 else 2)
    value := quarter (4 * mantissa)
    high := quarter (4 * mantissa + 2)
    closed := mantissa % 2 = 0 }

/-- Whether a fraction rounds to the float. -/
def Rounding.contains (r : Rounding) (x : Ratio) : Bool :=
  (r.low.lt x || (r.closed && !x.lt r.low)) && (x.lt r.high || (r.closed && !r.high.lt x))

/-- The point `n * 10 ^ e` of a decimal grid. -/
def gridPoint (n : Nat) (e : Int) : Ratio :=
  if 0 ≤ e then ⟨n * Nat.pow 10 e.toNat, 1⟩ else ⟨n, Nat.pow 10 (-e).toNat⟩

/-- The neighbour of the value on the grid of step `10 ^ e` that lies in the interval, if there is
one; of two the nearer, and of two equally near the even one. -/
def Rounding.onGrid? (r : Rounding) (e : Int) : Option Nat :=
  let step := gridPoint 1 e
  let num := r.value.num * step.den
  let den := r.value.den * step.num
  let below := num / den
  let fits (n : Nat) := r.contains (gridPoint n e)
  match fits below, fits (below + 1) with
  | true, true => some (roundHalfEven num den)
  | true, false => some below
  | false, true => some (below + 1)
  | false, false => none

/-- The decimal exponent of the first digit of a positive fraction, searched downwards from `e`. -/
def firstDigitExponent (x : Ratio) : Nat → Int → Int
  | 0, e => e
  | fuel + 1, e => if x.lt (gridPoint 1 e) then firstDigitExponent x fuel (e - 1) else e

/-- Tries the grids of step `10 ^ e`, `10 ^ (e - 1)`, … in turn. -/
def Rounding.search (r : Rounding) : Nat → Int → Nat × Int
  | 0, e => ((r.onGrid? e).getD 0, e)
  | fuel + 1, e =>
    match r.onGrid? e with
    | some n => (n, e)
    | none => r.search fuel (e - 1)

/-- Moves the zeros at the end of a digit string into its exponent. -/
def dropZeros : Nat → Nat → Int → Nat × Int
  | 0, n, e => (n, e)
  | fuel + 1, n, e => if n ≠ 0 && n % 10 = 0 then dropZeros fuel (n / 10) (e + 1) else (n, e)

/-- The decimal of fewest digits that rounds to `mantissa * 2 ^ exponent`, as digits without zeros
at the end and the power of ten they are multiplied by. -/
def shortest (f : Format) (mantissa : Nat) (exponent : Int) : Nat × Int :=
  if mantissa = 0 then (0, 0)
  else
    let r := Rounding.of f mantissa exponent
    -- the first digit lies at most one place below what the binary logarithm promises
    let guess : Int := floorLog2 r.value.num r.value.den * 30103 / 100000 + 1
    let top := firstDigitExponent r.value 3 guess
    let (n, e) := r.search 20 top
    dropZeros 20 n e

end Cellular.Number
