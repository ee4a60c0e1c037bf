/-!
# Binary floating-point numbers, exactly

Rules count in 32-bit floats and configurations hold 64-bit ones.  This module reads and builds
their bit patterns with natural-number arithmetic only, so that every conversion is the exact value
rounded once.

* `Format.unpack` gives the exact value of a bit pattern.
* `Format.nearest` gives the bit pattern nearest to a fraction, a tie going to the even pattern.
* `truncate`, `narrow`, `widen` and `ofInteger` are the conversions built from the two.

Nothing here computes with floats.  A bit pattern is taken apart into a sign, a natural number and a
power of two, the result of an operation is a fraction of natural numbers, and the pattern nearest
to that fraction is found by one division.  So the conversions can be computed in proofs, and their
rounding is a statement about natural numbers.
-/

namespace Cellular.Number

/-- A binary floating-point format: a sign bit, an exponent field and a fraction field. -/
structure Format where
  fractionBits : Nat
  exponentBits : Nat
deriving Repr, DecidableEq

/-- 32-bit floats. -/
def single : Format := ⟨23, 8⟩

/-- 64-bit floats. -/
def double : Format := ⟨52, 11⟩

/-- What a bit pattern stands for; a finite one is `mantissa * 2 ^ exponent` under its sign. -/
inductive Unpacked where
  | nan
  | infinite (negative : Bool)
  | finite (negative : Bool) (mantissa : Nat) (exponent : Int)
deriving Repr, DecidableEq

/-- The quotient of two numbers rounded to the nearest integer, a half going to the even one. -/
def roundHalfEven (num den : Nat) : Nat :=
  let q := num / den
  let r := num % den
  if 2 * r < den then q
  else if den < 2 * r then q + 1
  else if q % 2 = 0 then q else q + 1

/-- `a * 2 ^ e` as a fraction: its numerator and its denominator. -/
def scaled (a : Nat) (e : Int) : Nat × Nat :=
  if 0 ≤ e then (a * Nat.pow 2 e.toNat, 1) else (a, Nat.pow 2 (-e).toNat)

/-- The exponent `e` with `2 ^ e ≤ num / den < 2 ^ (e + 1)`, for a positive fraction. -/
def floorLog2 (num den : Nat) : Int :=
  let guess : Int := (num.log2 : Int) - den.log2
  let (p, q) := scaled 1 guess
  if den * p ≤ num * q then guess else guess - 1

namespace Format

/-- The exponent of the least positive number, which is also that of every subnormal. -/
def leastExponent (f : Format) : Int :=
  2 - Nat.pow 2 (f.exponentBits - 1) - f.fractionBits

/-- The exponent field of infinities and not-a-numbers. -/
def topExponent (f : Format) : Nat := Nat.pow 2 f.exponentBits - 1

/-- The bit that holds the sign, as a number. -/
def signBit (f : Format) (negative : Bool) : Nat :=
  if negative then Nat.pow 2 (f.fractionBits + f.exponentBits) else 0

/-- The exact value of a bit pattern. -/
def unpack (f : Format) (bits : Nat) : Unpacked :=
  let fraction := bits % Nat.pow 2 f.fractionBits
  let exponent := bits / Nat.pow 2 f.fractionBits % Nat.pow 2 f.exponentBits
  let negative := bits / Nat.pow 2 (f.fractionBits + f.exponentBits) % 2 = 1
  if exponent = f.topExponent then
    if fraction = 0 then .infinite negative else .nan
  else if exponent = 0 then .finite negative fraction f.leastExponent
  else .finite negative (Nat.pow 2 f.fractionBits + fraction) (f.leastExponent + (exponent - 1 : Nat))

/-- The bit pattern of infinity. -/
def infinity (f : Format) (negative : Bool) : Nat :=
  f.signBit negative + f.topExponent * Nat.pow 2 f.fractionBits

/-- The bit pattern of a not-a-number. -/
def notANumber (f : Format) : Nat :=
  f.topExponent * Nat.pow 2 f.fractionBits + Nat.pow 2 (f.fractionBits - 1)

/-- The bit pattern nearest to the fraction `num / den`, a tie going to the even pattern and a value
past the largest finite one to infinity.  A mantissa that rounds up to the next power of two carries
into the exponent field, which is the right exponent. -/
def nearest (f : Format) (negative : Bool) (num den : Nat) : Nat :=
  if num = 0 then f.signBit negative
  else
    let e := max f.leastExponent (floorLog2 num den - f.fractionBits)
    let (p, q) := scaled 1 e
    let mantissa := roundHalfEven (num * q) (den * p)
    let magnitude := (e - f.leastExponent).toNat * Nat.pow 2 f.fractionBits + mantissa
    f.signBit negative + min magnitude (f.topExponent * Nat.pow 2 f.fractionBits)

/-- The bit pattern nearest to an unpacked value of another format. -/
def pack (f : Format) : Unpacked → Nat
  | .nan => f.notANumber
  | .infinite negative => f.infinity negative
  | .finite negative mantissa exponent =>
    let (p, q) := scaled mantissa exponent
    f.nearest negative p q

end Format

/-- The integer part of a value, and 0 where there is none. -/
def Unpacked.truncate : Unpacked → Int
  | .finite negative mantissa exponent =>
    let (p, q) := scaled mantissa exponent
    let n : Int := (p / q : Nat)
    if negative then -n else n
  | _ => 0

/-- The exact value of a 32-bit float. -/
def unpack32 (x : Float32) : Unpacked := single.unpack x.toBits.toNat

/-- The exact value of a 64-bit float. -/
def unpack64 (x : Float) : Unpacked := double.unpack x.toBits.toNat

/-- A 32-bit float cut to its integer part. -/
def truncate (x : Float32) : Int := (unpack32 x).truncate

/-- The 32-bit float nearest to a 64-bit one. -/
def narrow (x : Float) : Float32 :=
  Float32.ofBits (UInt32.ofNat (single.pack (unpack64 x)))

/-- The 64-bit float of the same value as a 32-bit one. -/
def widen (x : Float32) : Float :=
  Float.ofBits (UInt64.ofNat (double.pack (unpack32 x)))

/-- The 32-bit float nearest to an integer. -/
def ofInteger (n : Int) : Float32 :=
  Float32.ofBits (UInt32.ofNat (single.nearest (n < 0) n.natAbs 1))

end Cellular.Number
