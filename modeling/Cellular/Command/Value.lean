import Cellular.Number.Decimal
import Cellular.Text.Quoted

/-!
# Values of flags

A flag takes a switch, an integer, a float or any text.  Integers may be written in the usual bases
and floats also in base 16, and underscores may stand between digits.

* `FlagKind` is the sort of value that a flag takes, and `FlagValue` the value.
* `FlagKind.read` reads a value.
-/

namespace Cellular.Command

open Number (isDigit separatorsFit takeSign)

/-- The sorts of values that flags take. -/
inductive FlagKind where
  | switch
  | integer
  | float
  | text
deriving Repr, DecidableEq, Inhabited

/-- The value of a flag. -/
inductive FlagValue where
  | switch (on : Bool)
  | integer (n : Int)
  | float (x : Float)
  | text (s : String)
deriving Repr, Inhabited

/-- Why a text is not the value of a flag. -/
inductive ValueFault where
  | malformed
  | outOfRange
deriving Repr, DecidableEq, Inhabited

/-- The wording of a fault. -/
def ValueFault.message : ValueFault → String
  | .malformed => "invalid syntax"
  | .outOfRange => "value out of range"

/-! ## Switches

A switch without a value is on; with a value it may be switched off as well.
-/

/-- Reads a switch. -/
def readSwitch (s : String) : Except ValueFault Bool :=
  if s ∈ ["1", "t", "T", "TRUE", "true", "True"] then .ok true
  else if s ∈ ["0", "f", "F", "FALSE", "false", "False"] then .ok false
  else .error .malformed

/-! ## Integers

The base is told by the mark at the front, and a plain zero there means base 8.  A number out of
range is told from one that is malformed by what comes first in its text.
-/

/-- The value of a letter or figure as a digit. -/
def digitValue? (c : Char) : Option Nat :=
  if isDigit c then some (c.toNat - '0'.toNat)
  else if c.isAlpha then some (c.toLower.toNat - 'a'.toNat + 10)
  else none

/-- Reads digits onto the number `n`.  A number that is no word of 64 bits is out of range, whatever
follows. -/
def readDigits (base n : Nat) : List Char → Except ValueFault Nat
  | [] => .ok n
  | c :: cs =>
    if c = '_' then readDigits base n cs
    else match digitValue? c with
      | none => .error .malformed
      | some d =>
        if base ≤ d then .error .malformed
        else if Nat.pow 2 64 ≤ base * n + d then .error .outOfRange
        else readDigits base (base * n + d) cs

/-- The base of a number without sign, whether it has a mark, and its digits. -/
def splitMark (cs : List Char) : Nat × Bool × List Char :=
  match cs with
  | '0' :: c :: d :: more =>
    match c.toLower with
    | 'b' => (2, true, d :: more)
    | 'o' => (8, true, d :: more)
    | 'x' => (16, true, d :: more)
    | _ => (8, false, c :: d :: more)
  | '0' :: more => (8, false, more)
  | more => (10, false, more)

/-- Whether the underscores of a number stand between digits; the mark of a base counts as one, as
does a zero at the front. -/
def underscoresFit (base : Nat) (marked : Bool) (body digits : List Char) : Bool :=
  let digit (c : Char) : Bool := isDigit c || (base = 16 && (digitValue? c).any (· < 16))
  if marked then separatorsFit digit true digits else separatorsFit digit false body

/-- Reads an integer of 64 bits. -/
def readInteger (s : String) : Except ValueFault Int :=
  let (negative, body) := takeSign s.toList
  let (base, marked, digits) := splitMark body
  if body.isEmpty then .error .malformed
  else match readDigits base 0 digits with
    | .error fault => .error fault
    | .ok n =>
      if !underscoresFit base marked body digits then .error .malformed
      else if negative then if n ≤ Nat.pow 2 63 then .ok (-n) else .error .outOfRange
      else if n < Nat.pow 2 63 then .ok n
      else .error .outOfRange

/-! ## Floats

A float is rounded once from its exact value.  One whose nearest value is infinite is out of range;
the words for infinity are the only way to give it.
-/

/-- A float by its bits; one past all others is out of range. -/
def finiteOrFault (negative : Bool) (bits : Nat) : Except ValueFault Float :=
  if bits = Number.double.infinity negative then .error .outOfRange
  else .ok (Float.ofBits (UInt64.ofNat bits))

/-- The words for special floats. -/
def specialFloat? (s : String) : Option Float :=
  let bits (n : Nat) : Float := Float.ofBits (UInt64.ofNat n)
  let (negative, body) := takeSign (s.toLower.toList)
  if s.toLower = "nan" then some (bits Number.double.notANumber)
  else if String.ofList body ∈ ["inf", "infinity"] then
    some (bits (Number.double.infinity negative))
  else none

/-- The largest power of two that is worked out; all numbers with a larger one are past all
floats. -/
def powerLimit : Int := 20000

/-- Reads the digits of a float in base 16 behind its mark: digits with at most one point among
them, and a power of two. -/
def readHexFloat (negative : Bool) (cs : List Char) : Except ValueFault Float :=
  let hexDigit (c : Char) : Bool := (digitValue? c).any (· < 16)
  let whole := cs.takeWhile hexDigit
  let (fraction, tail) := match cs.dropWhile hexDigit with
    | '.' :: r => (r.takeWhile hexDigit, r.dropWhile hexDigit)
    | r => ([], r)
  let value (ds : List Char) : Nat := ds.foldl (fun n c => 16 * n + (digitValue? c).getD 0) 0
  match tail with
  | mark :: rest =>
    let (down, ds) := takeSign rest
    if (mark = 'p' || mark = 'P') && !ds.isEmpty && ds.all isDigit
        && !(whole.isEmpty && fraction.isEmpty) then
      let size : Int := Number.digitsValue ds
      let power := (if down then -size else size) - 4 * fraction.length
      let power := max (-powerLimit) (min powerLimit power)
      let n := value (whole ++ fraction)
      if 0 ≤ power then
        finiteOrFault negative (Number.double.nearest negative (n * Nat.pow 2 power.toNat) 1)
      else finiteOrFault negative (Number.double.nearest negative n (Nat.pow 2 (-power).toNat))
    else .error .malformed
  | [] => .error .malformed

/-- Reads a float of 64 bits. -/
def readFloat (s : String) : Except ValueFault Float :=
  match specialFloat? s with
  | some x => .ok x
  | none =>
    let (negative, body) := takeSign s.toList
    let bare (cs : List Char) : List Char := cs.filter (· ≠ '_')
    match body with
    | '0' :: 'x' :: cs | '0' :: 'X' :: cs =>
      if underscoresFit 16 true body cs then readHexFloat negative (bare cs) else .error .malformed
    | _ =>
      if !separatorsFit isDigit false body then .error .malformed
      else match Number.Decimal.parse? (bare s.toList) with
        | some d => finiteOrFault d.negative (d.nearest Number.double)
        | none => .error .malformed

/-! ## Reading

A text is always read; the three other sorts may fault.
-/

/-- The name of the reader of a sort of values in diagnostics. -/
def FlagKind.reader : FlagKind → String
  | .switch => "strconv.ParseBool"
  | .integer => "strconv.ParseInt"
  | .float => "strconv.ParseFloat"
  | .text => ""

/-- Reads a value. -/
def FlagKind.read (kind : FlagKind) (s : String) : Except ValueFault FlagValue :=
  match kind with
  | .switch => (readSwitch s).map .switch
  | .integer => (readInteger s).map .integer
  | .float => (readFloat s).map .float
  | .text => .ok (.text s)

end Cellular.Command
