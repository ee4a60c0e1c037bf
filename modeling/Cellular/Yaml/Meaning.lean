import Cellular.Number.Decimal
import Cellular.Yaml.Scalar

/-!
# What scalars mean

A scalar in quotes is a text.  One without quotes may be nothing, a truth value, a number or a date,
if it looks like one.

* `Meaning` is what a scalar means; it has a tag.
* `resolve` finds the meaning of a scalar without quotes.
* `scalarTag` is the tag of a scalar, and `Meaning.ofTagged?` what a scalar with a tag means.

The meaning of a scalar is looked up when a value is read from it and not when the document is read.
So one text may be a number where a number is wanted and itself where a text is wanted.
-/

namespace Cellular.Yaml

open Number (Decimal isDigit)

/-- What a scalar means. -/
inductive Meaning where
  | null
  | bool (b : Bool)
  | int (n : Int)
  | float (x : Float)
  | date
  | text
deriving Repr, Inhabited

/-- The tag of a meaning in diagnostics. -/
def Meaning.tag : Meaning → String
  | .null => "!!null"
  | .bool _ => "!!bool"
  | .int _ => "!!int"
  | .float _ => "!!float"
  | .date => "!!timestamp"
  | .text => "!!str"

/-! ## Words

The words for nothing, for truth and for special floats count in a few spellings each; any other
spelling is a text.
-/

/-- A word in small letters, with a capital, and in capitals. -/
def spellings (word : String) : List String := [word, word.capitalize, word.toUpper]

/-- The bit pattern of a special float. -/
def specialFloat (bits : Nat) : Float := Float.ofBits (UInt64.ofNat bits)

/-- The meaning of a word that has one. -/
def wordMeaning? (s : String) : Option Meaning :=
  let infinite := [".inf", ".Inf", ".INF"]
  if s = "" || s = "~" || s ∈ spellings "null" then some .null
  else if s ∈ spellings "true" then some (.bool true)
  else if s ∈ spellings "false" then some (.bool false)
  else if s ∈ [".nan", ".NaN", ".NAN"] then some (.float (specialFloat Number.double.notANumber))
  else if s ∈ infinite || s ∈ infinite.map ("+" ++ ·) then
    some (.float (specialFloat (Number.double.infinity false)))
  else if s ∈ infinite.map ("-" ++ ·) then
    some (.float (specialFloat (Number.double.infinity true)))
  else none

/-! ## Integers

Numbers past the words of 64 bits are no integers; they mean floats if they look like one.  A sign
may stand before the mark of a base, or behind it.
-/

/-- The number that digits of a base spell; there has to be one. -/
def numberIn? (base : Nat) (cs : List Char) : Option Nat :=
  if cs.isEmpty then none else hexDigits? base cs

/-- The base that a number without sign is written in, and its digits. -/
def splitBase : List Char → Nat × List Char
  | '0' :: c :: cs =>
    if c = 'x' || c = 'X' then (16, cs)
    else if c = 'o' || c = 'O' then (8, cs)
    else if c = 'b' || c = 'B' then (2, cs)
    else (8, c :: cs)
  | cs => (10, cs)

/-- A number within the words of 64 bits: with a sign, or without one and up to twice as far. -/
def wordSized? (signed negative : Bool) (n : Nat) : Option Int :=
  if negative then if n ≤ Nat.pow 2 63 then some (-n) else none
  else if n < Nat.pow 2 63 || (!signed && n < Nat.pow 2 64) then some n
  else none

/-- Reads an integer in the base that its spelling says. -/
def integer? (cs : List Char) : Option Int :=
  let (negative, body) := Number.takeSign cs
  let (base, digits) := splitBase body
  (numberIn? base digits).bind (wordSized? (body.length ≠ cs.length) negative)

/-- Reads an integer of a given base with an optional sign. -/
def integerIn? (base : Nat) (cs : List Char) : Option Int :=
  let (negative, digits) := Number.takeSign cs
  (numberIn? base digits).bind (wordSized? (digits.length ≠ cs.length) negative)

/-- Reads an integer whose sign stands behind the mark of its base. -/
def lateSign? : List Char → Option Int
  | '0' :: 'b' :: cs => integerIn? 2 cs
  | '0' :: 'o' :: cs => integerIn? 8 cs
  | _ => none

/-! ## Floats

A float has digits and at most one point, and is rounded once.  A numeral past all floats means
itself.
-/

/-- The float nearest to a decimal, unless it is past all of them. -/
def finite? (d : Decimal) : Option Float :=
  if d.nearest Number.double = Number.double.infinity d.negative then none else some d.toDouble

/-- Reads a float that starts with a point. -/
def pointFloat? (cs : List Char) : Option Float :=
  if Number.separatorsFit isDigit false cs then (Decimal.parse? (cs.filter (· ≠ '_'))).bind finite? else none

/-! ## Dates

No value of a configuration is a date, but a scalar that looks like one has a tag of its own, and
its text can still be read as a text.  The day has to be one of its month.
-/

/-- One or two digits at the front of a text, as a number, and the text behind them. -/
def shortNumber? (cs : List Char) : Option (Nat × List Char) :=
  match cs with
  | a :: b :: r =>
    if isDigit a && isDigit b then some (Number.digitsValue [a, b], r)
    else if isDigit a then some (Number.digitsValue [a], b :: r)
    else none
  | [a] => if isDigit a then some (Number.digitsValue [a], []) else none
  | [] => none

/-- The number of days of a month. -/
def daysIn (year month : Nat) : Nat :=
  match month with
  | 2 => if year % 4 = 0 && (year % 100 ≠ 0 || year % 400 = 0) then 29 else 28
  | 4 | 6 | 9 | 11 => 30
  | _ => 31

/-- A separator and a number below a bound behind it. -/
def nextPart? (separator : Char) (bound : Nat) (cs : List Char) : Option (List Char) :=
  match cs with
  | c :: r =>
    if c = separator then (shortNumber? r).bind fun (n, t) => if n < bound then some t else none
    else none
  | [] => none

/-- The text behind a fraction of a second, which may be left out. -/
def afterFraction : List Char → List Char
  | c :: d :: cs =>
    if (c = '.' || c = ',') && isDigit d then cs.dropWhile isDigit else c :: d :: cs
  | cs => cs

/-- A time of day: hours, minutes and seconds, perhaps with a fraction. -/
def dayTime? (cs : List Char) : Option (List Char) := do
  let (hour, r) ← shortNumber? cs
  if hour < 24 then
    let r ← nextPart? ':' 60 r
    let r ← nextPart? ':' 60 r
    return afterFraction r
  else none

/-- Whether a text is the time zone of a date. -/
def isZone : List Char → Bool
  | ['Z'] => true
  | [sign, a, b, ':', c, d] =>
    (sign = '+' || sign = '-') && isDigit a && isDigit b && isDigit c && isDigit d
      && Number.digitsValue [a, b] ≤ 24 && Number.digitsValue [c, d] ≤ 60
  | _ => false

/-- Whether a text is a date, with or without a time of day.  Between the two stands a letter, and
then a zone is needed, or there are blanks and no zone. -/
def isDate (cs : List Char) : Bool :=
  let year := cs.takeWhile isDigit
  if year.length ≠ 4 then false
  else match cs.drop 4 with
    | '-' :: r =>
      match shortNumber? r with
      | some (month, '-' :: t) =>
        match shortNumber? t with
        | some (day, rest) =>
          1 ≤ month && month ≤ 12 && 1 ≤ day && day ≤ daysIn (Number.digitsValue year) month
            && match rest with
              | [] => true
              | 'T' :: u | 't' :: u => (dayTime? u).any isZone
              | ' ' :: u => (dayTime? (u.dropWhile (· = ' '))).any (·.isEmpty)
              | _ => false
        | none => false
      | _ => false
    | _ => false

/-! ## All together

The first character decides what a scalar may be, and the readers are then tried in turn.
-/

/-- The meaning of a scalar that starts like a number.  Underscores in numbers have no meaning. -/
def numberMeaning (cs : List Char) : Meaning :=
  let digits := cs.filter (· ≠ '_')
  if isDate cs then .date
  else match integer? digits with
    | some n => .int n
    | none =>
      match (Decimal.parse? digits).bind finite? with
      | some x => .float x
      | none =>
        match lateSign? digits with
        | some n => .int n
        | none => .text

/-- The meaning of a scalar without quotes. -/
def resolve (s : String) : Meaning :=
  match wordMeaning? s with
  | some m => m
  | none =>
    match s.toList with
    | '.' :: cs =>
      match pointFloat? ('.' :: cs) with
      | some x => .float x
      | none => .text
    | c :: cs => if isDigit c || c = '+' || c = '-' then numberMeaning (c :: cs) else .text
    | [] => .null

/-! ## Tags

A tag that is written overrides what a scalar looks like.  If the tag asks for a meaning that the
text does not have, the scalar has none, and the reading ends there.
-/

/-- The first integer past the words of 64 bits. -/
def wordEnd : Int := Nat.pow 2 63

/-- The float nearest to an integer. -/
def floatOfInt (i : Int) : Float :=
  Float.ofBits (UInt64.ofNat (Number.double.nearest (i < 0) i.natAbs 1))

/-- The tag of a text. -/
def textTag : String := "!!str"

/-- The tag of the key that takes over the entries of another mapping. -/
def mergeTag : String := "!!merge"

/-- The key that takes over the entries of another mapping. -/
def mergeKey : String := "<<"

/-- Tags whose meaning is looked up in the text of the scalar. -/
def resolvedTags : List String := ["!!null", "!!bool", "!!int", "!!float", "!!timestamp"]

/-- The tag of a scalar: the one it is given, that of a text in quotes, or what it looks like. -/
def scalarTag (tag : Option String) (plain : Bool) (text : String) : String :=
  match tag with
  | some t => t
  | none => if !plain then textTag else if text = mergeKey then mergeTag else (resolve text).tag

/-- The meaning of a scalar with a tag.  An integer may be tagged as a float; otherwise a tag that
is looked up has to be that of the meaning.  All other scalars are texts. -/
def Meaning.ofTagged? (tag text : String) : Option Meaning :=
  if tag ∈ resolvedTags then
    let m := resolve text
    if m.tag = tag then some m
    else match m with
      | .int n => if tag = "!!float" && n < wordEnd then some (.float (floatOfInt n)) else none
      | _ => none
  else some .text

end Cellular.Yaml
