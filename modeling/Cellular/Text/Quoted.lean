import Cellular.Text.Printable

/-!
# Quoted text

Diagnostics show text they did not expect in double quotes, with an escape for every character
that would not be seen or would end the quotes.

* `quote` writes a text in quotes.
* `padRight` and `padLeft` fill a text with blanks to a width counted in code points.

Quoting keeps the printable characters as they are, so most texts are shown unchanged.  Widths are
counted in code points and not in bytes, as columns of names and texts are read by people.
-/

namespace Cellular.Text

/-- `n` in lower-case hexadecimal with at least `width` digits. -/
def hex (width n : Nat) : String :=
  let digits := Nat.toDigits 16 n
  String.ofList (List.replicate (width - digits.length) '0' ++ digits)

/-- The letter of the short escape of a control character, if it has one. -/
def shortEscape? (c : Char) : Option Char :=
  match c.toNat with
  | 0x07 => some 'a'
  | 0x08 => some 'b'
  | 0x0c => some 'f'
  | 0x0a => some 'n'
  | 0x0d => some 'r'
  | 0x09 => some 't'
  | 0x0b => some 'v'
  | _ => none

/-- How one character is written inside quotes. -/
def quoteChar (c : Char) : String :=
  if c = '"' || c = '\\' then String.ofList ['\\', c]
  else if isPrintable c then String.singleton c
  else match shortEscape? c with
    | some e => String.ofList ['\\', e]
    | none =>
      if c.toNat < 0x80 then "\\x" ++ hex 2 c.toNat
      else if c.toNat < 0x10000 then "\\u" ++ hex 4 c.toNat
      else "\\U" ++ hex 8 c.toNat

/-- A text in double quotes, every character that is not plainly visible escaped. -/
def quote (s : String) : String :=
  "\"" ++ String.join (s.toList.map quoteChar) ++ "\""

/-- A text filled with blanks on the right to `width` code points. -/
def padRight (width : Nat) (s : String) : String :=
  s ++ String.ofList (List.replicate (width - s.length) ' ')

/-- A text filled with blanks on the left to `width` code points. -/
def padLeft (width : Nat) (s : String) : String :=
  String.ofList (List.replicate (width - s.length) ' ') ++ s

/-- The text `s` repeated `n` times. -/
def repeated (n : Nat) (s : String) : String :=
  String.join (List.replicate n s)

end Cellular.Text
