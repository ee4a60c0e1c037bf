/-!
# Places in a rule text

A `Position` names one place of a rule text in two ways at once: by the number of bytes before it,
and by line and column as a person counts them.

* `Position.start` is the place before the first character.
* `Position.after` and `Position.afterAll` move over text that was read.

The two ways are kept together because they are needed together: the number of bytes says which part
of the text a token is, and diagnostics show the line and the column.  A position is computed only
by moving over text from the start, so the two never disagree.
-/

namespace Cellular

/-- A place in a rule text: bytes before it, and line and column from 1.  A column counts code
points, not bytes.  Hand-made syntax trees may carry any numbers, so the fields are integers. -/
structure Position where
  offset : Int := 0
  line : Int := 0
  column : Int := 0
deriving Repr, DecidableEq, Inhabited

namespace Position

/-- The place before the first character of a text. -/
def start : Position := ⟨0, 1, 1⟩

/-- The place just behind the character `c` when `c` stands at `p`. -/
def after (p : Position) (c : Char) : Position :=
  if c = '\n' then ⟨p.offset + c.utf8Size, p.line + 1, 1⟩
  else ⟨p.offset + c.utf8Size, p.line, p.column + 1⟩

/-- The place just behind the text `cs` when `cs` starts at `p`. -/
def afterAll (p : Position) (cs : List Char) : Position :=
  cs.foldl after p

/-- Nothing read moves a place nowhere. -/
@[simp] theorem afterAll_nil (p : Position) : p.afterAll [] = p := rfl

/-- Characters move a place one by one. -/
@[simp] theorem afterAll_cons (p : Position) (c : Char) (cs : List Char) :
    p.afterAll (c :: cs) = (p.after c).afterAll cs := rfl

/-- A text in two parts moves a place by one part and then by the other. -/
theorem afterAll_append (p : Position) (cs ds : List Char) :
    p.afterAll (cs ++ ds) = (p.afterAll cs).afterAll ds :=
  List.foldl_append

/-- The form `line:column` that diagnostics use. -/
def text (p : Position) : String := s!"{p.line}:{p.column}"

end Position

end Cellular
