import Cellular.Config.Basic
import Cellular.Error
import Cellular.Number.Numeral
import Cellular.Yaml.Printer

/-!
# Configurations as documents

A configuration is written with its parts in a fixed order.  Parts that say nothing are left out; a
kernel always has all of its parts, and these have to be such that they are read back.

* `Config.outline` is the configuration as an outline.
* `Config.document` is the text of the document.

The order of the parts is that of the fields of a configuration, and a text is written in the style
that suits it.  A block of lines that starts with a tab would not be read back, so a kernel with
such a text has no document.  That what is written for a ruleset is read back as the same
configuration is proved.
-/

namespace Cellular

open Yaml (Outline ScalarStyle)

/-- An integer in a document. -/
def intOutline (n : Int) : Outline := .word (toString n)

/-- An entry for a text, unless it is empty. -/
def textEntry (key value : String) : List (String × Outline) :=
  if value.isEmpty then [] else [(key, .text value)]

/-- An entry for an integer, unless it is zero. -/
def intEntry (key : String) (value : Int) : List (String × Outline) :=
  if value = 0 then [] else [(key, intOutline value)]

/-- A state field as a record. -/
def StateField.outline (f : StateField) : Outline :=
  .record ([("name", .text f.name), ("type", .text f.type)] ++ intEntry "length" f.length)

/-- A text of a kernel.  The key that takes over other entries is written with its tag there. -/
def kernelText (s : String) : Outline :=
  if s = Yaml.mergeKey then .word (Yaml.mergeTag ++ " " ++ s) else .text s

/-- A kernel as a record, without its name. -/
def KernelSpec.outline (k : KernelSpec) : Outline :=
  let number (x : Float) : Outline := .word (Number.Style.document.write64 x)
  .record [
    ("matrix", .list (k.matrix.map fun row => .list (row.map number))),
    ("valuefn", kernelText k.valueFn),
    ("type", kernelText k.type),
    ("overflow", kernelText k.overflow)]

/-- Whether all parts of a kernel are read back from what is written of them. -/
def KernelSpec.readsBack (k : KernelSpec) : Bool :=
  [k.valueFn, k.type, k.overflow].all ScalarStyle.readsBack

/-- A ruleset as a record. -/
def Ruleset.outline (r : Ruleset) : Outline :=
  .record ([("survive", .row (r.survive.map toString)), ("birth", .row (r.birth.map toString))]
    ++ intEntry "natural_death" r.naturalDeath ++ intEntry "starve" r.starve)

namespace Config

/-- The configuration as an outline. -/
def outline (c : Config) : Outline :=
  .record (
    (if c.state.isEmpty then [] else [("state", .list (c.state.map StateField.outline))])
    ++ (if c.neighbourCounts.isEmpty then []
      else [("neighbourCounts", .record (c.neighbourCounts.map fun k => (k.name, k.outline)))])
    ++ textEntry "program" c.program
    ++ textEntry "program_file" c.programFile
    ++ c.ruleset.toList.map (fun r => ("ruleset", r.outline))
    ++ textEntry "preset" c.preset)

/-- The text of the configuration as a document, if its kernels are read back from it. -/
def document (c : Config) : Except Error String :=
  if c.neighbourCounts.all KernelSpec.readsBack then .ok c.outline.render else .error .notADocument

end Config

end Cellular
