import Cellular.Compile
import Cellular.Config.Ruleset
import Cellular.Text.Table

/-!
# Reports about rules

What the commands show of a compiled rule and of the presets.

* `Compiled.summary`, `Compiled.layoutReport` and `Compiled.kernelReport` show a compiled rule.
* `Compiled.weightFile` is the weight table as a file for other programs.
* `presetReport` shows the presets.

Reports are functions from a compiled rule to a text, so they can be shown without a host.  A weight
that is no number, or is infinite, has no place in a weight file; whoever writes one looks for such
a weight before.
-/

namespace Cellular

/-- The place of a field, part by part. -/
def Field.placeText (f : Field) : String :=
  ", ".intercalate (f.spans.map fun s => s!"byte {s.byte} [{s.low}..{s.high}]")

namespace KernelSet

/-- The size of the weight table. -/
def sizeText (ks : KernelSet) : String := s!"{ks.width}x{ks.height}x{ks.kernels.length}"

/-- The first weight that is no number, if there is one. -/
def badWeight? (ks : KernelSet) : Option Float32 :=
  ks.weights.toList.find? fun w => w.isNaN || w.isInf

/-- The weight table as a file: its size, and its weights layer by layer and row by row. -/
def weightFile (ks : KernelSet) : String :=
  let size (name : String) (n : Nat) : String := s!"  \"{name}\": {n},\n"
  let weights := ks.weights.toList.map fun w => "    " ++ Number.Style.table.write32 w
  let data := if weights.isEmpty then "[]" else "[\n" ++ ",\n".intercalate weights ++ "\n  ]"
  "\x7b\n" ++ size "width" ks.width ++ size "height" ks.height ++ size "depth" ks.kernels.length
    ++ "  \"data\": " ++ data ++ "\n\x7d\n"

end KernelSet

namespace Compiled

/-- One line about a rule that compiles. -/
def summary (c : Compiled) : String :=
  s!"ok: {c.layout.fields.length} state fields ({c.layout.bits} bits), "
    ++ s!"{c.kernels.kernels.length} neighbour counts\n"

/-- The places of the state fields. -/
def layoutReport (c : Compiled) : String :=
  let row (f : Field) : List String := [f.name, f.kind.name, toString f.width, f.placeText]
  s!"{c.layout.bits}/{recordBits} bits used\n"
    ++ Text.table ["FIELD", "KIND", "BITS", "SPANS"] (c.layout.fields.map row)

/-- The kernels and the size of their weight table. -/
def kernelReport (c : Compiled) : String :=
  let row (k : Kernel) : List String :=
    [toString k.index, k.name, s!"{k.width}x{k.height}", k.result.name, k.overflow.name,
      k.value.text]
  "weight table " ++ c.kernels.sizeText ++ "\n"
    ++ Text.table ["LAYER", "NAME", "SIZE", "TYPE", "OVERFLOW", "VALUE"]
      (c.kernels.kernels.map row)

end Compiled

/-- Neighbour totals in a table; a dash stands for none. -/
def totalsText : List Int → String
  | [] => "-"
  | totals => ",".intercalate (totals.map toString)

/-- An age in a table; a dash stands for none. -/
def ageText (age : Int) : String := if age ≤ 0 then "-" else toString age

/-- The presets with their rules. -/
def presetReport : String :=
  let row (p : String × Ruleset) : List String :=
    [p.1, totalsText p.2.survive, totalsText p.2.birth, ageText p.2.naturalDeath,
      ageText p.2.starve]
  Text.table ["PRESET", "SURVIVE", "BIRTH", "NATURAL DEATH", "STARVE"] (presets.map row)

end Cellular
