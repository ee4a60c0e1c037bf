import Cellular.Config.Basic
import Cellular.Config.Decoding

/-!
# Configurations from documents

* `StateField.shape`, `Ruleset.shape`, `KernelSpec.shape` and `Config.shape` say which keys there are.
* `readCounts` reads the neighbour counts, which end the reading at their first fault.
* `decodeConfig` reads a whole document.

All shapes but that of a kernel are strict: a key that they do not have is a fault.  A kernel is
read by a reading of its own, with a list of faults of its own, and this one passes unknown keys
over.
-/

namespace Cellular

open Yaml (Document Node Meaning)

open Decoding (visit)

/-- The shape of a declared state field. -/
def StateField.shape : Shape StateField where
  owner := "config.StateField"
  strict := true
  set key := match key with
    | "name" => Shape.field Decoding.text fun r v => { r with name := v }
    | "type" => Shape.field Decoding.text fun r v => { r with type := v }
    | "length" => Shape.field Decoding.int fun r v => { r with length := v }
    | _ => none

/-- The shape of a ruleset. -/
def Ruleset.shape : Shape Ruleset where
  owner := "config.Ruleset"
  strict := true
  set key := match key with
    | "survive" => Shape.field (Decoding.list "[]int" Decoding.int) fun r v => { r with survive := v }
    | "birth" => Shape.field (Decoding.list "[]int" Decoding.int) fun r v => { r with birth := v }
    | "natural_death" => Shape.field Decoding.int fun r v => { r with naturalDeath := v }
    | "starve" => Shape.field Decoding.int fun r v => { r with starve := v }
    | _ => none

/-- A matrix, row by row. -/
def readMatrix (n : Node) : Decoding (Option (List (List Float))) :=
  Decoding.list "[][]float64" (Decoding.list "[]float64" Decoding.float) n

/-- The shape of a kernel, which may have keys that mean nothing. -/
def KernelSpec.shape : Shape KernelSpec where
  owner := "config.NeighbourCount"
  strict := false
  set key := match key with
    | "matrix" => Shape.field readMatrix fun r v => { r with matrix := v }
    | "valuefn" => Shape.field Decoding.text fun r v => { r with valueFn := v }
    | "type" => Shape.field Decoding.text fun r v => { r with type := v }
    | "overflow" => Shape.field Decoding.text fun r v => { r with overflow := v }
    | _ => none

/-! ## Neighbour counts

The order of the kernels is that of the mapping, since it decides on their layers.  A repeated name
is no fault here; it is refused when the kernels are compiled.
-/

/-- The kernel in a node of a document, by its name. -/
def decodeKernel (d : Document) (name : String) (n : Node) : Except Error KernelSpec :=
  match (KernelSpec.shape.read { name } n).run { document := d } with
  | .error e => .error e
  | .ok (k, p) => if p.faults.isEmpty then .ok (k.getD { name }) else .error (.document p.faults)

/-- The kernels of a mapping by their names, up to the first that does not fit. -/
def decodeKernels (d : Document) : List (Node × Node) → Except Error (List KernelSpec)
  | [] => .ok []
  | (key, value) :: more => do
    let name := keyText key
    let k ← (decodeKernel d name value).mapError (.within ("neighbourCounts." ++ name))
    let ks ← decodeKernels d more
    return k :: ks

/-- The neighbour counts: a mapping from names to kernels, or nothing. -/
def readCounts (n : Node) : Decoding (Option (List KernelSpec)) :=
  visit n fun n => do
    let refused := Error.plain
      s!"line {n.line}: neighbourCounts must be a mapping of name to kernel"
    match n with
    | .mapping _ _ entries =>
      let d := (← get).document
      match decodeKernels d entries with
      | .ok ks => return some ks
      | .error e => throw e
    | .scalar _ tag plain text =>
      if Yaml.scalarTag tag plain text = Meaning.null.tag then
        let _ ← meaning tag plain text
        return some []
      else throw refused
    | _ => throw refused

/-! ## Configurations

Faults that were noted are reported together, in the order in which they were found, and then there
is no configuration.
-/

/-- The shape of a configuration. -/
def Config.shape : Shape Config where
  owner := "config.Config"
  strict := true
  set key := match key with
    | "state" =>
      Shape.field (Decoding.list "[]config.StateField" (StateField.shape.read {})) fun r v =>
        { r with state := v }
    | "neighbourCounts" => Shape.field readCounts fun r v => { r with neighbourCounts := v }
    | "program" => Shape.field Decoding.text fun r v => { r with program := v }
    | "program_file" => Shape.field Decoding.text fun r v => { r with programFile := v }
    | "ruleset" => Shape.field (Ruleset.shape.read {}) fun r v => { r with ruleset := some v }
    | "preset" => Shape.field Decoding.text fun r v => { r with preset := v }
    | _ => none

/-- Reads a configuration from a document.  A document that means nothing is the empty
configuration. -/
def decodeConfig (d : Document) : Except Error Config :=
  match (Config.shape.read {} d.root).run { document := d } with
  | .error e => .error e
  | .ok (c, p) => if p.faults.isEmpty then .ok (c.getD {}) else .error (.document p.faults)

end Cellular
