import Cellular.Config.Basic
import Cellular.Machine.Board
import Cellular.Shader.Generate

/-!
# Compiling configurations

A configuration is compiled in five stages: packing the state, checking the kernels, reading the
program, checking it, and generating the shader.  The first stage that fails decides.

* `Config.compile` runs all stages.
* `Config.progress` says what the stages found, up to the first that fails.

The state comes first, since the kernels and the rule speak of its fields, and the shader comes
last, since it needs all of the others.  What a rule needs in order to run is `Compiled`: the
layout, the kernels, the checked program and the shader.  Its machine is made of the first three, so
the shader and the machine are two readings of one checked rule.  The stages are functions of their
own, so that a statement about one of them need not go through the others.
-/

namespace Cellular

/-- A compiled rule. -/
structure Compiled where
  shader : Shader
  layout : Layout
  kernels : KernelSet
  program : Program Note
deriving Repr, Inhabited

/-- The machine that runs a compiled rule. -/
def Compiled.machine (c : Compiled) : Machine :=
  { layout := c.layout, kernels := c.kernels, program := c.program }

namespace Config

/-- The place of every state field. -/
def packed (c : Config) : Except Error Layout := do
  let specs ← c.fieldSpecs.mapError .config
  (Layout.pack specs).mapError .config

/-- The kernels over a packed state. -/
def kernelSet (c : Config) (l : Layout) : Except Error KernelSet :=
  KernelSet.compile c.neighbourCounts l.cellType

/-- The program as it was read. -/
def parsed (c : Config) : Except Error (Program Position) :=
  (Program.parse c.program).mapError .parse

/-- A program checked against the names of its rule. -/
def checked (l : Layout) (ks : KernelSet) (p : Program Position) : Except Error (Program Note) :=
  (p.check (rootScope l ks)).mapError .typing

/-- Runs all stages. -/
def compile (c : Config) : Except Error Compiled := do
  let layout ← c.packed
  let kernels ← c.kernelSet layout
  let parsed ← c.parsed
  let program ← checked layout kernels parsed
  let shader ← (Shader.generate layout kernels program).mapError .internal
  return { shader, layout, kernels, program }

/-- Goes on with what a stage gives, if it gives anything. -/
def afterStage {β : Type} (stage : Except Error β) (more : β → List String) : List String :=
  match stage with
  | .ok v => more v
  | .error _ => []

/-- One line for every stage up to the first that fails. -/
def progress (c : Config) : List String :=
  afterStage c.packed fun l =>
    s!"layout: {l.fields.length} fields, {l.bits}/{recordBits} bits" ::
    afterStage (c.kernelSet l) fun ks =>
      s!"kernels: {ks.kernels.length}, weight table {ks.width}x{ks.height}" ::
      afterStage c.parsed fun p =>
        s!"parse: {p.body.length} top-level statements" ::
        afterStage (checked l ks p) fun p =>
          "check: ok" ::
          afterStage ((Shader.generate l ks p).mapError .internal) fun shader =>
            [s!"generate: {shader.text.utf8ByteSize} bytes of shader"]

end Config

end Cellular
