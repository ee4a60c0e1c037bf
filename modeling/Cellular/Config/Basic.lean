import Cellular.Kernel

/-!
# Configurations

A configuration declares the state of a cell, the neighbour counts and the rule.

* `Config` is the configuration; exactly one of its program, program file, ruleset and preset gives
  the rule.
* `Config.fieldSpecs` reads the declared state fields.

Types and policies stand here as they were written, since a configuration may come from anywhere.
They are checked when it is compiled, and an error then names the part at fault by its path.  That
only one of the four sources is given is checked before that, when the configuration is made
complete.
-/

namespace Cellular

/-- A declared state field, with its type as it is written. -/
structure StateField where
  name : String := ""
  type : String := ""
  length : Int := 0
deriving Repr, DecidableEq, Inhabited

/-- A life-like rule: the neighbour totals that keep a cell alive and those that bring one to life,
the age at which a cell dies anyway, and the age up to which a cell that should die stays alive.
An age of 0 means none. -/
structure Ruleset where
  survive : List Int := []
  birth : List Int := []
  naturalDeath : Int := 0
  starve : Int := 0
deriving Repr, DecidableEq, Inhabited

/-- The whole input of one compilation.  The order of the neighbour counts is that of their layers
in the weight table. -/
structure Config where
  state : List StateField := []
  neighbourCounts : List KernelSpec := []
  program : String := ""
  programFile : String := ""
  ruleset : Option Ruleset := none
  preset : String := ""
deriving Repr, Inhabited

namespace StateField

/-- The declared field number `index` as the layout wants it.  A flag has no length. -/
def spec (index : Nat) (f : StateField) : Except ConfigError FieldSpec :=
  match FieldKind.ofName? f.type with
  | none => .error ⟨s!"state[{index}].type", .fieldType f.type⟩
  | some kind =>
    if kind = .flag && 1 < f.length then .error ⟨s!"state[{index}].length", .flagLength f.name⟩
    else .ok ⟨f.name, kind, f.length⟩

/-- The declared fields from number `index` on. -/
def specs (index : Nat) : List StateField → Except ConfigError (List FieldSpec)
  | [] => .ok []
  | f :: more => do
    let s ← f.spec index
    let ss ← specs (index + 1) more
    return s :: ss

end StateField

/-- The declared state fields as the layout wants them. -/
def Config.fieldSpecs (c : Config) : Except ConfigError (List FieldSpec) :=
  StateField.specs 0 c.state

end Cellular
