import Cellular.Command.Run

/-!
# Inspecting a rule

A second program shows everything that is known about a rule, stage by stage, up to the first stage
that fails.

* `Config.inspect` shows the stages of a configuration.
* `runInspection` inspects the rule in a file, or a sample rule.

The stages are those of a compilation, called one by one, so that what one gives is shown before the
next one is tried.  An error carries the name of the stage that it comes from.
-/

namespace Cellular

/-- A computation that prints as it goes; what was printed stays if it fails. -/
abbrev Inspection := ExceptT String (StateM String)

namespace Inspection

/-- Prints a text. -/
def say (text : String) : Inspection Unit := modify (· ++ text)

/-- Prints a title with some lines under it and an empty line below them. -/
def part (title : String) (body : String) : Inspection Unit :=
  say (title ++ "\n" ++ body ++ "\n")

/-- Goes on with what a stage gives, or fails in the name of that stage. -/
def stage {β : Type} (name : String) (r : Except Error β) : Inspection β :=
  match r with
  | .ok v => pure v
  | .error e => throw (name ++ " error: " ++ e.message ++ "\n")

/-- Lines of a listing, indented. -/
def listed (lines : List String) : String := String.join (lines.map fun l => "  " ++ l ++ "\n")

end Inspection

mutual

/-- The declarations in a statement, outermost first. -/
def Stmt.declarations : Stmt Note → List (Note × String)
  | .block _ body => Stmt.declarationsAll body
  | .declare note _ name _ => [(note, name)]
  | .assign .. => []
  | .when _ _ body => body.declarations
  | .branch _ _ yes no => yes.declarations ++ no.declarations

/-- The declarations in some statements. -/
def Stmt.declarationsAll : List (Stmt Note) → List (Note × String)
  | [] => []
  | s :: more => s.declarations ++ Stmt.declarationsAll more

end

/-- The place, the name and the type of a declared name as one line. -/
def declarationLine (d : Note × String) : String :=
  Text.padRight 8 d.1.pos.text ++ " " ++ Text.padRight 20 d.2 ++ " " ++ d.1.type.text

open Inspection in
/-- Shows the stages of a configuration. -/
def Config.inspect (c : Config) : Inspection Unit := do
  say ("Program:\n" ++ c.program ++ "\n")
  let tokens ← stage "lex" ((lex c.program.toList).mapError fun e => .parse e.2)
  part s!"Tokens ({tokens.length})" (listed (tokens.map Token.listing))
  let layout ← stage "layout" c.packed
  part "Layout" layout.listing
  let kernels ← stage "kernel" (c.kernelSet layout)
  part "Kernels" kernels.listing
  let parsed ← stage "parse" c.parsed
  part "AST" (listed (parsed.body.map Stmt.text))
  let program ← stage "type" (Config.checked layout kernels parsed)
  part "Root scope" (rootScope layout kernels).listing
  part "Declarations"
    (listed ((Stmt.declarationsAll program.body).map declarationLine))
  let shader ← stage "codegen" ((Shader.generate layout kernels program).mapError .internal)
  say ("Generated Shader\n" ++ shader.text)

/-- The rule that is inspected if there is no other. -/
def sampleRule : Config :=
  { state := [{ name := "alive", type := "flag" }]
    neighbourCounts := [Ruleset.neighbours]
    program := "int n = neighbours;\ncell.alive = n == 3 || (prev.alive && n == 2);\n" }

/-- Inspects the rule in a file, or the sample rule, and says whether all stages passed. -/
def runInspection {m : Type → Type} [Monad m] (h : Host m) (args : List String) : m Bool := do
  let loaded ← match args with
    | path :: _ => (loadConfig h path).run
    | [] => pure (.ok sampleRule)
  match loaded with
  | .error e =>
    h.log ("config error: " ++ e.message ++ "\n")
    return false
  | .ok c =>
    let (result, printed) := c.inspect.run.run ""
    h.out printed
    match result with
    | .ok () => return true
    | .error message =>
      h.log message
      return false

end Cellular
