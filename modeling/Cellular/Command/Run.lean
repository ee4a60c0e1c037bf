import Cellular.Command.Host
import Cellular.Command.Invocation
import Cellular.Command.Report
import Cellular.Config.Encode

/-!
# Running commands

* `CommandError` is what can go wrong with a command apart from its rule.
* `loadConfig` and `compileFile` read and compile the rule in a file.
* `runCommand` runs one command, and `runProgram` a whole call.

A command reads and compiles its rule before it writes anything, the log apart.  The errors of a
rule are reported as they are; those of the command itself are of a type of their own.
-/

namespace Cellular

/-- Why a command fails, if not because of its rule. -/
inductive CommandError where
  | usage (e : UsageError)
  | file (e : FileError)
  | unwritable (what path : String) (e : FileError)
  | unknownImage
  | boardSize (width height : Int)
  | negativeSteps (n : Int)
  | noStateFields
  | noStateField (name : String)
  | weight (w : Float32)
deriving Repr, Inhabited

/-- The wording of an error. -/
def CommandError.message : CommandError → String
  | .usage e => e.message
  | .file e => e.message
  | .unwritable what path e =>
    "failed to write " ++ what ++ " " ++ Text.quote path ++ ": " ++ e.message
  | .unknownImage => "failed to decode seed image: image: unknown format"
  | .boardSize width height => s!"board size must be positive, got {width}x{height}"
  | .negativeSteps n => s!"steps must not be negative, got {n}"
  | .noStateFields => "the rule declares no state fields"
  | .noStateField name => "no state field named " ++ Text.quote name
  | .weight w => "json: unsupported value: " ++ Number.Style.answer.write32 w

/-- The error of a command as an error of the program. -/
def CommandError.toError (e : CommandError) : Error := .plain e.message

/-- What a command does on a host; an error ends it, but what was printed stays. -/
abbrev Task (m : Type → Type) := ExceptT Error m

section

variable {m : Type → Type} [Monad m] (h : Host m)

/-- Prints a text. -/
def printText (text : String) : Task m Unit := ExceptT.lift (h.out text)

/-- Writes a text to the log. -/
def logText (text : String) : Task m Unit := ExceptT.lift (h.log text)

/-- Goes on with a value, or ends with an error. -/
def orFail {β ε : Type} (r : Except ε β) (toError : ε → Error) : Task m β :=
  ExceptT.mk (pure (r.mapError toError))

/-- Ends with an error of the command. -/
def failWith {β : Type} (e : CommandError) : Task m β := throw e.toError

/-! ## Rules in files

A configuration may name the file of its program.  That file is looked for from the directory of the
configuration and not from the working directory.
-/

/-- Reads the configuration in a file.  The file of its program is seen from the directory of the
configuration. -/
def loadConfig (path : String) : Task m Config := do
  let (full, base) := Location.info (← h.directory) path
  let text ← orFail (← h.readText full) fun e => (CommandError.file e).toError
  let c ← orFail (Config.ofText text) (.within path)
  let program ← match c.programLocation? base with
    | some location => h.readText location
    | none => pure (.ok "")
  orFail (c.resolve (fun _ => program) base) fun e => .within path (.config e)

/-- Reads and compiles the rule in a file.  With `verbose`, the log says how far this comes. -/
def compileFile (verbose : Bool) (path : String) : Task m Compiled := do
  let c ← loadConfig h path
  let line (text : String) : String := programName ++ ": " ++ text ++ "\n"
  if verbose then logText h (String.join ((("loaded " ++ path) :: c.progress).map line))
  orFail c.compile id

/-! ## Commands

Each command is a function of what it needs.  A simulation checks its numbers before it reads its
rule, and prints a line for every generation as it goes.
-/

/-- Writes the shader and the weight table of a rule. -/
def runCompile (c : Compiled) (shaderPath weightPath : String) : Task m Unit := do
  let shader := c.shader.text
  if shaderPath.isEmpty then printText h shader
  else
    orFail (← h.writeText shaderPath shader) fun e =>
      (CommandError.unwritable "shader" shaderPath e).toError
    logText h s!"generated {shader.utf8ByteSize} bytes -> {shaderPath}\n"
  if !weightPath.isEmpty then
    match c.kernels.badWeight? with
    | some w => failWith (.weight w)
    | none =>
      orFail (← h.writeText weightPath c.kernels.weightFile) fun e =>
        (CommandError.unwritable "weight table" weightPath e).toError
      logText h ("weight table " ++ c.kernels.sizeText ++ " -> " ++ weightPath ++ "\n")

/-- How a simulation is set up. -/
structure Simulation where
  width : Int := 32
  height : Int := 16
  steps : Int := 1
  density : Float := 0.3
  seed : Int := 1
  seedImage : String := ""
  field : String := ""
  picture : String := ""
deriving Repr, Inhabited

/-- The setup that settings ask for. -/
def Simulation.ofSettings (s : Command.Settings) : Simulation :=
  let usual : Simulation := {}
  { width := s.integer "width" usual.width
    height := s.integer "height" usual.height
    steps := s.integer "steps" usual.steps
    density := s.float "density" usual.density
    seed := s.integer "seed" usual.seed
    seedImage := s.text "seed-image"
    field := s.text "field"
    picture := s.text "png" }

/-- Whether the numbers of a setup make sense. -/
def Simulation.validate (s : Simulation) : Except CommandError Unit :=
  if s.width ≤ 0 || s.height ≤ 0 then .error (.boardSize s.width s.height)
  else if s.steps < 0 then .error (.negativeSteps s.steps)
  else .ok ()

/-- The field with a given name, or the first one if there is no name. -/
def Layout.choose (l : Layout) (name : String) : Except CommandError Field :=
  if name.isEmpty then
    match l.fields with
    | f :: _ => .ok f
    | [] => .error .noStateFields
  else match l.field? name with
    | some f => .ok f
    | none => .error (.noStateField name)

/-- The error of an image as an error of a command. -/
def ImageError.toCommandError : ImageError → CommandError
  | .unreadable e => .file e
  | .unknownFormat => .unknownImage

/-- The first generation of a simulation. -/
def seedBoard (s : Simulation) (f : Field) : Task m Board := do
  let blank := Board.blank s.width.toNat s.height.toNat
  if s.seedImage.isEmpty then return blank.seedRandomly f s.density s.seed
  else
    let image ← orFail (← h.readImage s.seedImage) fun e => e.toCommandError.toError
    return blank.seedFrom f image

/-- Prints the number of a generation and how many of its cells are not zero in a field. -/
def printGeneration (f : Field) (n : Nat) (b : Board) : Task m Unit :=
  printText h s!"generation {n}: {b.count f}\n"

/-- Computes `left` more generations after number `n` and prints a line about each of them. -/
def runGenerations (machine : Machine) (f : Field) : Nat → Nat → Board → Task m Board
  | 0, _, b => pure b
  | left + 1, n, b => do
    let next ← orFail (machine.step b) id
    printGeneration h f (n + 1) next
    runGenerations machine f left (n + 1) next

/-- Simulates a rule and shows the last generation. -/
def runSimulation (c : Compiled) (s : Simulation) : Task m Unit := do
  let f ← orFail (c.layout.choose s.field) CommandError.toError
  let start ← seedBoard h s f
  printGeneration h f 0 start
  let last ← runGenerations h c.machine f s.steps.toNat 0 start
  printText h (last.drawing f)
  if !s.picture.isEmpty then
    orFail (← h.writeImage s.picture (last.image f)) fun e => (CommandError.file e).toError

/-- Shows the presets, or one of them as a configuration. -/
def runRules (name : Option String) : Task m Unit :=
  match name with
  | none => printText h presetReport
  | some name =>
    match presets.lookup name with
    | none => throw (configError "preset" (.unlistedPreset name presetNames))
    | some r => do
      let c ← orFail r.expand .config
      let text ← orFail c.document id
      printText h text

/-- Says which commands there are. -/
def usageText : String :=
  "Usage: " ++ programName ++ " COMMAND [FLAGS] [ARGUMENTS]\n\nCommands:\n"
    ++ String.join (Command.all.map fun c => "  " ++ c.name ++ "\n")

/-- Runs a command with its settings and arguments. -/
def runCommand (command : Command) (settings : Command.Settings) (args : List String) :
    Task m Unit := do
  let path := args.headD ""
  let compiled := compileFile h (settings.switch Command.verboseFlag.name) path
  match command with
  | .compile => runCompile h (← compiled) (settings.text "out") (settings.text "weights")
  | .check => printText h (← compiled).summary
  | .layout => printText h (← compiled).layoutReport
  | .kernels => printText h (← compiled).kernelReport
  | .simulate =>
    let s := Simulation.ofSettings settings
    orFail s.validate CommandError.toError
    runSimulation h (← compiled) s
  | .rules => runRules h args.head?
  | .help | .completion => printText h usageText

/-- Runs a whole call. -/
def runProgram (args : List String) : Task m Unit := do
  match ← orFail (Invocation.ofArguments args) fun e => (CommandError.usage e).toError with
  | .help _ => printText h usageText
  | .run command settings rest => runCommand h command settings rest

end

end Cellular
