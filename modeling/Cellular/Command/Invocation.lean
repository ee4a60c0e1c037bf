import Cellular.Command.Flags

/-!
# Invocations

What the program is called with names a command, sets flags and gives arguments.

* `Command` is one of the commands; each has flags of its own and a number of arguments.
* `Command.find` finds the command among the arguments.
* `Invocation.ofArguments` reads a whole call.
-/

namespace Cellular

/-- The name of the program. -/
def programName : String := "golt"

/-- The commands of the program. -/
inductive Command where
  | compile
  | check
  | layout
  | kernels
  | simulate
  | rules
  | help
  | completion
deriving Repr, DecidableEq, Inhabited

namespace Command

/-- All commands. -/
def all : List Command :=
  [.compile, .check, .layout, .kernels, .simulate, .rules, .help, .completion]

/-- The name of a command. -/
def name : Command → String
  | .compile => "compile"
  | .check => "check"
  | .layout => "layout"
  | .kernels => "kernels"
  | .simulate => "simulate"
  | .rules => "rules"
  | .help => "help"
  | .completion => "completion"

/-- The command with a given name. -/
def ofName? (s : String) : Option Command := all.find? (·.name = s)

/-- The flag that reports the progress of a compilation. -/
def verboseFlag : Flag := { name := "verbose", letter := some 'v', kind := .switch }

/-- The flag that asks for help. -/
def helpFlag : Flag := { name := "help", letter := some 'h', kind := .switch }

/-- The flags of a command apart from those that all of them have. -/
def ownFlags : Command → List Flag
  | .compile =>
    [{ name := "out", letter := some 'o', kind := .text }, { name := "weights", kind := .text }]
  | .simulate =>
    [{ name := "width", kind := .integer },
     { name := "height", kind := .integer },
     { name := "steps", kind := .integer },
     { name := "density", kind := .float },
     { name := "seed", kind := .integer },
     { name := "seed-image", kind := .text },
     { name := "field", kind := .text },
     { name := "png", kind := .text }]
  | _ => []

/-- How many arguments a command takes. -/
inductive Arity where
  | exactly (n : Nat)
  | atMost (n : Nat)
  | any
deriving Repr, DecidableEq, Inhabited

/-- Whether a number of arguments is right. -/
def Arity.fits : Arity → Nat → Bool
  | .exactly n, k => k = n
  | .atMost n, k => k ≤ n
  | .any, _ => true

/-- What diagnostics say about a wrong number of arguments. -/
def Arity.refusal (a : Arity) (got : Nat) : String :=
  match a with
  | .exactly n => s!"accepts {n} arg(s), received {got}"
  | .atMost n => s!"accepts at most {n} arg(s), received {got}"
  | .any => ""

/-- The number of arguments of a command. -/
def arity : Command → Arity
  | .compile | .check | .layout | .kernels | .simulate => .exactly 1
  | .rules => .atMost 1
  | .help | .completion => .any

/-! ## Finding the command

The command may stand behind flags, so it has to be found before its own flags are known.  Until
then only the flags that all commands share are, and any other flag without an equals sign is taken
to have a value.
-/

/-- Whether a text starts with a dash. -/
def isDashed (s : String) : Bool := s.toList.head? = some '-'

/-- Whether an argument is a flag whose value is the next argument, as far as the flags known before
the command tell: of these only a switch has no value. -/
def takesNext (known : List Flag) (s : String) : Bool :=
  let isSwitch (f : Option Flag) : Bool := f.any (·.kind = .switch)
  let cs := s.toList
  if cs.contains '=' then false
  else match cs with
    | '-' :: '-' :: nameChars => !isSwitch (flagNamed? known (String.ofList nameChars))
    | ['-', c] => c.utf8Size = 1 && !isSwitch (flagLettered? known c)
    | _ => false

/-- The arguments that are neither flags nor values of flags.  `skip` says whether the next one is
the value of a flag; the last of all arguments is never looked at as one. -/
def bareWords (known : List Flag) : Bool → List String → List String
  | _, [] => []
  | true, _ :: rest => bareWords known false rest
  | false, s :: rest =>
    if s = "--" then []
    else if takesNext known s then if rest.length ≤ 1 then [] else bareWords known true rest
    else if s ≠ "" && !isDashed s then s :: bareWords known false rest
    else bareWords known false rest

/-- The arguments without the first one that is the word `w` and no value of a flag. -/
def dropWord (known : List Flag) (w : String) : Bool → List String → List String
  | _, [] => []
  | true, s :: rest => s :: dropWord known w false rest
  | false, s :: rest =>
    if s = "--" then s :: rest
    else if takesNext known s then s :: dropWord known w true rest
    else if s = w then rest
    else s :: dropWord known w false rest

/-! ## Suggestions

A word that is no command may be a slip of the hand.  It is put into small letters and compared with
the names of the commands byte by byte.
-/

/-- One row of the table of edit distances: from the row `up` of a shorter text, for one more
character `c`.  `left` is the distance before the first of the characters `t`, and `corner` the one
above it. -/
def editRow (c : UInt8) (left corner : Nat) : List UInt8 → List Nat → List Nat
  | d :: t, above :: up =>
    let here := if c = d then corner else 1 + min corner (min left above)
    here :: editRow c here above t up
  | _, _ => []

/-- The number of single changes that lead from one text to the other. -/
def editDistance (s t : List UInt8) : Nat :=
  let start := (List.range t.length).map (· + 1)
  let rows := s.foldl
    (fun (state : Nat × List Nat) c => (state.1 + 1, editRow c (state.1 + 1) state.1 t state.2))
    (0, start)
  rows.2.getLastD rows.1

/-- The commands whose names start like a word, or differ from it in at most two places. -/
def suggestions (word : String) : List String :=
  let typed := word.toLower
  let near (name : String) : Bool :=
    editDistance typed.toUTF8.toList name.toUTF8.toList ≤ 2 || typed.isPrefixOf name
  ((all.filter (· ≠ .help)).map name).filter near

end Command

/-! ## Calls

Whether help is asked for is looked at before the number of arguments, so a call for help is not
refused because of that number.
-/

/-- Why a call is refused. -/
inductive UsageError where
  | unknownCommand (word : String)
  | flag (e : Command.FlagError)
  | arguments (wanted : Command.Arity) (got : Nat)
deriving Repr, Inhabited

/-- The wording of an error. -/
def UsageError.message : UsageError → String
  | .unknownCommand word =>
    let names := Command.suggestions word
    let hint :=
      if names.isEmpty then ""
      else "\n\nDid you mean this?\n" ++ String.join (names.map fun n => "\t" ++ n ++ "\n")
    "unknown command " ++ Text.quote word ++ " for " ++ Text.quote programName ++ hint
  | .flag e => e.message
  | .arguments wanted got => wanted.refusal got

/-- A call of the program.  Without a command, or with a flag that asks for it, the call is for
help. -/
inductive Invocation where
  | help (command : Option Command)
  | run (command : Command) (settings : Command.Settings) (args : List String)
deriving Repr, Inhabited

namespace Invocation

open Command

/-- Reads the flags of a call and checks the number of its arguments. -/
def ofCommand (command : Command) (args : List String) : Except UsageError Invocation := do
  let (settings, rest) ←
    (parseFlags (command.ownFlags ++ [verboseFlag, helpFlag]) args).mapError .flag
  if settings.switch helpFlag.name then return .help (some command)
  else if command.arity.fits rest.length then return .run command settings rest
  else .error (.arguments command.arity rest.length)

/-- Reads a call. -/
def ofArguments (args : List String) : Except UsageError Invocation :=
  match bareWords [verboseFlag] false args with
  | [] => do
    let _ ← (parseFlags [verboseFlag, helpFlag] args).mapError .flag
    return .help none
  | word :: _ =>
    match Command.ofName? word with
    | some command => ofCommand command (dropWord [verboseFlag] word false args)
    | none => .error (.unknownCommand word)

end Invocation

end Cellular
