import Cellular.Command.Value

/-!
# Flags

A command is called with flags and arguments in any order.  A flag has a name behind two dashes and
perhaps a letter behind one; letters may be written together.  Its value stands behind an equals
sign or is the next argument, and two dashes alone end the flags.

* `Flag` is what a command knows about a flag.
* `parseFlags` divides what a command is called with into settings and arguments.
-/

namespace Cellular.Command

/-- A flag of a command. -/
structure Flag where
  name : String
  letter : Option Char := none
  kind : FlagKind
deriving Repr, DecidableEq, Inhabited

/-- The flag as diagnostics show it. -/
def Flag.shown (f : Flag) : String :=
  match f.letter with
  | some c => String.ofList ['-', c] ++ ", --" ++ f.name
  | none => "--" ++ f.name

/-- The flag with a given name. -/
def flagNamed? (flags : List Flag) (name : String) : Option Flag := flags.find? (·.name = name)

/-- The flag with a given letter. -/
def flagLettered? (flags : List Flag) (c : Char) : Option Flag :=
  flags.find? fun f => f.letter = some c

/-! ## Errors

An error holds what was given, so that its wording can show it.  Where letters are written together,
it holds all of them from the one at fault on.
-/

/-- Why flags are refused. -/
inductive FlagError where
  | badForm (arg : String)
  | unknown (name : String)
  | unknownLetter (c : Char) (letters : String)
  | noValue (arg : String)
  | noLetterValue (c : Char) (letters : String)
  | badValue (flag : Flag) (value : String) (fault : ValueFault)
deriving Repr, Inhabited

/-- A letter in single quotes.  Letters are single bytes, so of any other character the first byte is
shown. -/
def quoteLetter (c : Char) : String :=
  let letter := Char.ofNat ((String.singleton c).toUTF8.toList.headD 0).toNat
  let body :=
    if letter = '\'' then "\\'" else if letter = '"' then "\"" else Text.quoteChar letter
  "'" ++ body ++ "'"

/-- The wording of an error. -/
def FlagError.message : FlagError → String
  | .badForm arg => "bad flag syntax: " ++ arg
  | .unknown name => "unknown flag: --" ++ name
  | .unknownLetter c letters =>
    "unknown shorthand flag: " ++ quoteLetter c ++ " in -" ++ letters
  | .noValue arg => "flag needs an argument: " ++ arg
  | .noLetterValue c letters => "flag needs an argument: " ++ quoteLetter c ++ " in -" ++ letters
  | .badValue flag value fault =>
    "invalid argument " ++ Text.quote value ++ " for " ++ Text.quote flag.shown ++ " flag: "
      ++ flag.kind.reader ++ ": parsing " ++ Text.quote value ++ ": " ++ fault.message

/-! ## Settings

A flag may be given twice, and then its last value counts.  Since the last one comes first in the
list, looking a name up finds it.
-/

/-- The flags that were given and their values, the last one first. -/
abbrev Settings := List (String × FlagValue)

namespace Settings

/-- Whether a switch is on. -/
def switch (s : Settings) (name : String) : Bool :=
  match s.lookup name with
  | some (.switch on) => on
  | _ => false

/-- The integer of a flag. -/
def integer (s : Settings) (name : String) (default : Int) : Int :=
  match s.lookup name with
  | some (.integer n) => n
  | _ => default

/-- The float of a flag. -/
def float (s : Settings) (name : String) (default : Float) : Float :=
  match s.lookup name with
  | some (.float x) => x
  | _ => default

/-- The text of a flag; a flag that was not given has none. -/
def text (s : Settings) (name : String) : String :=
  match s.lookup name with
  | some (.text t) => t
  | _ => ""

end Settings

/-- Adds the value of a flag to settings. -/
def Flag.set (f : Flag) (value : String) (s : Settings) : Except FlagError Settings :=
  match f.kind.read value with
  | .ok v => .ok ((f.name, v) :: s)
  | .error fault => .error (.badValue f value fault)

/-! ## Parsing

Arguments are read from the front.  A flag whose value may be the next argument gets to see that
argument and says whether it took it; all further state is in the settings.
-/

/-- A text up to its first equals sign, and what stands behind it. -/
def splitEquals (cs : List Char) : List Char × Option (List Char) :=
  match cs.dropWhile (· ≠ '=') with
  | [] => (cs, none)
  | _ :: value => (cs.takeWhile (· ≠ '='), some value)

/-- Reads one flag by its name.  A value that is not part of it is the `next` argument; the result
says whether that was taken. -/
def parseLong (flags : List Flag) (arg : String) (body : List Char) (next : Option String)
    (s : Settings) : Except FlagError (Settings × Bool) :=
  let (name, value) := splitEquals body
  if name.isEmpty || name.head? = some '-' then .error (.badForm arg)
  else match flagNamed? flags (String.ofList name), value, next with
    | none, _, _ => .error (.unknown (String.ofList name))
    | some f, some v, _ => (f.set (String.ofList v) s).map (·, false)
    | some f, none, next =>
      if f.kind = .switch then (f.set "true" s).map (·, false)
      else match next with
        | some v => (f.set v s).map (·, true)
        | none => .error (.noValue arg)

/-- Reads flags by their letters.  The last one may take its value from what follows its letter, or
from the `next` argument; the result says whether that was taken. -/
def parseLetters (flags : List Flag) (next : Option String) :
    List Char → Settings → Except FlagError (Settings × Bool)
  | [], s => .ok (s, false)
  | c :: cs, s =>
    let letters := String.ofList (c :: cs)
    match flagLettered? flags c with
    | none => .error (.unknownLetter c letters)
    | some f =>
      match cs with
      | '=' :: v :: more => (f.set (String.ofList (v :: more)) s).map (·, false)
      | _ =>
        if f.kind = .switch then
          match f.set "true" s with
          | .ok s => parseLetters flags next cs s
          | .error e => .error e
        else if cs.isEmpty then
          match next with
          | some v => (f.set v s).map (·, true)
          | none => .error (.noLetterValue c letters)
        else (f.set (String.ofList cs) s).map (·, false)

/-- Goes through what a command is called with.  `taken` says whether the next argument is the value
of a flag that was read already. -/
def readArguments (flags : List Flag) :
    Bool → Settings → List String → Except FlagError (Settings × List String)
  | _, s, [] => .ok (s, [])
  | true, s, _ :: rest => readArguments flags false s rest
  | false, s, arg :: rest =>
    match arg.toList with
    | ['-', '-'] => .ok (s, rest)
    | '-' :: '-' :: body => do
      let (s, taken) ← parseLong flags arg body rest.head? s
      readArguments flags taken s rest
    | '-' :: c :: letters => do
      let (s, taken) ← parseLetters flags rest.head? (c :: letters) s
      readArguments flags taken s rest
    | _ => do
      let (s, args) ← readArguments flags false s rest
      return (s, arg :: args)

/-- Divides what a command is called with into settings and arguments. -/
def parseFlags (flags : List Flag) (args : List String) :
    Except FlagError (Settings × List String) :=
  readArguments flags false [] args

end Cellular.Command
