import Cellular.Config.Decode
import Cellular.Config.Ruleset
import Cellular.Location

/-!
# Configurations that are complete

A configuration gives its rule in one of four ways.  A program file, a ruleset or a preset is
replaced by what it stands for.

* `Config.resolve` makes a configuration complete.
* `Config.parse` reads a text and completes the configuration in it.

Only a program file needs a file, and it is looked for from the directory of the configuration.  A
ruleset brings its own state and kernels, so it may not stand beside others.  A complete
configuration has its rule as a program text and nothing else left to replace.
-/

namespace Cellular

/-- Why a file could not be used: what was tried, on which file, and what was wrong. -/
structure FileError where
  action : String
  path : String
  reason : String
deriving Repr, DecidableEq, Inhabited

/-- The full message. -/
def FileError.message (e : FileError) : String := e.action ++ " " ++ e.path ++ ": " ++ e.reason

/-- The error of a file that does not exist. -/
def FileError.missing (path : String) : FileError := ⟨"open", path, "no such file or directory"⟩

/-- The texts of files, as far as they can be read. -/
abbrev FileTexts := String → Except FileError String

namespace Config

/-- The number of ways in which a configuration gives its rule. -/
def sourceCount (c : Config) : Nat :=
  [!c.program.isEmpty, !c.programFile.isEmpty, c.ruleset.isSome, !c.preset.isEmpty].count true

/-- The file that holds the program, seen from the directory of the configuration. -/
def programLocation? (base : String) (c : Config) : Option String :=
  if c.programFile.isEmpty then none else some (Location.resolve base c.programFile)

/-- The configuration that a ruleset stands for, which leaves no room for another state. -/
def expandRuleset (c : Config) (r : Ruleset) : Except ConfigError Config :=
  if !c.state.isEmpty || !c.neighbourCounts.isEmpty then .error ⟨"ruleset", .ownState⟩
  else r.expand

/-- Replaces a program file, a preset or a ruleset by what it stands for. -/
def resolve (files : FileTexts) (base : String) (c : Config) : Except ConfigError Config :=
  if 1 < c.sourceCount then .error ⟨"", .severalPrograms⟩
  else match c.programLocation? base with
    | some path =>
      match files path with
      | .ok text => .ok { c with program := text, programFile := "" }
      | .error e => .error ⟨"program_file", .unreadable e.message⟩
    | none =>
      if !c.preset.isEmpty then
        match presets.lookup c.preset with
        | some r => c.expandRuleset r
        | none => .error ⟨"preset", .unknownPreset c.preset presetNames⟩
      else match c.ruleset with
        | some r => c.expandRuleset r
        | none => .ok c

/-- The configuration in a text as it is written. -/
def ofText (text : String) : Except Error Config :=
  match Yaml.parse text with
  | none => .error .notADocument
  | some none => .error (configError "" .emptyDocument)
  | some (some n) => decodeConfig n

/-- Reads a text and completes the configuration in it. -/
def parse (files : FileTexts) (base text : String) : Except Error Config := do
  let c ← ofText text
  (c.resolve files base).mapError .config

end Config

end Cellular
