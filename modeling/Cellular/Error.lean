import Cellular.Rule.Typing
import Cellular.Source.Token

/-!
# Errors

Everything that can go wrong with a rule, as causes.  The wording of each cause stands in one
function.

* `ConfigError` is a fault of a configuration, at a path inside it.
* `InternalError` is a rule that passed its checks and still has no shader code or no value.
* `Mismatch` is one place where a document does not fit the shape that is wanted of it.
* `Error` is any of these, or one of a rule text, perhaps inside a named part.

Causes are data and not texts, so that statements can speak of a cause and its place without
speaking of its wording.  The path of a configuration error names the part at fault from the outside
in, with numbers for the items of lists.  An internal error is what is left when all checks have
passed.  A checked rule has one in a single case: it uses a whole cell as a value.  That there is no
other case is proved, and nothing here depends on it.
-/

namespace Cellular

/-- Why a configuration is refused. -/
inductive ConfigCause where
  | fieldName (name : String)
  | duplicateField (name : String)
  | fieldLength (name : String) (length : Int)
  | fieldKind (kind : String)
  | tooWide (bits allowed : Nat)
  | fieldType (type : String)
  | flagLength (name : String)
  | kernelName (name : String)
  | reservedKernel (name : String)
  | duplicateKernel (name : String)
  | emptyMatrix
  | raggedMatrix
  | evenMatrix (height width : Nat)
  | countType (type : String)
  | overflow (policy : String)
  | valueType (got : Ty)
  | emptyDocument
  | severalPrograms
  | unreadable (reason : String)
  | unknownPreset (name available : String)
  | unlistedPreset (name available : String)
  | ownState
  | neighbourTotal (total : Int)
  | deathAge (age : Int) (most : Nat)
  | starvationDelay (delay : Int) (most : Nat)
  /-- A message of the caller's own. -/
  | other (text : String)
deriving Repr, Inhabited

/-- The wording of a cause. -/
def ConfigCause.message : ConfigCause → String
  | .fieldName name => "invalid field name " ++ Text.quote name
  | .duplicateField name => "duplicate field name " ++ Text.quote name
  | .fieldLength name length =>
    "number field " ++ name ++ " must have a positive length, got " ++ toString length
  | .fieldKind kind => "unknown field kind " ++ kind
  | .tooWide bits allowed =>
    s!"declared state variables take up too much space: {bits} bits used but only {allowed} allowed"
      ++ s!" ({bits - allowed} over)"
  | .fieldType type => "unknown field type " ++ Text.quote type ++ ", expected flag or number"
  | .flagLength name => "flag " ++ name ++ " can not have a length"
  | .kernelName name => "invalid neighbour count name " ++ Text.quote name
  | .reservedKernel name => "neighbour count name " ++ Text.quote name ++ " is reserved"
  | .duplicateKernel name => "duplicate neighbour count name " ++ Text.quote name
  | .emptyMatrix => "neighbour count matrix must not be empty"
  | .raggedMatrix =>
    "neighbour count matrix must be MxN with odd M and N: rows have different lengths"
  | .evenMatrix height width =>
    s!"neighbour count matrix must be MxN with odd M and N, got {height}x{width}"
  | .countType type =>
    "unknown neighbour count type " ++ Text.quote type ++ ", expected int or float"
  | .overflow policy =>
    "unknown overflow policy " ++ Text.quote policy ++ ", expected wrap, border or zero"
  | .valueType got => "value function must be Int, Float or Boolean, got " ++ got.text
  | .emptyDocument => "empty configuration"
  | .severalPrograms => "program, program_file, ruleset and preset are mutually exclusive"
  | .unreadable reason => reason
  | .unknownPreset name available =>
    "unknown preset " ++ Text.quote name ++ " (available: " ++ available ++ ")"
  | .unlistedPreset name available =>
    "unknown preset " ++ Text.quote name ++ ", expected one of " ++ available
  | .ownState => "a ruleset defines its own state and neighbourCounts"
  | .neighbourTotal total => s!"neighbour total {total} out of range 0..8"
  | .deathAge age most => s!"natural death age {age} out of range 0..{most}"
  | .starvationDelay delay most => s!"starvation delay {delay} out of range 0..{most}"
  | .other text => text

/-- A fault of a configuration and the path of the part that has it. -/
structure ConfigError where
  path : String
  cause : ConfigCause
deriving Repr, Inhabited

/-- The full message. -/
def ConfigError.message (e : ConfigError) : String :=
  if e.path.isEmpty then "configuration error: " ++ e.cause.message
  else "configuration error: " ++ e.path ++ ": " ++ e.cause.message

/-- Why a checked rule has no shader code or no value. -/
inductive InternalCause where
  | structValue (path : Path)
  | unchecked (name : String)
  | noAccess (path : Path)
  | noAssignment (path : Path)
  | noBinding (name : String)
  | noField (name : String)
  | noValue (expression : String)
  | noUpdate (symbol : String) (kind : Kind)
  | noTarget (path : Path)
  /-- A message of the caller's own. -/
  | other (text : String)
deriving Repr, Inhabited

/-- The wording of a cause. -/
def InternalCause.message : InternalCause → String
  | .structValue path => "struct value " ++ path.text ++ " can not be used as an expression"
  | .unchecked name => name ++ " has no binding; was the program checked?"
  | .noAccess path => "no translation for access to " ++ path.text
  | .noAssignment path => "no translation for assignment to " ++ path.text
  | .noBinding name => name ++ " has no binding"
  | .noField name => "unknown state field " ++ name
  | .noValue expression => "can not evaluate " ++ expression
  | .noUpdate symbol kind => "can not evaluate " ++ symbol ++ " on " ++ kind.name
  | .noTarget path => "can not assign to " ++ path.text
  | .other text => text

/-- A rule that passed its checks and still has no shader code or no value. -/
structure InternalError where
  pos : Position
  cause : InternalCause
deriving Repr, Inhabited

/-- The full message. -/
def InternalError.message (e : InternalError) : String :=
  "internal compiler error at " ++ e.pos.text ++ ": " ++ e.cause.message

/-- Why a part of a document does not fit. -/
inductive MismatchCause where
  /-- A value of one sort where another type is wanted; scalars are shown. -/
  | wrongType (tag : String) (value : Option String) (wanted : String)
  | unknownKey (key owner : String)
  | duplicateKey (key : String) (first : Nat)
  | repeatedField (key owner : String)
deriving Repr, DecidableEq, Inhabited

/-- The first `n` bytes of a text.  A character that does not fit leaves a replacement character for
each of its bytes that does. -/
def firstBytes : Nat → List Char → List Char
  | _, [] => []
  | n, c :: cs =>
    if c.utf8Size ≤ n then c :: firstBytes (n - c.utf8Size) cs
    else List.replicate n (Char.ofNat 0xfffd)

/-- A scalar of at most ten bytes as it is; of a longer one the first seven bytes and dots. -/
def shownScalar (s : String) : String :=
  if s.utf8ByteSize > 10 then String.ofList (firstBytes 7 s.toList) ++ "..." else s

/-- The wording of a cause. -/
def MismatchCause.message : MismatchCause → String
  | .wrongType tag none wanted => "cannot unmarshal " ++ tag ++ " into " ++ wanted
  | .wrongType tag (some value) wanted =>
    "cannot unmarshal " ++ tag ++ " `" ++ shownScalar value ++ "` into " ++ wanted
  | .unknownKey key owner => "field " ++ key ++ " not found in type " ++ owner
  | .duplicateKey key first =>
    "mapping key " ++ Text.quote key ++ " already defined at line " ++ toString first
  | .repeatedField key owner => "field " ++ key ++ " already set in type " ++ owner

/-- One place where a document does not fit the shape that is wanted of it. -/
structure Mismatch where
  line : Nat
  cause : MismatchCause
deriving Repr, DecidableEq, Inhabited

/-- One line of the message about a document that does not fit. -/
def Mismatch.message (m : Mismatch) : String :=
  "line " ++ toString m.line ++ ": " ++ m.cause.message

/-- Everything that can go wrong with a rule. -/
inductive Error where
  | parse (e : ParseError)
  | typing (e : TypingError)
  | config (e : ConfigError)
  | internal (e : InternalError)
  /-- A document that does not fit, with all the places. -/
  | document (places : List Mismatch)
  /-- A text that is no document. -/
  | notADocument
  /-- A number that has no quotient, a cell that is not on the board, or a key that cannot be looked
  up. -/
  | outOfRange
  | plain (text : String)
  /-- An error inside a named part. -/
  | within (part : String) (e : Error)
deriving Repr, Inhabited

/-- The full message. -/
def Error.message : Error → String
  | .parse e => e.message
  | .typing e => e.message
  | .config e => e.message
  | .internal e => e.message
  | .document places =>
    "yaml: unmarshal errors:" ++ String.join (places.map fun m => "\n  " ++ m.message)
  | .notADocument => "yaml: malformed document"
  | .outOfRange => "out of range"
  | .plain text => text
  | .within part e => part ++ ": " ++ e.message

/-- The error without the names of the parts around it. -/
def Error.innermost : Error → Error
  | .within _ e => e.innermost
  | e => e

/-- A fault of a configuration. -/
def configError (path : String) (cause : ConfigCause) : Error := .config ⟨path, cause⟩

end Cellular
