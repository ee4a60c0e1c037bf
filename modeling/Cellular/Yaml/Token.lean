/-!
# Tokens of a document

A document is split into tokens before its tree is read.  Some tokens stand for no text: blocks
start and end by indentation, and keys are announced before their colon is known.

* `Mark` is a sort of token, with what it carries.
* `Token` is a token with its line.
-/

namespace Cellular.Yaml

/-- The sorts of tokens. -/
inductive Mark where
  | textStart
  | textEnd
  /-- The version of the format that a document is written in. -/
  | version (major minor : Nat)
  /-- What a tag handle stands for. -/
  | handle (name meaning : String)
  | documentStart
  | documentEnd
  | sequenceStart
  | mappingStart
  | blockEnd
  | bracketOpen
  | bracketClose
  | braceOpen
  | braceClose
  | entry
  | comma
  | key
  | value
  /-- The name of the node that follows. -/
  | anchor (name : String)
  /-- A node that stands elsewhere, by its name. -/
  | reference (name : String)
  /-- The tag of the node that follows: its handle, which may be empty, and the rest of it. -/
  | tag (handle suffix : String)
  | scalar (plain : Bool) (text : String)
deriving Repr, DecidableEq, Inhabited

/-- A token and its line, counted from 1. -/
structure Token where
  mark : Mark
  line : Nat
deriving Repr, DecidableEq, Inhabited

end Cellular.Yaml
