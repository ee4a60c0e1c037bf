import Cellular.Error
import Cellular.Text.Base64
import Cellular.Yaml.Meaning
import Cellular.Yaml.Node

/-!
# Decoding values from documents

The parts of a document become values one after the other.  Parts that do not fit are noted and left
out, and reading goes on, so that all of them are reported together.  Some faults end the reading at
once.

* `Decoding` is a step of reading; `Progress` is what it keeps.
* `visit` looks at a node, or at the node that it stands for.
* `Decoding.text`, `Decoding.int`, `Decoding.float` and `Decoding.list` read values.
* `Shape` says how the entries of a mapping become a record, and `Shape.read` reads it.
-/

namespace Cellular

open Yaml (Document Node Meaning)

/-- What reading keeps: the document, the references that are being followed, how many nodes were
looked at, also through references, and what did not fit. -/
structure Progress where
  document : Document
  entered : List Nat := []
  visits : Nat := 0
  referred : Nat := 0
  faults : List Mismatch := []
deriving Inhabited

/-- A step of reading a document. -/
abbrev Decoding := StateT Progress (Except Error)

namespace Decoding

/-- Ends the reading: the document means nothing. -/
def stop {β : Type} : Decoding β := throw .notADocument

/-- Notes parts that do not fit. -/
def note (faults : List Mismatch) : Decoding Unit :=
  modify fun p => { p with faults := p.faults ++ faults }

/-- Counts a visit.  A document of more than 1000 nodes may not come almost wholly from
references. -/
def count : Decoding Unit := do
  let p ← get
  let visits := p.visits + 1
  let referred := if p.entered.isEmpty then p.referred else p.referred + 1
  if 100 < referred && 1000 < visits && 99 * visits < 100 * referred then stop
  else set { p with visits, referred }

/-- Looks at a node, or at the node that it stands for.  A node may not stand for one that it is a
part of. -/
def visit {β : Type} (n : Node) (look : Node → Decoding β) : Decoding β := do
  count
  match n with
  | .reference _ _ number target =>
    let p ← get
    match p.document.named[target]? with
    | none => stop
    | some m =>
      if number ∈ p.entered then stop
      else
        set { p with entered := number :: p.entered }
        count
        let r ← look m
        modify fun q => { q with entered := p.entered }
        return r
  | _ => look n

end Decoding

open Decoding (stop note visit)

/-! ## Faults

A fault has the line of its node and says what was wanted there.  Several faults may come from one
node, as a mapping may repeat several keys.
-/

/-- Whether two keys of a mapping are the same. -/
def sameKey : Node → Node → Bool
  | .scalar _ _ _ s, .scalar _ _ _ t => s = t
  | .sequence .., .sequence .. => true
  | .mapping .., .mapping .. => true
  | .reference _ s .., .reference _ t .. => s = t
  | _, _ => false

/-- The text of a key; of a node that stands elsewhere it is the name. -/
def keyText : Node → String
  | .scalar _ _ _ s => s
  | .reference _ s .. => s
  | _ => ""

/-- The keys of a mapping that occur again behind `key`. -/
def repeatsOf (key : Node) (entries : List (Node × Node)) : List Mismatch :=
  (entries.filter fun e => sameKey key e.1).map fun e =>
    ⟨e.1.line, .duplicateKey (keyText e.1) key.line⟩

/-- All repeated keys of a mapping. -/
def duplicateKeys : List (Node × Node) → List Mismatch
  | [] => []
  | e :: more => repeatsOf e.1 more ++ duplicateKeys more

/-- The tag of a node. -/
def nodeTag : Node → String
  | .scalar _ tag plain text => Yaml.scalarTag tag plain text
  | .sequence _ tag _ => tag.getD "!!seq"
  | .mapping _ tag _ => tag.getD "!!map"
  | .reference .. => ""

/-- The fault of a part that is not of the wanted type.  A mapping with repeated keys has these as
its faults. -/
def wrongType (wanted : String) (n : Node) : List Mismatch :=
  let tag := nodeTag n
  let text := match n with
    | .scalar _ _ _ text => text
    | _ => ""
  let fault : Mismatch :=
    if tag = "!!seq" || tag = "!!map" then ⟨n.line, .wrongType (tag ++ text) none wanted⟩
    else ⟨n.line, .wrongType tag (some text) wanted⟩
  match n with
  | .mapping _ _ entries =>
    match duplicateKeys entries with
    | [] => [fault]
    | faults => faults
  | _ => [fault]

/-- A part that is not of the wanted type has no value. -/
def misfit {β : Type} (wanted : String) (n : Node) : Decoding (Option β) := do
  note (wrongType wanted n)
  return none

/-! ## Scalars

Whether a scalar fits is decided by its meaning.  One that means nothing gives no text and no
number, and leaves what it would have set as it is.
-/

/-- The meaning of a scalar; a tag that does not fit its text ends the reading. -/
def meaning (tag : Option String) (plain : Bool) (text : String) : Decoding Meaning :=
  match Meaning.ofTagged? (Yaml.scalarTag tag plain text) text with
  | some m => pure m
  | none => stop

/-- The text of a scalar: as it is written, unless its tag says that it stands for bytes. -/
def scalarText (tag : Option String) (text : String) : Decoding String :=
  if tag = some "!!binary" then
    match Text.base64? text.toList with
    | some bytes => pure (Text.ofBytes bytes)
    | none => stop
  else pure text

/-- A text: every scalar that means something, as it is written. -/
def Decoding.text (n : Node) : Decoding (Option String) :=
  visit n fun n => match n with
    | .scalar _ tag plain text => do
      match ← meaning tag plain text with
      | .null => return none
      | _ =>
        let s ← scalarText tag text
        return some s
    | _ => misfit "string" n

/-- The integer part of a float as a word of 64 bits, unless the float is larger than all of them.
Below them stands the least word. -/
def floatWord? (x : Float) : Option Int :=
  match Number.unpack64 x with
  | .nan => none
  | .infinite negative => if negative then some (-Yaml.wordEnd) else none
  | .finite negative mantissa exponent =>
    let n := (Number.Unpacked.finite negative mantissa exponent).truncate
    if Yaml.wordEnd < n then none
    else if n = Yaml.wordEnd || n < -Yaml.wordEnd then some (-Yaml.wordEnd)
    else some n

/-- An integer, or a float cut toward zero. -/
def Decoding.int (n : Node) : Decoding (Option Int) :=
  visit n fun n => match n with
    | .scalar _ tag plain text => do
      match ← meaning tag plain text with
      | .null => return none
      | .int i => if i < Yaml.wordEnd then return some i else misfit "int" n
      | .float x =>
        match floatWord? x with
        | some i => return some i
        | none => misfit "int" n
      | _ =>
        let _ ← scalarText tag text
        misfit "int" n
    | _ => misfit "int" n

/-- A float, or an integer as the nearest float. -/
def Decoding.float (n : Node) : Decoding (Option Float) :=
  visit n fun n => match n with
    | .scalar _ tag plain text => do
      match ← meaning tag plain text with
      | .null => return none
      | .int i => return some (Yaml.floatOfInt i)
      | .float x => return some x
      | _ =>
        let _ ← scalarText tag text
        misfit "float64" n
    | _ => misfit "float64" n

/-- A scalar where a list or a record is wanted: it has no value if it means nothing, and does not
fit otherwise. -/
def readNothing {β : Type} (wanted : String) (ifNull : Option β) (n : Node) :
    Decoding (Option β) :=
  match n with
  | .scalar _ tag plain text => do
    match ← meaning tag plain text with
    | .null => return ifNull
    | _ =>
      let _ ← scalarText tag text
      misfit wanted n
  | _ => misfit wanted n

/-! ## Lists

An item that does not fit is noted and left out, so a list with faults is shorter than its sequence.
-/

/-- A list; items without a value are left out, and nothing is the empty list. -/
def Decoding.list {β : Type} (wanted : String) (item : Node → Decoding (Option β)) (n : Node) :
    Decoding (Option (List β)) :=
  visit n fun n => match n with
    | .sequence _ _ items => do
      let values ← items.mapM item
      return some (values.filterMap fun v => v)
    | _ => readNothing wanted (some []) n

/-! ## Records

A record is filled entry by entry from a start value.  A mapping may take over the entries of
others; its own entries count before those, and the earlier of the others before the later.  The
fuel bounds how deep mappings take over from one another.
-/

/-- How the entries of a mapping become a record of type `σ`: what a key does to the record, or
nothing if there is no such key. -/
structure Shape (σ : Type) where
  owner : String
  /-- Whether keys that the record does not have are faults. -/
  strict : Bool
  set : String → Option (Node → σ → Decoding σ)

/-- A key whose value, if there is one, goes into the record. -/
def Shape.field {σ β : Type} (read : Node → Decoding (Option β)) (put : σ → β → σ) :
    Option (Node → σ → Decoding σ) :=
  some fun n r => do
    match ← read n with
    | some v => return put r v
    | none => return r

/-- Whether an entry has the key that takes over the entries of another mapping. -/
def isMerge : Node → Bool
  | .scalar _ tag plain text =>
    text = Yaml.mergeKey && Yaml.scalarTag tag plain text = Yaml.mergeTag
  | _ => false

/-- A record while it is being read. -/
structure Filling (σ : Type) where
  record : σ
  /-- The keys that were read from this mapping. -/
  done : List String := []
  /-- The keys that are passed over because they were read before, if the entries of this mapping
  are taken over by another one. -/
  taken : Option (List String) := none
  /-- What other entries are to be taken over. -/
  source : Option Node := none

namespace Shape

variable {σ : Type}

/-- Reads a value into a record. -/
def put (s : Shape σ) (f : Filling σ) (name : String) (key value : Node) : Decoding (Filling σ) := do
  match s.set name with
  | some set =>
    if name ∈ f.done then
      note [⟨key.line, .repeatedField name s.owner⟩]
      return f
    else
      let record ← set value f.record
      return { f with record, done := name :: f.done }
  | none =>
    if s.strict then note [⟨key.line, .unknownKey name s.owner⟩]
    return f

/-- Reads one entry of a mapping into a record. -/
def entry (s : Shape σ) (f : Filling σ) (key value : Node) : Decoding (Filling σ) := do
  if isMerge key then return { f with source := some value }
  else match ← Decoding.text key with
    | none => return f
    | some name =>
      match f.taken with
      | none => s.put f name key value
      | some names =>
        if name ∈ names then return f
        else s.put { f with taken := some (name :: names) } name key value

/-- The keys of a mapping that are texts.  A key that is a sequence or a mapping cannot be looked up,
which ends the reading. -/
def keyNames : List (Node × Node) → Decoding (List String)
  | [] => return []
  | (key, _) :: more => do
    let name ← visit key fun key => match key with
      | .scalar _ tag plain text => do
        match ← meaning tag plain text with
        | .text =>
          let s ← scalarText tag text
          return some s
        | _ => return none
      | _ => throw .outOfRange
    let names ← keyNames more
    return name.toList ++ names

/-- The nodes whose entries are taken over. -/
def sources : Node → Decoding (List Node)
  | .sequence _ _ items => return items
  | .scalar .. => stop
  | n => return [n]

/-- Reads the entries of a mapping into a record, and then those that it takes over from others.  A
mapping with repeated keys is not read at all. -/
def fill (s : Shape σ) : Nat → Option (List String) → List (Node × Node) → σ →
    Decoding (σ × Option (List String))
  | 0, _, _, _ => stop
  | fuel + 1, taken, entries, r =>
    match duplicateKeys entries with
    | [] => do
      let f ← entries.foldlM (fun f e => s.entry f e.1 e.2) { record := r, taken }
      match f.source with
      | none => return (f.record, f.taken)
      | some source =>
        let names ← match f.taken with
          | some names => pure names
          | none => keyNames entries
        let others ← sources source
        let (record, names) ← others.foldlM
          (fun (record, names) n => do
            let (record, taken) ← visit n fun m => match m with
              | .mapping _ _ more => s.fill fuel (some names) more record
              | _ => stop
            return (record, taken.getD names))
          (f.record, names)
        return (record, f.taken.map fun _ => names)
    | faults => do
      note faults
      return (r, taken)

/-- Reads a mapping into a record. -/
def read (s : Shape σ) (start : σ) (n : Node) : Decoding (Option σ) :=
  visit n fun n => match n with
    | .mapping _ _ entries => do
      let size := (← get).document.size + 1
      let (r, _) ← s.fill (size * size) none entries start
      return some r
    | _ => readNothing s.owner none n

end Shape

end Cellular
