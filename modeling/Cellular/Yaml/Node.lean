import Cellular.Yaml.Scanner

/-!
# Documents as trees

A document is read from its tokens as a tree.  Nodes keep their lines, since faults of a
configuration are reported by line, and they keep their tags and styles, since what a scalar means
is decided later.

* `Node` is a part of a document: a scalar, a sequence or a mapping, with its line, or one that
  stands elsewhere.
* `Document` is a whole document, together with the nodes that have names.
* `Document.ofTokens?` reads the first document from tokens.
* `parse` reads the first document of a text.
-/

namespace Cellular.Yaml

/-- A part of a document and the line where it starts, counted from 1.  A mapping keeps its keys as
they stand there, also if one occurs twice. -/
inductive Node where
  | scalar (line : Nat) (tag : Option String) (plain : Bool) (text : String)
  | sequence (line : Nat) (tag : Option String) (items : List Node)
  | mapping (line : Nat) (tag : Option String) (entries : List (Node × Node))
  /-- The node number `target` of those that have names, which is called `name` here.  `number` is
  the number of this reference. -/
  | reference (line : Nat) (name : String) (number target : Nat)
deriving Repr, Inhabited

namespace Node

/-- The line where a part of a document starts. -/
def line : Node → Nat
  | .scalar n .. | .sequence n .. | .mapping n .. | .reference n .. => n

/-- A scalar without text. -/
def empty (line : Nat) : Node := .scalar line none true ""

end Node

/-- A document: its tree, the nodes that have names, and the number of tokens that it was read
from. -/
structure Document where
  root : Node
  named : Array Node := #[]
  size : Nat := 0
deriving Repr, Inhabited

/-! ## Reading

The reader has one token of lookahead and never goes back.  It fails without a reason: a text that
is no document is reported as that and nothing more.
-/

/-- The state of reading a tree: the tokens to come, what tag handles stand for, the nodes that have
names, and the number of references so far.  A node that is not complete yet has an empty scalar in
its place. -/
structure Reader where
  tokens : List Token
  handles : List (String × String) := []
  names : List (String × Nat) := []
  named : Array Node := #[]
  references : Nat := 0
deriving Repr, Inhabited

/-- A step of reading a tree. -/
abbrev Reads := StateT Reader Option

namespace Reader

/-- The next token. -/
def peek : Reads Token := fun r => r.tokens.head?.map fun t => (t, r)

/-- Moves over the next token. -/
def skip : Reads Unit := modify fun r => { r with tokens := r.tokens.tail }

/-- Moves over the next token, which has to have a given mark. -/
def expect (mark : Mark) : Reads Unit := do
  let t ← peek
  if t.mark = mark then skip else failure

/-- Reads something, or gives an empty scalar where the next token has one of some marks. -/
def orEmpty (marks : List Mark) (line : Nat) (node : Reads Node) : Reads Node := do
  let t ← peek
  if t.mark ∈ marks then return .empty line else node

/-! ### Names and tags

A name may be given again, and then stands for the newer node from there on.  The place of a named
node is reserved before its parts are read, so a node can be referred to inside itself; whoever
looks at such a reference has to notice.
-/

/-- What the tags of the format itself start with. -/
def formatTags : String := "tag:yaml.org,2002:"

/-- A tag in its short form. -/
def shortTag (tag : String) : String :=
  if formatTags.isPrefixOf tag then "!!" ++ (tag.drop formatTags.length).toString else tag

/-- The tag that a handle and a suffix stand for. -/
def fullTag (handle suffix : String) : Reads String := do
  if handle.isEmpty then return suffix
  else match (← get).handles.lookup handle with
    | some meaning => if (meaning ++ suffix).isEmpty then failure else return meaning ++ suffix
    | none => failure

/-- The tag of a node.  The tag that is only a mark says nothing. -/
def nodeTag (handle suffix : String) : Reads (Option String) := do
  let full ← fullTag handle suffix
  return if full = "!" then none else some (shortTag full)

/-- Reads what stands before a node: a name and a tag, in any order, and says whether there is
anything. -/
def properties : Reads (Option String × Option String × Bool) := do
  let t ← peek
  match t.mark with
  | .anchor name =>
    skip
    let u ← peek
    match u.mark with
    | .tag handle suffix =>
      skip
      let tag ← nodeTag handle suffix
      return (some name, tag, true)
    | _ => return (some name, none, true)
  | .tag handle suffix =>
    skip
    let u ← peek
    match u.mark with
    | .anchor name =>
      skip
      let tag ← nodeTag handle suffix
      return (some name, tag, true)
    | _ =>
      let tag ← nodeTag handle suffix
      return (none, tag, true)
  | _ => return (none, none, false)

/-- Gives a name to the node that is read next, if it has one. -/
def reserve (anchor : Option String) : Reads (Option Nat) := do
  match anchor with
  | none => return none
  | some name =>
    let r ← get
    set { r with names := (name, r.named.size) :: r.names, named := r.named.push (.empty 0) }
    return some r.named.size

/-- Puts a node that is complete in its place. -/
def complete (place : Option Nat) (n : Node) : Reads Node := do
  match place with
  | none => return n
  | some i =>
    modify fun r => { r with named := r.named.setIfInBounds i n }
    return n

/-- A node that stands elsewhere. -/
def refer (line : Nat) (name : String) : Reads Node := do
  let r ← get
  match r.names.lookup name with
  | none => failure
  | some target =>
    set { r with references := r.references + 1 }
    return .reference line name r.references target

/-! ### Nodes

The functions follow the grammar of documents, one for each form of a node and one for each form of
its parts.  A node may be missing in most places and is then an empty scalar.  All functions call
each other with less fuel.
-/

mutual

/-- Reads one node.  `block` says whether a block may stand here, `bare` whether the entries of a
sequence may stand here without a block around them. -/
def node (fuel : Nat) (block bare : Bool) : Reads Node :=
  match fuel with
  | 0 => failure
  | fuel + 1 => do
    let first ← peek
    match first.mark with
    | .reference name =>
      skip
      refer first.line name
    | _ =>
      let (anchor, tag, any) ← properties
      let t ← peek
      let place ← reserve anchor
      match t.mark with
      | .entry =>
        if bare then
          let items ← bareItems fuel
          complete place (.sequence first.line tag items)
        else if any then complete place (.scalar first.line tag true "")
        else failure
      | .scalar plain text =>
        skip
        complete place (.scalar first.line tag plain text)
      | .bracketOpen =>
        skip
        let items ← bracketItems fuel true
        complete place (.sequence first.line tag items)
      | .braceOpen =>
        skip
        let entries ← braceEntries fuel true
        complete place (.mapping first.line tag entries)
      | .sequenceStart =>
        if block then
          skip
          let items ← blockItems fuel
          complete place (.sequence first.line tag items)
        else if any then complete place (.scalar first.line tag true "")
        else failure
      | .mappingStart =>
        if block then
          skip
          let entries ← blockEntries fuel
          complete place (.mapping first.line tag entries)
        else if any then complete place (.scalar first.line tag true "")
        else failure
      | _ => if any then complete place (.scalar first.line tag true "") else failure

/-- The entries of a sequence without a block around them, up to something else. -/
def bareItems (fuel : Nat) : Reads (List Node) :=
  match fuel with
  | 0 => failure
  | fuel + 1 => do
    let t ← peek
    if t.mark = .entry then
      skip
      let item ← orEmpty [.entry, .key, .value, .blockEnd] t.line (node fuel true false)
      let items ← bareItems fuel
      return item :: items
    else return []

/-- The entries of a sequence in a block. -/
def blockItems (fuel : Nat) : Reads (List Node) :=
  match fuel with
  | 0 => failure
  | fuel + 1 => do
    let t ← peek
    if t.mark = .entry then
      skip
      let item ← orEmpty [.entry, .blockEnd] t.line (node fuel true false)
      let items ← blockItems fuel
      return item :: items
    else
      expect .blockEnd
      return []

/-- The entries of a mapping in a block. -/
def blockEntries (fuel : Nat) : Reads (List (Node × Node)) :=
  match fuel with
  | 0 => failure
  | fuel + 1 => do
    let t ← peek
    if t.mark = .key then
      skip
      let ends := [.key, .value, .blockEnd]
      let key ← orEmpty ends t.line (node fuel true true)
      let value ← entryValue fuel ends true
      let entries ← blockEntries fuel
      return (key, value) :: entries
    else
      expect .blockEnd
      return []

/-- The value of a key, which may be left out; it ends before one of some marks. -/
def entryValue (fuel : Nat) (ends : List Mark) (block : Bool) : Reads Node :=
  match fuel with
  | 0 => failure
  | fuel + 1 => do
    let t ← peek
    if t.mark = .value then
      skip
      orEmpty ends t.line (node fuel block block)
    else return .empty t.line

/-- The items of a sequence in brackets; all but the first stand behind a comma, and a comma may
stand behind the last.  An item may be a key with its value. -/
def bracketItems (fuel : Nat) (first : Bool) : Reads (List Node) :=
  match fuel with
  | 0 => failure
  | fuel + 1 => do
    let t ← peek
    if t.mark = .bracketClose then
      skip
      return []
    else
      if !first then expect .comma
      let t ← peek
      if t.mark = .bracketClose then
        skip
        return []
      else
        let item ← bracketItem fuel
        let items ← bracketItems fuel false
        return item :: items

/-- An item of a sequence in brackets.  Where a key is announced and left out, what stands in its
place is passed over. -/
def bracketItem (fuel : Nat) : Reads Node :=
  match fuel with
  | 0 => failure
  | fuel + 1 => do
    let t ← peek
    if t.mark = .key then
      skip
      let u ← peek
      let key ←
        if u.mark ∈ [.value, .comma, .bracketClose] then do
          skip
          pure (Node.empty u.line)
        else node fuel false false
      let value ← entryValue fuel [.comma, .bracketClose] false
      return .mapping t.line none [(key, value)]
    else node fuel false false

/-- The entries of a mapping in braces, divided like the items of a sequence in brackets. -/
def braceEntries (fuel : Nat) (first : Bool) : Reads (List (Node × Node)) :=
  match fuel with
  | 0 => failure
  | fuel + 1 => do
    let t ← peek
    if t.mark = .braceClose then
      skip
      return []
    else
      if !first then expect .comma
      let t ← peek
      if t.mark = .braceClose then
        skip
        return []
      else
        let entry ← braceEntry fuel
        let entries ← braceEntries fuel false
        return entry :: entries

/-- An entry of a mapping in braces; a node without a mark before it is a key without a value. -/
def braceEntry (fuel : Nat) : Reads (Node × Node) :=
  match fuel with
  | 0 => failure
  | fuel + 1 => do
    let t ← peek
    if t.mark = .key then
      skip
      let u ← peek
      let key ← orEmpty [.value, .comma, .braceClose] u.line (node fuel false false)
      let value ← entryValue fuel [.comma, .braceClose] false
      return (key, value)
    else
      let key ← node fuel false false
      let u ← peek
      return (key, .empty u.line)

end

/-! ### Documents

Only the first document of a text is read.  What stands behind it does not matter, as long as there
is a token.
-/

/-- Handles that stand for something in every document. -/
def commonHandles : List (String × String) := [("!", "!"), ("!!", formatTags)]

/-- Reads the directives before a document: at most one version, which has to be 1.1, and handles,
each of them at most once. -/
def directives : Nat → Bool → Reads Unit
  | 0, _ => failure
  | fuel + 1, versioned => do
    let t ← peek
    match t.mark with
    | .version major minor =>
      if versioned || major ≠ 1 || minor ≠ 1 then failure
      else
        skip
        directives fuel true
    | .handle name meaning =>
      let r ← get
      if (r.handles.lookup name).isSome then failure
      else
        set { r with handles := (name, meaning) :: r.handles }
        skip
        directives fuel versioned
    | _ => modify fun r => { r with handles := r.handles ++ commonHandles }

/-- Whether a token is a directive. -/
def isDirective : Mark → Bool
  | .version .. | .handle .. => true
  | _ => false

/-- The tree of a document.  Behind directives a document has to be announced, and one that is
announced may be empty. -/
def root (fuel : Nat) : Reads Node := do
  let first ← peek
  directives fuel false
  let t ← peek
  if t.mark = .documentStart then
    skip
    let u ← peek
    if isDirective u.mark || u.mark ∈ [.documentStart, .documentEnd, .textEnd] then
      return .empty u.line
    else node fuel true false
  else if isDirective first.mark then failure
  else node fuel true false

/-- Reads the first document; without a document there is nothing.  Behind a document there is
something: at least the end of the text. -/
def document (fuel : Nat) : Reads (Option Node) := do
  expect .textStart
  let t ← peek
  if t.mark = .textEnd then return none
  else
    let n ← root fuel
    let _ ← peek
    return some n

end Reader

/-- Reads the first document of a list of tokens; without a document there is nothing. -/
def Document.ofTokens? (tokens : List Token) : Parsed (Option Document) :=
  match (Reader.document (4 * tokens.length + 4)).run { tokens } with
  | none => none
  | some (root, r) => some (root.map fun n => ⟨n, r.named, tokens.length⟩)

/-- Reads the first document of a text. -/
def parse (text : String) : Parsed (Option Document) := Document.ofTokens? (scan text.toList)

end Cellular.Yaml
