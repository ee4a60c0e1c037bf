import Cellular.Config.Resolve
import Cellular.Image

/-!
# Hosts

Commands read and write files and print text.  They do so through a host, so that they can run on
the files of a computer as well as on files that are only values.

* `Host` is what commands need of their surroundings.
* `Session` is a directory of files as a value, together with what was printed.
* `Session.host` runs commands on a session.

A host works in any monad.  What is proved about a command for every host holds on the files of a
computer as well as in a session, and a session is a plain value, so that a run of the program in it
is a function from sessions to sessions.  A failing write leaves a session as it was.
-/

namespace Cellular

/-- Why an image could not be used. -/
inductive ImageError where
  | unreadable (e : FileError)
  | unknownFormat
deriving Repr, DecidableEq, Inhabited

/-- What commands need of their surroundings: the working directory, files, and two channels of
output. -/
structure Host (m : Type → Type) where
  directory : m String
  readText : String → m (Except FileError String)
  writeText : String → String → m (Except FileError Unit)
  readImage : String → m (Except ImageError Image)
  writeImage : String → Image → m (Except FileError Unit)
  out : String → m Unit
  log : String → m Unit

/-- What a file holds. -/
inductive Content where
  | text (s : String)
  | image (i : Image)
deriving Repr, DecidableEq, Inhabited

/-- What a reader of texts finds in a file.  An image starts with a character that no document
has. -/
def Content.asText : Content → String
  | .text s => s
  | .image _ => String.singleton (Char.ofNat 0x89)

/-- Files in and below a working directory, by their full locations, and what was printed so far.
Directories are there if they are the working directory or hold files. -/
structure Session where
  directory : String
  files : List (String × Content) := []
  out : String := ""
  log : String := ""
deriving Repr, Inhabited

namespace Session

/-- Whether a location lies below another one. -/
def isBelow (p dir : String) : Bool := (if dir = "/" then dir else dir ++ "/").isPrefixOf p

/-- Whether a directory is at a location. -/
def hasDirectory (s : Session) (full : String) : Bool :=
  full = s.directory || isBelow s.directory full || s.files.any fun f => isBelow f.1 full

/-- One step of a walk, which has to start in a directory. -/
def enter (s : Session) (here part : String) : Except String String :=
  if s.hasDirectory here then .ok (Location.join here part)
  else if (s.files.lookup here).isSome then .error "not a directory"
  else .error "no such file or directory"

/-- Where a path leads from the working directory.  Every part but the last has to lead to a
directory, so a step up takes nothing back that was not there. -/
def locate (s : Session) (path : String) : Except String String :=
  let start := if Location.isAbsolute path then "/" else s.directory
  ((Location.parts path).filter (· ≠ "")).foldlM s.enter start

/-- Whether a path can only mean a directory. -/
def namesDirectory (path : String) : Bool := path.toList.getLast? = some '/'

/-- The file at a path, or why there is none. -/
def find (s : Session) (path : String) : Except FileError Content :=
  match s.locate path with
  | .error reason => .error ⟨"open", path, reason⟩
  | .ok full =>
    if s.hasDirectory full then .error ⟨"read", path, "is a directory"⟩
    else match s.files.lookup full with
      | none => .error (.missing path)
      | some c =>
        if namesDirectory path then .error ⟨"open", path, "not a directory"⟩ else .ok c

/-- The session with a file at a path, which needs a directory. -/
def store (s : Session) (path : String) (c : Content) : Except FileError Session :=
  match s.locate path with
  | .error reason => .error ⟨"open", path, reason⟩
  | .ok full =>
    if namesDirectory path || s.hasDirectory full then .error ⟨"open", path, "is a directory"⟩
    else .ok { s with files := (full, c) :: s.files.filter (·.1 ≠ full) }

/-- The image at a path.  A directory can be opened, but is no image. -/
def findImage (s : Session) (path : String) : Except ImageError Image :=
  match s.find path with
  | .ok (.image i) => .ok i
  | .ok (.text _) => .error .unknownFormat
  | .error e => if e.action = "read" then .error .unknownFormat else .error (.unreadable e)

/-- Stores a file, or leaves the session as it is. -/
def write (path : String) (c : Content) : StateM Session (Except FileError Unit) := do
  match (← get).store path c with
  | .ok s =>
    set s
    return .ok ()
  | .error e => return .error e

/-- Runs commands on a session. -/
def host : Host (StateM Session) where
  directory := return (← get).directory
  readText path := return ((← get).find path).map Content.asText
  writeText path text := write path (.text text)
  readImage path := return (← get).findImage path
  writeImage path image := write path (.image image)
  out text := modify fun s => { s with out := s.out ++ text }
  log text := modify fun s => { s with log := s.log ++ text }

end Session

end Cellular
