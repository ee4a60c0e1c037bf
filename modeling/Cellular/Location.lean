/-!
# Locations of files

Names of files, worked out from their text alone.  Parts are divided by slashes, and a location that
starts with a slash is absolute.

* `Location.clean` is the shortest name of the same file.
* `Location.join`, `Location.parent` and `Location.resolve` put locations together and take them
  apart; their results are clean.

Nothing here looks at a file, so a location may name a file that does not exist.  A step up at the
front of a relative location stays, since nothing is known about what it leads out of; a step up
from the root of all files leads nowhere.
-/

namespace Cellular.Location

/-- Whether a location does not depend on a directory. -/
def isAbsolute (p : String) : Bool := p.toList.head? = some '/'

/-- Walks along the parts of a location; `up` is the way so far, its last part first.  A step up
takes the last part back, is kept at the start of a relative location, and is lost at the root. -/
def walk (rooted : Bool) (up : List String) : List String → List String
  | [] => up.reverse
  | part :: more =>
    if part = "" || part = "." then walk rooted up more
    else if part = ".." then
      match up with
      | last :: rest =>
        if last = ".." then walk rooted (part :: up) more else walk rooted rest more
      | [] => if rooted then walk rooted up more else walk rooted [part] more
    else walk rooted (part :: up) more

/-- The parts of a location between its slashes. -/
def parts (p : String) : List String := (p.toList.splitOn '/').map String.ofList

/-- The shortest name of the same file. -/
def clean (p : String) : String :=
  let rooted := isAbsolute p
  let body := "/".intercalate (walk rooted [] (parts p))
  if rooted then "/" ++ body else if body.isEmpty then "." else body

/-- One location behind the other; an empty one is left out. -/
def join (a b : String) : String :=
  match a.isEmpty, b.isEmpty with
  | true, true => ""
  | true, false => clean b
  | false, true => clean a
  | false, false => clean (a ++ "/" ++ b)

/-- The directory of a file. -/
def parent (p : String) : String :=
  clean (String.ofList (p.toList.reverse.dropWhile (· ≠ '/')).reverse)

/-- The location `p` seen from the directory `base`; without one it is seen from here. -/
def resolve (base p : String) : String :=
  if isAbsolute p || base.isEmpty then clean p else join base p

/-- The location `p` seen from the working directory `here`, and its directory. -/
def info (here p : String) : String × String :=
  let full := if isAbsolute p then clean p else join here p
  (full, parent full)

end Cellular.Location
