import Cellular.Command.Inspect
import Cellular.Image.Graymap
import Cellular.Image.Png

/-!
# The program

Runs commands on the files of the computer.  Boards are drawn as PNG images; seed images are plain
graymaps.
-/

namespace Cellular

/-- Why a file could not be used, as commands report it. -/
def fileError (path : String) : IO.Error → FileError
  | .noFileOrDirectory .. => .missing path
  | .permissionDenied .. => ⟨"open", path, "permission denied"⟩
  | .inappropriateType .. => ⟨"read", path, "is a directory"⟩
  | e => ⟨"open", path, e.toString⟩

/-- Uses a file, and reports what goes wrong as a value. -/
def usingFile {β : Type} (path : String) (use : IO β) : IO (Except FileError β) := do
  try
    return .ok (← use)
  catch e =>
    return .error (fileError path e)

/-- Reads a seed image. -/
def readGraymap (path : String) : IO (Except ImageError Image) := do
  match ← usingFile path (IO.FS.readFile path) with
  | .error e => return .error (.unreadable e)
  | .ok text =>
    match Image.ofGraymap? text with
    | some i => return .ok i
    | none => return .error .unknownFormat

/-- The computer as a host. -/
def computer : Host IO where
  directory := return (← IO.currentDir).toString
  readText path := usingFile path (IO.FS.readFile path)
  writeText path text := usingFile path (IO.FS.writeFile path text)
  readImage := readGraymap
  writeImage path image := usingFile path (IO.FS.writeBinFile path image.png)
  out text := do (← IO.getStdout).putStr text
  log text := do (← IO.getStderr).putStr text

/-- Inspects a rule; the result is the exit code. -/
def inspectMain (args : List String) : IO UInt32 :=
  return if ← runInspection computer args then 0 else 1

end Cellular

open Cellular in
/-- Runs a call; the result is the exit code. -/
def main (args : List String) : IO UInt32 := do
  match ← (runProgram computer args).run with
  | .ok () => return 0
  | .error e =>
    (← IO.getStderr).putStr ("Error: " ++ e.message ++ "\n")
    return 1
