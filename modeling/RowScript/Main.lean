import RowScript.Session

/-!
# The program

Reads what a run depends on, and writes what the run results in.
-/

namespace RowScript.Main

open Session (FileError)

def fileError : IO.Error → FileError
  | .noFileOrDirectory .. => .notFound
  | .permissionDenied .. => .denied
  | .inappropriateType _ code _ => if code = 21 then .isDirectory else .notDirectory
  | e => .other (toString e)

def readText (path : String) : BaseIO (Except FileError String) := do
  match ← (IO.FS.readBinFile path).toBaseIO with
  | .error e => pure (.error (fileError e))
  | .ok bytes =>
    match String.fromUTF8? bytes with
    | some text => pure (.ok text)
    | none => pure (.error .notText)

def readVariables (names : List String) : BaseIO Environment :=
  names.filterMapM fun name => do pure ((← IO.getEnv name).map (name, ·))

/-- The lines of a file before the first one that is not text. -/
def leadingText (bytes : ByteArray) : String := Id.run do
  let mut text := ""
  let mut line := ByteArray.empty
  for b in bytes do
    line := line.push b
    if b = 10 then
      match String.fromUTF8? line with
      | some s => text := text ++ s
      | none => return text
      line := .empty
  return text ++ (String.fromUTF8? line).getD ""

/-- The environment file of the working directory, or of the nearest directory around it that has
one. -/
def environmentFile : BaseIO (Option String) := do
  let depth :=
    match ← IO.currentDir.toBaseIO with
    | .ok directory => (Path.parts directory.toString).length
    | .error _ => 0
  for up in List.range (depth + 1) do
    match ← (IO.FS.readBinFile (String.join (List.replicate up "../") ++ ".env")).toBaseIO with
    | .ok bytes => return some (leadingText bytes)
    | .error e =>
      if fileError e ≠ .notFound ∧ fileError e ≠ .isDirectory then
        return none
  return none

/-- The log file of a directory; an empty path is that of the working directory. -/
def logFile (directory : String) : String :=
  if directory.isEmpty then "pushjs.log" else directory ++ "/pushjs.log"

def opensLog (directory : String) : BaseIO Bool := do
  if '\x00' ∈ directory.toList then
    return false
  discard (IO.FS.createDirAll directory).toBaseIO
  match ← (IO.FS.Handle.mk (logFile directory) .append).toBaseIO with
  | .ok _ => pure true
  | .error _ => pure false

def world (args : List String) : BaseIO Session.World := do
  let file ← environmentFile
  let names := Config.variableNames ++ (file.map Environment.words).getD []
  let paths := ((CommandLine.parse? args).map (·.paths)).getD []
  let texts ← paths.mapM fun path => do pure (path, ← readText path)
  let w : Session.World := {
    args
    environment := ← readVariables names
    read := fun path => (texts.lookup path).getD (.error .notFound)
    environmentFile := file }
  -- Which directory is asked for is known from a run in which it can be opened.
  match (Session.run w).logDirectory with
  | some directory =>
    let opens ← opensLog directory
    pure { w with opensLog := fun _ => opens }
  | none => pure w

/-- Adds lines to the log file of a directory. -/
def writeLog (directory : String) (lines : List String) : IO Unit := do
  let file ← IO.FS.Handle.mk (logFile directory) .append
  for line in lines do
    file.putStrLn line

end RowScript.Main

def main (args : List String) : IO UInt32 := do
  let o := RowScript.Session.run (← RowScript.Main.world args)
  let lines := o.records.map (·.line)
  if let some directory := o.logDirectory then
    RowScript.Main.writeLog directory lines
  if o.logsToStderr then
    for line in lines do
      IO.eprintln line
  IO.print o.stdout
  if let some failure := o.failure then
    IO.eprintln failure.message
  pure o.status.toUInt32
