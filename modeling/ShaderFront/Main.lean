import ShaderFront.Command.Run

/-!
# The program

The command in the system that it is started in. Only reading and writing happens here.
-/

namespace ShaderFront.Main

/-- What the system says about an error. -/
def details : IO.Error → String
  | .alreadyExists _ _ d | .otherError _ d | .resourceBusy _ d | .resourceVanished _ d
  | .unsupportedOperation _ d | .hardwareFault _ d | .unsatisfiedConstraints _ d
  | .illegalOperation _ d | .protocolError _ d | .timeExpired _ d | .interrupted _ _ d
  | .noFileOrDirectory _ _ d | .invalidArgument _ _ d | .permissionDenied _ _ d
  | .resourceExhausted _ _ d | .inappropriateType _ _ d | .noSuchThing _ _ d | .userError d => d
  | .unexpectedEof => "unexpected end"

/-- An error in words, which start with a small letter unless they start with an
abbreviation. -/
def reason (e : IO.Error) : String :=
  match (details e).toList with
  | a :: b :: rest => String.ofList (if b.isLower then a.toLower :: b :: rest else a :: b :: rest)
  | short => String.ofList short

/-- Do something to a file; if that fails, say what was done to which file and why it failed. -/
def attempt {α : Type} (action : String) (name : Bytes) (x : IO α) : IO (Except Bytes α) := do
  try
    return .ok (← x)
  catch e =>
    return .error (utf8 action ++ utf8 " " ++ name ++ utf8 ": " ++ utf8 (reason e))

/-- The reason if something has failed. -/
def failure? {α : Type} : Except Bytes α → Option Bytes
  | .ok _ => none
  | .error reason => some reason

/-- The string of a path that was given as an argument. -/
def pathString (path : Bytes) : String :=
  (toString? path).getD ""

/-- The content of an input file. -/
def readInput (path : Bytes) : IO (Except Bytes Bytes) := do
  match ← attempt "open" path (IO.FS.Handle.mk (pathString path) .read) with
  | .error reason => return .error reason
  | .ok file => attempt "read" path do return (← file.readBinToEnd).toList

/-- Write the output file; the reason if that fails. -/
def writeOutput (path text : Bytes) : IO (Option Bytes) := do
  match ← attempt "open" path (IO.FS.Handle.mk (pathString path) .write) with
  | .error reason => return some reason
  | .ok file =>
    return failure? (← attempt "write" path do
      file.write ⟨text.toArray⟩
      file.flush)

/-- Print a text; the reason if that fails. -/
def printTo (stream : IO.FS.Stream) (name : String) (text : Bytes) : IO (Option Bytes) := do
  return failure? (← attempt "write" (utf8 name) do
    stream.write ⟨text.toArray⟩
    stream.flush)

/-- The system that the program is started in. -/
def system (out err : IO.FS.Stream) : System IO where
  read := readInput
  write := writeOutput
  print := printTo out "/dev/stdout"
  report text := do let _ ← printTo err "/dev/stderr" text
  now := return none

end ShaderFront.Main

/-- The program. -/
def main (arguments : List String) : IO UInt32 := do
  let system := ShaderFront.Main.system (← IO.getStdout) (← IO.getStderr)
  return (← system.run (arguments.map ShaderFront.utf8)).toUInt32
