import ShaderFront.Command.Flags
import ShaderFront.Command.Log
import ShaderFront.Front
import ShaderFront.Tree.Outline

/-!
# The command

The command reads its input files one by one and prints what they hold: their tokens,
their outlines, or both. A file that cannot be read as a program is reported, and the
others are printed all the same. The whole output goes to one place at the end.

How files are read and written and where output goes is up to the system in which the
command runs. The command is the same in every system.
-/

namespace ShaderFront

/-- The version text. -/
def versionText : Bytes :=
  utf8 "kongc version 0.1.0-dev\n"

/-! ## One input -/

/-- Something that is reported. -/
inductive Remark where
  /-- A step of the work. -/
  | progress (e : LogEntry)
  /-- Something that is wrong, in words. -/
  | complaint (text : Bytes)
  deriving DecidableEq, Repr

/-- What became of one input file. -/
structure Section where
  /-- What is printed of it. -/
  output : Bytes := []
  /-- What is reported about it. -/
  remarks : List Remark := []
  /-- Could it not be read as a program? -/
  failed : Bool := false
  deriving DecidableEq, Repr

/-- The report that a file has a fault, a line break at its end. -/
def faultReport (path : Bytes) (d : Diagnostic) : Bytes :=
  let text := d.withContext
  path ++ utf8 ": " ++ text ++ (if text.getLast? = some lineFeed then [] else [lineFeed])

namespace Settings

/-- What is printed of a program. -/
def render (s : Settings) (path : Bytes) (tokens : List Token) (program : List Stmt) : Bytes :=
  (if 1 < s.inputs.length then utf8 "== " ++ path ++ utf8 "\n" else []) ++
  (if s.tokens then listing tokens else []) ++
  (if s.showsTree then dump program else [])

/-- A report of progress, if such reports are asked for. -/
def progress (s : Settings) (e : LogEntry) : List Remark :=
  if s.verbose then [.progress e] else []

/-- Work on the content of an input file. -/
def compile (s : Settings) (path source : Bytes) : Section :=
  match scanSource source with
  | .error f => { remarks := [.complaint (faultReport path f.diagnostic)], failed := true }
  | .ok tokens =>
    let scanned := s.progress ⟨"tokenized", path, "tokens", tokens.length⟩
    match parseTokens s.options tokens with
    | .error f =>
      { remarks := scanned ++ [.complaint (faultReport path (f.diagnostic.withSource source))]
        failed := true }
    | .ok program =>
      { output := s.render path tokens program
        remarks := scanned ++ s.progress ⟨"parsed", path, "statements", program.length⟩ }

end Settings

/-- Work on an input file, given its content or why that cannot be read. -/
def Settings.section (s : Settings) (path : Bytes) (content : Except Bytes Bytes) : Section :=
  match content with
  | .error reason =>
    { remarks := [.complaint (path ++ utf8 ": " ++ reason ++ utf8 "\n")], failed := true }
  | .ok source => s.compile path source

/-! ## Arguments -/

/-- What the arguments ask for. -/
inductive Plan where
  /-- Print the version. -/
  | version
  /-- Report a text and stop with an exit code. -/
  | advise (code : Nat) (text : Bytes)
  /-- Work on the input files. -/
  | work (s : Settings)
  deriving DecidableEq, Repr

/-- What to do for these arguments. -/
def plan (arguments : List Bytes) : Plan :=
  match Settings.read {} arguments with
  | .error .help => .advise 0 usage
  | .error fault => .advise 2 (fault.text ++ usage)
  | .ok s =>
    if s.version then .version
    else if s.inputs.isEmpty then
      .advise 1 (utf8 "Error: no input file specified\n" ++ usage)
    else .work s

/-! ## The run -/

/-- What the command asks of the system around it. Where something can fail, the reason is
given in words. -/
structure System (m : Type → Type) where
  /-- The content of the file at a path, or why it cannot be read. -/
  read : (path : Bytes) → m (Except Bytes Bytes)
  /-- Put a text into the file at a path; the reason if that fails. -/
  write : (path text : Bytes) → m (Option Bytes)
  /-- Print a text; the reason if that fails. -/
  print : (text : Bytes) → m (Option Bytes)
  /-- Print a text where reports go. -/
  report : (text : Bytes) → m Unit
  /-- The time, if there is a clock. -/
  now : m (Option Bytes)

namespace System

variable {m : Type → Type} [Monad m]

/-- Report something. -/
def remark (sys : System m) : Remark → m Unit
  | .progress e => do sys.report (e.line (← sys.now))
  | .complaint text => sys.report text

/-- Work on one input file. -/
def enter (sys : System m) (s : Settings) (path : Bytes) : m Section := do
  let part := s.section path (← sys.read path)
  part.remarks.forM sys.remark
  return part

/-- Print the output, or write it to the output file; the reason if that fails. -/
def deliver (sys : System m) (s : Settings) (text : Bytes) : m (Option Bytes) :=
  if s.output.isEmpty then sys.print text else sys.write s.output text

/-- Report how the delivery went and give the exit code. -/
def conclude (sys : System m) (s : Settings) (sections : List Section) :
    (failure : Option Bytes) → m Nat
  | some reason => do
    sys.report (utf8 "Error writing output: " ++ reason ++ utf8 "\n")
    return 1
  | none => do
    let written := (sections.flatMap Section.output).length
    let remarks := if s.output.isEmpty then []
      else s.progress ⟨"wrote output", s.output, "bytes", written⟩
    remarks.forM sys.remark
    return if sections.any Section.failed then 1 else 0

/-- Work on all input files, deliver what is printed of them and give the exit code. -/
def work (sys : System m) (s : Settings) : m Nat := do
  let sections ← s.inputs.mapM (sys.enter s)
  let failure ← sys.deliver s (sections.flatMap Section.output)
  sys.conclude s sections failure

/-- Run the command. The exit code is zero for success, one for a failure and two for bad
arguments. -/
def run (sys : System m) (arguments : List Bytes) : m Nat :=
  match plan arguments with
  | .version => do
    let _ ← sys.print versionText
    return 0
  | .advise code text => do
    sys.report text
    return code
  | .work s => sys.work s

end System

end ShaderFront
