import ShaderFront.Command.Folder
import ShaderFront.Command.Run

/-!
# Runs among values

A system in which nothing happens outside the values that go in and come out: the files,
whatever they are, what the standard output takes, and a clock. A folder is one such kind
of files.
-/

namespace ShaderFront

/-- The surroundings of a run, with all files at one time as a value. -/
structure World (σ : Type) where
  /-- The content of the file at a path, or why it cannot be read. -/
  read : (files : σ) → (path : Bytes) → Except Bytes Bytes
  /-- The files after a text was put at a path, as far as that went, and why it failed, if it
  did. -/
  write : (files : σ) → (path text : Bytes) → σ × Option Bytes
  /-- How much of a text the standard output takes, and why no more, if it fails. -/
  print : (text : Bytes) → Bytes × Option Bytes
  /-- The time at each look at the clock, if there is one. -/
  clock : Nat → Option Bytes := fun _ => none

/-- What a run has done so far. -/
structure Effects (σ : Type) where
  /-- The files. -/
  files : σ
  /-- What the standard output took. -/
  output : Bytes := []
  /-- What was reported. -/
  report : Bytes := []
  /-- How often the run has looked at the clock. -/
  looks : Nat := 0

/-- The system that a world is. -/
def World.system {σ : Type} (w : World σ) : System (StateM (Effects σ)) where
  read path := do return w.read (← get).files path
  write path text := modifyGet fun e =>
    let (files, failure) := w.write e.files path text
    (failure, { e with files := files })
  print text := modifyGet fun e =>
    let (taken, failure) := w.print text
    (failure, { e with output := e.output ++ taken })
  report text := modify fun e => { e with report := e.report ++ text }
  now := modifyGet fun e => (w.clock e.looks, { e with looks := e.looks + 1 })

/-- What a run of the command leaves behind. -/
structure Result (σ : Type) where
  /-- The exit code. -/
  code : Nat
  /-- What the standard output took. -/
  output : Bytes
  /-- What was reported. -/
  report : Bytes
  /-- The files afterwards. -/
  files : σ

/-- Run the command in a world. -/
def runCommand {σ : Type} (w : World σ) (files : σ) (arguments : List Bytes) : Result σ :=
  let r := (w.system.run arguments).run { files := files }
  ⟨r.1, r.2.output, r.2.report, r.2.files⟩

/-- An output that takes so many bytes in all and then fails for a reason. -/
def limited (room : Nat) (reason text : Bytes) : Bytes × Option Bytes :=
  (text.take room, if text.length ≤ room then none else some reason)

/-- The world of a folder, with a standard output. -/
def Folder.world (print : Bytes → Bytes × Option Bytes) : World Folder where
  read f path := (f.read path).mapError FileFailure.text
  write f path text :=
    match f.write path text with
    | .ok after => (after, none)
    | .error failure => (f, some failure.text)
  print := print

end ShaderFront
