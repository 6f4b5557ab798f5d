import ShaderFront.Proofs.Files
import ShaderFront.Proofs.FlagUses
import ShaderFront.Proofs.Run

/-!
# One section for each input

A run of the command prints a section for each input file and complains about those that
have none. Each section and each complaint depends on the content of its own file, as it
was before the run, and on nothing that is in the others. The text that they make up is
printed in one go, or it is written to one file in one go, and nothing else is done to the
files. Whatever the files are and however reading, writing and printing may fail, the run
does no more than that.
-/

namespace ShaderFront

/-- A text with a line break at its end. -/
def endLine (t : Bytes) : Bytes :=
  if t.getLast? = some lineFeed then t else t ++ [lineFeed]

namespace Settings

/-- What is printed of an input file: nothing if it has no program, and otherwise a
heading if it is one of several, its tokens if they are asked for, and its outline if
that is asked for or the tokens are not. -/
def sectionText (s : Settings) (path : Bytes) : Except Bytes Bytes → Bytes
  | .error _ => []
  | .ok source =>
    match tokenize source, parseSource s.options source with
    | .ok tokens, .ok program =>
      (if 1 < s.inputs.length then utf8 "== " ++ path ++ [lineFeed] else []) ++
      (if s.tokens then listing tokens else []) ++
      (if s.tree ∨ ¬ s.tokens then dump program else [])
    | _, _ => []

/-- What is reported about an input file, if there is a reason to: it cannot be read, or it
has no program. -/
def complaint? (s : Settings) (path : Bytes) : Except Bytes Bytes → Option Bytes
  | .error reason => some (path ++ utf8 ": " ++ reason ++ [lineFeed])
  | .ok source =>
    match parseSource s.options source with
    | .ok _ => none
    | .error f => some (path ++ utf8 ": " ++ endLine f.diagnostic.withContext)

/-! ## One input -/

theorem faultReport_eq (path : Bytes) (d : Diagnostic) :
    faultReport path d = path ++ utf8 ": " ++ endLine d.withContext := by
  unfold faultReport endLine
  by_cases h : d.withContext.getLast? = some lineFeed
  · simp only [h, if_true, List.append_nil]
  · simp only [h, if_false, List.append_assoc]

section

variable {s : Settings} {path source : Bytes} {tokens : List Token} {d : Diagnostic}

theorem compile_of_broken (h : tokenize source = .error d) :
    s.compile path source = { remarks := [.complaint (faultReport path d)], failed := true } := by
  rw [compile, scanSource, h]
  rfl

theorem compile_of_refused (h : tokenize source = .ok tokens)
    (hp : (Parser.fresh s.options tokens).parse.1 = .error d) :
    s.compile path source =
      { remarks := s.progress ⟨"tokenized", path, "tokens", tokens.length⟩ ++
          [.complaint (faultReport path (d.withSource source))]
        failed := true } := by
  have hparse : parseTokens s.options tokens = .error ⟨.parsing, d⟩ := by
    rw [parseTokens_eq, hp]
    rfl
  simp only [compile, scanSource_of_tokens h, hparse]

theorem compile_of_read {program : List Stmt} (h : tokenize source = .ok tokens)
    (hp : (Parser.fresh s.options tokens).parse.1 = .ok program) :
    s.compile path source =
      { output := s.render path tokens program
        remarks := s.progress ⟨"tokenized", path, "tokens", tokens.length⟩ ++
          s.progress ⟨"parsed", path, "statements", program.length⟩ } := by
  have hparse : parseTokens s.options tokens = .ok program := by
    rw [parseTokens_eq, hp]
    rfl
  simp only [compile, scanSource_of_tokens h, hparse]

end

theorem progress_of_quiet {s : Settings} (h : s.verbose = false) (e : LogEntry) :
    s.progress e = [] := by
  rw [progress, h]
  rfl

theorem render_eq (s : Settings) (path : Bytes) (tokens : List Token) (program : List Stmt) :
    s.render path tokens program =
      (if 1 < s.inputs.length then utf8 "== " ++ path ++ [lineFeed] else []) ++
      (if s.tokens then listing tokens else []) ++
      (if s.tree ∨ ¬ s.tokens then dump program else []) := by
  have hshows : s.showsTree = true ↔ s.tree = true ∨ ¬ s.tokens = true := by
    simp [showsTree]
  rw [render]
  simp only [hshows]
  rfl

/-- Scanning and parsing one after the other come to what reading the source comes to. -/
theorem compile_spec (s : Settings) (path source : Bytes) :
    (s.compile path source).output = s.sectionText path (.ok source) ∧
      (s.compile path source).failed = (s.complaint? path (.ok source)).isSome ∧
      (s.verbose = false → (s.compile path source).remarks =
        (s.complaint? path (.ok source)).toList.map .complaint) := by
  rw [sectionText, complaint?]
  cases ht : tokenize source with
  | error d =>
    rw [compile_of_broken ht, parseSource_of_broken ht]
    refine ⟨rfl, rfl, fun _ => ?_⟩
    rw [faultReport_eq]
    rfl
  | ok tokens =>
    cases hp : (Parser.fresh s.options tokens).parse.1 with
    | error d =>
      rw [compile_of_refused ht hp, parseSource_of_refused ht hp]
      refine ⟨rfl, rfl, fun hquiet => ?_⟩
      rw [progress_of_quiet hquiet, faultReport_eq]
      rfl
    | ok program =>
      rw [compile_of_read ht hp, parseSource_of_read ht hp]
      refine ⟨render_eq s path tokens program, rfl, fun hquiet => ?_⟩
      rw [progress_of_quiet hquiet, progress_of_quiet hquiet]
      rfl

theorem section_spec (s : Settings) (path : Bytes) (content : Except Bytes Bytes) :
    (s.section path content).output = s.sectionText path content ∧
      (s.section path content).failed = (s.complaint? path content).isSome ∧
      (s.verbose = false → (s.section path content).remarks =
        (s.complaint? path content).toList.map .complaint) := by
  cases content with
  | error reason => exact ⟨rfl, rfl, fun _ => rfl⟩
  | ok source => exact s.compile_spec path source

/-- What becomes of the inputs, one after the other. -/
def sections (s : Settings) (read : Bytes → Except Bytes Bytes) : List Section :=
  s.inputs.map fun path => s.section path (read path)

theorem output_sections (s : Settings) (read : Bytes → Except Bytes Bytes) :
    (s.sections read).flatMap Section.output =
      s.inputs.flatMap fun path => s.sectionText path (read path) := by
  rw [sections, List.flatMap_map]
  exact List.flatMap_congr fun path _ => (s.section_spec path _).1

theorem failed_sections (s : Settings) (read : Bytes → Except Bytes Bytes) :
    (s.sections read).any Section.failed = true ↔
      ∃ path ∈ s.inputs, (s.complaint? path (read path)).isSome := by
  rw [sections, List.any_map, List.any_eq_true]
  refine exists_congr fun path => and_congr_right fun _ => ?_
  rw [← (s.section_spec path _).2.1]
  rfl

theorem remarks_sections {s : Settings} (hquiet : s.verbose = false)
    (read : Bytes → Except Bytes Bytes) :
    (s.sections read).flatMap Section.remarks =
      (s.inputs.filterMap fun path => s.complaint? path (read path)).map .complaint := by
  rw [sections, List.flatMap_map, List.filterMap_eq_flatMap_toList, List.map_flatMap]
  exact List.flatMap_congr fun path _ => (s.section_spec path _).2.2 hquiet

end Settings

/-! ## Effects of a run -/

/-- What is reported about a text of which some is lost. -/
def lossReport : Option Bytes → Bytes
  | none => []
  | some reason => utf8 "Error writing output: " ++ reason ++ [lineFeed]

section

variable {σ : Type} (w : World σ)

/-- The effects with something reported. -/
def Effects.noted (e : Effects σ) : Remark → Effects σ
  | .progress entry =>
    { e with report := e.report ++ entry.line (w.clock e.looks), looks := e.looks + 1 }
  | .complaint text => { e with report := e.report ++ text }

/-- The effects with one thing after the other reported. -/
def Effects.notedAll (e : Effects σ) (remarks : List Remark) : Effects σ :=
  remarks.foldl (Effects.noted w) e

namespace Effects

variable (e : Effects σ)

theorem notedAll_append (rs rs' : List Remark) :
    e.notedAll w (rs ++ rs') = (e.notedAll w rs).notedAll w rs' :=
  List.foldl_append

/-- A report changes no file and is not printed. -/
theorem notedAll_fixed (rs : List Remark) :
    (e.notedAll w rs).files = e.files ∧ (e.notedAll w rs).output = e.output := by
  induction rs generalizing e with
  | nil => exact ⟨rfl, rfl⟩
  | cons r rs ih =>
    obtain ⟨hfiles, houtput⟩ := ih (e.noted w r)
    rw [notedAll, List.foldl_cons]
    cases r with
    | progress entry => exact ⟨hfiles, houtput⟩
    | complaint text => exact ⟨hfiles, houtput⟩

theorem report_notedAll (texts : List Bytes) :
    (e.notedAll w (texts.map .complaint)).report = e.report ++ texts.flatten := by
  induction texts generalizing e with
  | nil => exact (List.append_nil _).symm
  | cons t texts ih =>
    rw [List.map_cons, notedAll, List.foldl_cons, List.flatten_cons, ← List.append_assoc]
    exact ih (e.noted w (.complaint t))

end Effects

namespace World

/-- One thing is done in the effects of the other. -/
theorem run_bind {α β : Type} (x : StateM (Effects σ) α) (f : α → StateM (Effects σ) β)
    (e : Effects σ) : (x >>= f).run e = (f (x.run e).1).run (x.run e).2 :=
  rfl

theorem run_remark (r : Remark) (e : Effects σ) :
    (w.system.remark r).run e = ((), e.noted w r) := by
  cases r <;> rfl

theorem run_remarks (rs : List Remark) (e : Effects σ) :
    (rs.forM w.system.remark).run e = ((), e.notedAll w rs) := by
  induction rs generalizing e with
  | nil => rfl
  | cons r rs ih =>
    rw [List.forM, run_bind, run_remark]
    exact ih (e.noted w r)

/-- An input is read as it is, and what is to be said about it is reported. -/
theorem run_enter (s : Settings) (path : Bytes) (e : Effects σ) :
    (w.system.enter s path).run e =
      (s.section path (w.read e.files path),
        e.notedAll w (s.section path (w.read e.files path)).remarks) := by
  have hread : (w.system.read path).run e = (w.read e.files path, e) := rfl
  rw [System.enter, run_bind, hread, run_bind, run_remarks]
  rfl

/-- All inputs are read as they are at the start, because reports change no file. -/
theorem run_inputs (s : Settings) (inputs : List Bytes) (e : Effects σ) :
    (inputs.mapM (w.system.enter s)).run e =
      let parts := inputs.map fun path => s.section path (w.read e.files path)
      (parts, e.notedAll w (parts.flatMap Section.remarks)) := by
  induction inputs generalizing e with
  | nil => rfl
  | cons path inputs ih =>
    have hfiles := (e.notedAll_fixed w (s.section path (w.read e.files path)).remarks).1
    have hrest := ih (e.notedAll w (s.section path (w.read e.files path)).remarks)
    rw [hfiles] at hrest
    rw [List.mapM_cons, run_bind, run_enter, run_bind, hrest]
    simp only [List.map_cons, List.flatMap_cons, Effects.notedAll_append]
    rfl

/-- What becomes of a text that is printed, or written at a path unless that is empty: what
the standard output takes, the files afterwards, and why it fails, if it does. -/
def deliver (files : σ) (path text : Bytes) : Bytes × σ × Option Bytes :=
  if path = [] then ((w.print text).1, files, (w.print text).2)
  else ([], w.write files path text)

theorem run_deliver (s : Settings) (text : Bytes) (e : Effects σ) :
    (w.system.deliver s text).run e =
      let (taken, files, failure) := w.deliver e.files s.output text
      (failure, { e with files := files, output := e.output ++ taken }) := by
  rw [System.deliver, deliver]
  by_cases h : s.output = []
  · simp only [h, List.isEmpty_nil, if_true]
    rfl
  · simp only [List.isEmpty_iff, h, if_false, List.append_nil]
    rfl

/-- The conclusion leaves the files and the output as they are. -/
theorem run_conclude (s : Settings) (sections : List Section) (failure : Option Bytes)
    (e : Effects σ) :
    let r := (w.system.conclude s sections failure).run e
    r.1 = (if sections.any Section.failed = true ∨ failure.isSome = true then 1 else 0) ∧
      r.2.files = e.files ∧ r.2.output = e.output ∧
      (s.verbose = false → r.2.report = e.report ++ lossReport failure) := by
  cases failure with
  | some reason =>
    refine ⟨(if_pos (.inr rfl)).symm, rfl, rfl, fun _ => ?_⟩
    simp only [lossReport]
    rfl
  | none =>
    intro r
    let written := (sections.flatMap Section.output).length
    let remarks := if s.output.isEmpty then []
      else s.progress ⟨"wrote output", s.output, "bytes", written⟩
    have hr : r = (if sections.any Section.failed then 1 else 0, e.notedAll w remarks) := by
      simp only [r, System.conclude]
      rw [run_bind, run_remarks]
      rfl
    obtain ⟨hfiles, houtput⟩ := e.notedAll_fixed w remarks
    rw [hr]
    refine ⟨by simp, hfiles, houtput, fun hquiet => ?_⟩
    have hnone : remarks = [] := by
      simp only [remarks, Settings.progress_of_quiet hquiet, ite_self]
    rw [hnone]
    exact (List.append_nil _).symm

end World

end

/-! ## Where the text goes -/

theorem plan_eq_work {arguments : List Bytes} {s : Settings}
    (hread : Settings.read {} arguments = .ok s) (hversion : s.version = false)
    (hinputs : s.inputs ≠ []) : plan arguments = .work s := by
  rw [plan, hread]
  simp [hversion, hinputs]

section

variable {σ : Type} (w : World σ)

/-- A run that works on its inputs delivers their sections and concludes from what became of
them. -/
theorem World.run_work (s : Settings) (files : σ) :
    let parts := s.sections (w.read files)
    let x := w.deliver files s.output (parts.flatMap Section.output)
    let r := (w.system.work s).run { files := files }
    r.1 = (if parts.any Section.failed = true ∨ x.2.2.isSome then 1 else 0) ∧
      (r.2.output, r.2.files) = (x.1, x.2.1) ∧
      (s.verbose = false → r.2.report =
        (s.inputs.filterMap fun path => s.complaint? path (w.read files path)).flatten ++
          lossReport x.2.2) := by
  intro parts x r
  obtain ⟨hfiles, houtput⟩ :=
    Effects.notedAll_fixed w { files := files } (parts.flatMap Section.remarks)
  have hreport (hquiet : s.verbose = false) :
      (Effects.notedAll w { files := files } (parts.flatMap Section.remarks)).report =
        (s.inputs.filterMap fun path => s.complaint? path (w.read files path)).flatten := by
    rw [Settings.remarks_sections hquiet, Effects.report_notedAll]
    rfl
  have hinputs : (s.inputs.mapM (w.system.enter s)).run { files := files } =
      (parts, Effects.notedAll w { files := files } (parts.flatMap Section.remarks)) :=
    w.run_inputs s s.inputs { files := files }
  generalize Effects.notedAll w { files := files } (parts.flatMap Section.remarks) = e
    at hfiles houtput hreport hinputs
  have hdeliver := w.run_deliver s (parts.flatMap Section.output) e
  rw [hfiles, houtput] at hdeliver
  change (w.system.deliver s (parts.flatMap Section.output)).run e =
    (x.2.2, { e with files := x.2.1, output := x.1 }) at hdeliver
  obtain ⟨hcode, hafter, htaken, hlast⟩ :=
    w.run_conclude s parts x.2.2 { e with files := x.2.1, output := x.1 }
  have hr : r = (w.system.conclude s parts x.2.2).run { e with files := x.2.1, output := x.1 } := by
    simp only [r]
    rw [System.work, run_bind, hinputs, run_bind, hdeliver]
  rw [hr, hafter, htaken]
  refine ⟨hcode, rfl, fun hquiet => ?_⟩
  rw [hlast hquiet, ← hreport hquiet]

end

/-- A run prints the sections of the inputs one after the other, as they were before it, and
complains about each input that has none. Nothing is assumed of the files, of how reading,
writing and printing may fail, or of what is said then. The sections are printed in one go, or
they are written to one file in one go and nothing is printed; what writing there leaves alone
stays as it was, and so does everything if the sections are printed. An output that takes so
many bytes and then fails takes the first of them. The exit code says whether some input has no
section or some of the text is lost. -/
theorem runCommand_sections {σ : Type} (w : World σ) (files : σ) (arguments : List Bytes)
    (s : Settings) (hread : Settings.read {} arguments = .ok s) (hversion : s.version = false)
    (hinputs : s.inputs ≠ []) :
    let text := s.inputs.flatMap fun path => s.sectionText path (w.read files path)
    let result := runCommand w files arguments
    (∃ uses, Settings.Asked {} s arguments uses) ∧
      ∃ failure : Option Bytes,
        (result.output, result.files, failure) =
          (if s.output = [] then ((w.print text).1, files, (w.print text).2)
          else ([], w.write files s.output text)) ∧
        (∀ room reason, s.output = [] → w.print = limited room reason →
          result.output = text.take room ∧
            failure = if text.length ≤ room then none else some reason) ∧
        (∀ other, w.Spares files s.output other →
          w.read result.files other = w.read files other) ∧
        result.code = (if (∃ path ∈ s.inputs, (s.complaint? path (w.read files path)).isSome) ∨
          failure.isSome then 1 else 0) ∧
        (s.verbose = false → result.report =
          (s.inputs.filterMap fun path => s.complaint? path (w.read files path)).flatten ++
            lossReport failure) := by
  intro text result
  refine ⟨Settings.exists_asked hread rfl, (w.deliver files s.output text).2.2, ?_⟩
  obtain ⟨hcode, hdelivered, hreport⟩ := w.run_work s files
  rw [s.output_sections] at hcode hdelivered hreport
  have hrun : w.system.run arguments = w.system.work s := by
    rw [System.run, plan_eq_work hread hversion hinputs]
  rw [← hrun] at hcode hdelivered hreport
  change result.code = _ at hcode
  change (result.output, result.files) = _ at hdelivered
  obtain ⟨houtput, hfiles⟩ := Prod.mk.inj hdelivered
  rw [houtput, hfiles]
  refine ⟨rfl, ?_, ?_, ?_, hreport⟩
  · intro room reason hpath hprint
    rw [World.deliver, if_pos hpath, hprint]
    exact ⟨rfl, rfl⟩
  · intro other hspares
    rw [World.deliver]
    split
    · rfl
    · exact hspares text
  · rw [hcode]
    exact if_congr (or_congr_left (s.failed_sections _)) rfl rfl

/-- A folder with a program, and with a text that is none. -/
def mixedFolder : Folder :=
  .ofPaths [(utf8 "a", utf8 "#[x]"), (utf8 "b", utf8 "x\n")] []

/-- Arguments that ask for the outlines of three files, in place of the first one. -/
def mixedArguments : List Bytes :=
  [utf8 "-o", utf8 "a", utf8 "a", utf8 "c", utf8 "b"]

/-- What they ask for. -/
def mixedSettings : Settings where
  output := utf8 "a"
  inputs := [utf8 "a", utf8 "c", utf8 "b"]

/-- What is reported about the text that is no program. -/
def mixedComplaint : Bytes :=
  utf8 "b: error: expected ';' after expression, got EOF\n" ++
    utf8 "  --> line 2:1\n   |\n  2| \n   | ^\n"

/-- The sections and the complaints wherever the two files are read and the third is not. -/
theorem mixedSettings_sections (read : Bytes → Except Bytes Bytes) {reason : Bytes}
    (ha : read (utf8 "a") = .ok (utf8 "#[x]")) (hb : read (utf8 "b") = .ok (utf8 "x\n"))
    (hc : read (utf8 "c") = .error reason) :
    (mixedSettings.inputs.flatMap fun path => mixedSettings.sectionText path (read path)) =
        utf8 "== a\nDirective x\n" ∧
      (mixedSettings.inputs.filterMap fun path => mixedSettings.complaint? path (read path)) =
        [utf8 "c: " ++ reason ++ [lineFeed], mixedComplaint] := by
  have htokens : tokenize (utf8 "#[x]") =
      .ok [⟨.attr (utf8 "x"), utf8 "#[x]", ⟨1, 1⟩⟩, .eof ⟨1, 5⟩] := by decide +kernel
  have hother : tokenize (utf8 "x\n") =
      .ok [⟨.ident (utf8 "x"), utf8 "x", ⟨1, 1⟩⟩, .eof ⟨2, 1⟩] := by decide +kernel
  have hprogram : parseSource {} (utf8 "#[x]") =
      .ok [.directive (utf8 "x") [] (.startingAt ⟨1, 1⟩)] := parseSource_of_read htokens rfl
  have hfault := parseSource_of_refused (o := {}) hother rfl
  constructor
  · simp only [mixedSettings, List.flatMap_cons, List.flatMap_nil, ha, hb, hc,
      Settings.sectionText, htokens, hother, hprogram, hfault]
    rfl
  · have hcomplaint : mixedSettings.complaint? (utf8 "b") (.ok (utf8 "x\n")) =
        some mixedComplaint := by
      simp only [mixedSettings, Settings.complaint?, hfault]
      decide +kernel
    have hnone : mixedSettings.complaint? (utf8 "a") (.ok (utf8 "#[x]")) = none := by
      simp only [mixedSettings, Settings.complaint?, hprogram]
    have hsome : mixedSettings.complaint? (utf8 "c") (.error reason) =
        some (utf8 "c: " ++ reason ++ [lineFeed]) := rfl
    have hinputs : mixedSettings.inputs = [utf8 "a", utf8 "c", utf8 "b"] := rfl
    rw [hinputs]
    simp only [List.filterMap_cons, List.filterMap_nil, ha, hb, hc, hnone, hsome, hcomplaint]

/-- A world of that folder in which one file is locked, and whose disk fills up while a file
is written. -/
def crampedWorld : World Folder where
  read f path :=
    if path = utf8 "c" then .error (utf8 "open c: permission denied")
    else (f.read path).mapError FileFailure.text
  write f path text :=
    (f.put [Folder.unknownName, path] (text.take 5), some (utf8 "write a: no space left on device"))
  print text := (text, none)

/-- The outline of the program replaces it, and the other two files are reported. On the full
disk there is the start of the outline instead, which is reported too. -/
theorem runCommand_sections_mixed :
    let result := runCommand (Folder.world fun t => (t, none)) mixedFolder mixedArguments
    let cramped := runCommand crampedWorld mixedFolder mixedArguments
    (result.files.read (utf8 "a") = .ok (utf8 "== a\nDirective x\n") ∧ result.output = [] ∧
      result.code = 1 ∧
      result.report = utf8 "c: open c: no such file or directory\n" ++ mixedComplaint) ∧
    cramped.files.read (utf8 "a") = .ok (utf8 "== a\n") ∧ cramped.output = [] ∧
      cramped.code = 1 ∧
      cramped.report = utf8 "c: open c: permission denied\n" ++ mixedComplaint ++
        utf8 "Error writing output: write a: no space left on device\n" := by
  intro result cramped
  have hrun {w : World Folder} {reason : Bytes} {after : Folder} {failure : Option Bytes}
      (ha : w.read mixedFolder (utf8 "a") = .ok (utf8 "#[x]"))
      (hb : w.read mixedFolder (utf8 "b") = .ok (utf8 "x\n"))
      (hc : w.read mixedFolder (utf8 "c") = .error reason)
      (hwrite : w.write mixedFolder (utf8 "a") (utf8 "== a\nDirective x\n") = (after, failure)) :
      let r := runCommand w mixedFolder mixedArguments
      r.files = after ∧ r.output = [] ∧ r.code = 1 ∧
        r.report = utf8 "c: " ++ reason ++ [lineFeed] ++ mixedComplaint ++ lossReport failure := by
    obtain ⟨-, failure', hdelivered, -, -, hcode, hreport⟩ :=
      runCommand_sections w mixedFolder mixedArguments mixedSettings rfl rfl (by decide)
    obtain ⟨htext, hcomplaints⟩ := mixedSettings_sections _ ha hb hc
    have hnonempty : mixedSettings.output ≠ [] := by decide
    rw [htext, if_neg hnonempty, show mixedSettings.output = utf8 "a" from rfl, hwrite]
      at hdelivered
    simp only [Prod.mk.injEq] at hdelivered
    obtain ⟨houtput, hfiles, rfl⟩ := hdelivered
    have hfaulty :
        (mixedSettings.complaint? (utf8 "c") (w.read mixedFolder (utf8 "c"))).isSome := by
      rw [hc]
      rfl
    refine ⟨hfiles, houtput, hcode.trans (if_pos (.inl ⟨utf8 "c", by decide, hfaulty⟩)), ?_⟩
    rw [hreport rfl, hcomplaints]
    simp only [List.flatten_cons, List.flatten_nil, List.append_nil]
  constructor
  · obtain ⟨after, hwrite, hstored, -⟩ := Folder.world_write (fun t => (t, none))
      (show mixedFolder.target (utf8 "a") = .ok [Folder.unknownName, utf8 "a"] by decide)
      (utf8 "== a\nDirective x\n")
    have hc : (Folder.world fun t => (t, none)).read mixedFolder (utf8 "c") =
        .error (utf8 "open c: no such file or directory") := by decide
    obtain ⟨hfiles, houtput, hcode, hreport⟩ := hrun (by decide) (by decide) hc hwrite
    exact ⟨hfiles ▸ hstored, houtput, hcode, hreport.trans (by decide +kernel)⟩
  · have hc : crampedWorld.read mixedFolder (utf8 "c") =
        .error (utf8 "open c: permission denied") := by decide
    obtain ⟨hfiles, houtput, hcode, hreport⟩ := hrun (by decide) (by decide) hc rfl
    refine ⟨?_, houtput, hcode, hreport.trans (by decide +kernel)⟩
    rw [hfiles]
    decide +kernel

end ShaderFront
