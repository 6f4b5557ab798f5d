import ShaderFront.Proofs.Run

/-!
# Extensions of the grammar

One grammar extends another if it reads all that the other reads, and reads it as the
other does. The two readings of a row of tokens are followed side by side. They take the
same tokens up to a token that only the larger grammar takes, and from there on the
larger one can tell that it has gone further: what it makes in the end is no program of
the smaller one.

What has to be known about single tokens is gathered in one structure, and what follows
for whole rows is derived from it.
-/

namespace ShaderFront

/-- Two grammars of which the second extends the first, where the first refuses what it does
not know with a certain kind of report. -/
structure Extension (small large : Options) (kind : ErrorKind) where
  /-- What the smaller grammar makes of a statement. -/
  cut : Stmt → Stmt
  /-- Does the statement do without the extension, at every depth? -/
  isPlain : Stmt → Bool
  /-- What the smaller grammar makes of an unfinished program. -/
  view : State → State
  /-- Does the unfinished program do without the extension? -/
  Plain : State → Prop
  /-- What can be relied on of every unfinished program that the larger grammar comes to. -/
  Sound : State → Prop
  /-- Is this a token that only the larger grammar takes? -/
  Parts : State → Token → Prop
  /-- Both grammars start alike. -/
  view_start : view .start = .start
  /-- Nothing of the extension is there at the start. -/
  plain_start : Plain .start
  /-- The start can be relied on. -/
  sound_start : Sound .start
  /-- So can what every token leads to. -/
  sound_take? : ∀ {s next : State} {t}, s.take? large t = some next → Sound s → Sound next
  /-- Any other token is taken or refused by both. -/
  take?_view : ∀ {s t}, ¬Parts s t → (view s).take? small t = (s.take? large t).map view
  /-- A token where the two part is refused by the smaller grammar. -/
  refused : ∀ {s t}, Parts s t → (view s).take? small t = none
  /-- The extension is in an unfinished program once it was used, and only then. -/
  plain_iff : ∀ {s next : State} {t}, Sound s → s.take? large t = some next →
    (Plain next ↔ Plain s ∧ ¬Parts s t)
  /-- Tokens are refused for the same reason. -/
  refusal_view : ∀ s got, (view s).refusal got = s.refusal got
  /-- The report where the two part has that kind. -/
  kind_of_parts : ∀ {s t}, Parts s t → (s.refusal t.symbol).kind = kind
  /-- No report of the larger grammar has it. -/
  kind_ne : ∀ {s : State} {t}, s.take? large t = none → (s.refusal t.symbol).kind ≠ kind
  /-- Both grammars may end at the same places. -/
  isComplete_view : ∀ s, (view s).isComplete = s.isComplete
  /-- The complete statements are cut. -/
  finished_view : ∀ s, (view s).finished = s.finished.map cut
  /-- Where nothing is open, the extension can only be in complete statements. -/
  plain_of_isComplete : ∀ {s : State}, s.isComplete = true →
    (Plain s ↔ ∀ r ∈ s.finished, isPlain r = true)

namespace Extension

variable {small large : Options} {kind : ErrorKind} (E : Extension small large kind)

/-! ## Rows of tokens -/

/-- What the smaller grammar takes, the larger one takes too, and does without the
extension. -/
theorem takeAll?_view {s next : State} {ts : List Token} (hsound : E.Sound s) (hs : E.Plain s)
    (h : (E.view s).takeAll? small ts = some next) :
    ∃ s', s.takeAll? large ts = some s' ∧ E.Sound s' ∧ E.Plain s' ∧ E.view s' = next := by
  induction ts generalizing s with
  | nil =>
    cases h
    exact ⟨s, rfl, hsound, hs, rfl⟩
  | cons t ts ih =>
    obtain ⟨mid, ht, hts⟩ := Option.bind_eq_some_iff.mp h
    have hparts : ¬E.Parts s t := by
      intro hparts
      rw [E.refused hparts] at ht
      cases ht
    rw [E.take?_view hparts] at ht
    obtain ⟨mid', ht', rfl⟩ := Option.map_eq_some_iff.mp ht
    obtain ⟨s', hs', hrest⟩ :=
      ih (E.sound_take? ht' hsound) ((E.plain_iff hsound ht').mpr ⟨hs, hparts⟩) hts
    exact ⟨s', by rw [State.takeAll?_cons, ht']; exact hs', hrest⟩

/-- So it is from the start on. -/
theorem takeAll?_start {next : State} {ts : List Token}
    (h : State.start.takeAll? small ts = some next) :
    ∃ s, State.start.takeAll? large ts = some s ∧ E.Sound s ∧ E.Plain s ∧ E.view s = next := by
  rw [← E.view_start] at h
  exact E.takeAll?_view E.sound_start E.plain_start h

/-- Once the extension was used, it stays. -/
theorem plain_of_takeAll? {s next : State} {ts : List Token} (hs : E.Sound s)
    (h : s.takeAll? large ts = some next) (hn : E.Plain next) : E.Plain s := by
  induction ts generalizing s with
  | nil =>
    cases h
    exact hn
  | cons t ts ih =>
    obtain ⟨mid, ht, hts⟩ := Option.bind_eq_some_iff.mp h
    exact ((E.plain_iff hs ht).mp (ih (E.sound_take? ht hs) hts)).1

/-- At the same token both grammars come to the same, apart from the cut. -/
theorem verdict_view (s : State) (got : Symbol) (p : Position) :
    (E.view s).verdict got p = (s.verdict got p).map (List.map E.cut) := by
  unfold State.verdict
  rw [E.isComplete_view, E.refusal_view, E.finished_view]
  split
  · simp [Except.map]
  · rfl

/-- The larger grammar stops at no token with that kind of report. -/
theorem kind_ne_of_stopsAt (E : Extension small large kind) {s : State} {rest : List Token}
    (h : s.stopsAt large rest = true) : (s.refusal (headSymbol rest)).kind ≠ kind := by
  cases rest with
  | nil => exact E.kind_ne (t := Symbol.token .eof) (State.take?_eof rfl)
  | cons t rest => exact E.kind_ne (Option.isNone_iff_eq_none.mp h)

/-! ## Two readings of a row -/

/-- What the two grammars come to on a row of tokens. -/
inductive Compared (ts : List Token) : Outcome → Outcome → Prop
  /-- Both read a program, and it does without the extension. -/
  | read {n : Nat} {program : List Stmt} (h : ∀ s ∈ program, E.isPlain s = true) :
    Compared ts ⟨n, .ok (program.map E.cut)⟩ ⟨n, .ok program⟩
  /-- Both refuse the same token for the same reason. -/
  | refused {n : Nat} {fault : Fault} (h : fault.cause.kind ≠ kind) :
    Compared ts ⟨n, .error fault⟩ ⟨n, .error fault⟩
  /-- Only the smaller grammar refuses a token. The larger one makes no program from there on
  that does without the extension. -/
  | parted {before after : List Token} {t : Token} {s : State} {fault : Fault} {outcome : Outcome}
    (h : fault.cause.kind = kind) (hts : ts = before ++ t :: after)
    (hsmall : State.start.takeAll? small before = some (E.view s))
    (hlarge : State.start.takeAll? large before = some s) (ht : E.Parts s t)
    (hok : ∀ program, outcome.result = .ok program → ∃ r ∈ program, E.isPlain r = false)
    (herror : ∀ f, outcome.result = .error f → f.cause.kind ≠ kind) :
    Compared ts ⟨before.length, .error fault⟩ outcome

/-- Where both grammars stop at the same token, they come to the same. -/
theorem compared_of_stopsAt {rest : List Token} {s : State} (hplain : E.Plain s)
    (hs : s.stopsAt large rest = true) (ts : List Token) (n : Nat) (p : Position) :
    E.Compared ts ⟨n, (E.view s).verdict (headSymbol rest) p⟩
      ⟨n, s.verdict (headSymbol rest) p⟩ := by
  rw [E.verdict_view]
  by_cases hc : headSymbol rest = .eof ∧ s.isComplete = true
  · rw [verdict_eq_ok.mpr ⟨hc.1, hc.2, rfl⟩]
    refine .read fun r hr => ?_
    exact (E.plain_of_isComplete hc.2).mp hplain r (List.mem_reverse.mp hr)
  · rw [verdict_eq_error p hc]
    exact .refused (E.kind_ne_of_stopsAt hs)

/-- What the larger grammar makes once the extension was used shows it. -/
theorem exists_not_plain {s : State} (hsound : E.Sound s) (hs : ¬E.Plain s) {last : Position}
    {ts : List Token} {program : List Stmt} (h : (s.run large last ts).result = .ok program) :
    ∃ r ∈ program, E.isPlain r = false := by
  obtain ⟨taken, rest, next, rfl, ht, hstop⟩ := s.exists_stop large ts
  rw [State.run_eq ht hstop] at h
  obtain ⟨-, hc, rfl⟩ := verdict_eq_ok.mp h
  have hnext : ¬E.Plain next := fun hn => hs (E.plain_of_takeAll? hsound ht hn)
  rw [E.plain_of_isComplete hc] at hnext
  simpa using hnext

/-- The larger grammar reports nothing of that kind. -/
theorem kind_ne_of_run (E : Extension small large kind) {s : State} {last : Position}
    {ts : List Token} {fault : Fault} (h : (s.run large last ts).result = .error fault) :
    fault.cause.kind ≠ kind := by
  obtain ⟨taken, rest, next, rfl, ht, hstop⟩ := s.exists_stop large ts
  rw [State.run_eq ht hstop] at h
  by_cases hc : headSymbol rest = .eof ∧ next.isComplete = true
  · rw [verdict_eq_ok.mpr ⟨hc.1, hc.2, rfl⟩] at h
    cases h
  · rw [verdict_eq_error _ hc] at h
    cases h
    exact E.kind_ne_of_stopsAt hstop

/-- The two readings of a row of tokens. -/
theorem compared (last : Position) (ts : List Token) :
    E.Compared ts (State.start.run small last ts) (State.start.run large last ts) := by
  obtain ⟨taken, rest, next, rfl, ht, hstop⟩ := State.start.exists_stop small ts
  obtain ⟨s, hs, hsound, hplain, rfl⟩ := E.takeAll?_start ht
  rw [State.run_eq ht hstop]
  -- Either the larger grammar stops there too, or it takes the token that is refused.
  have hboth (hrest : s.stopsAt large rest = true) : E.Compared (taken ++ rest)
      ⟨taken.length, (E.view s).verdict (headSymbol rest) (headPosition last rest)⟩
      (State.start.run large last (taken ++ rest)) := by
    rw [State.run_eq hs hrest]
    exact E.compared_of_stopsAt hplain hrest _ _ _
  cases rest with
  | nil => exact hboth rfl
  | cons t rest =>
    cases hmid : s.take? large t with
    | none => exact hboth (by simp [State.stopsAt, hmid])
    | some mid =>
      have hparts : E.Parts s t := by
        refine Classical.byContradiction fun hparts => ?_
        have hrefused : (E.view s).take? small t = none := Option.isNone_iff_eq_none.mp hstop
        rw [E.take?_view hparts, hmid] at hrefused
        cases hrefused
      have hsymbol : t.symbol ≠ .eof := by
        intro he
        rw [State.take?_eof he] at hmid
        cases hmid
      have hgone : ¬E.Plain mid := fun h => ((E.plain_iff hsound hmid).mp h).2 hparts
      have hrun : (State.start.run large last (taken ++ t :: rest)).result =
          (mid.run large last rest).result := by
        rw [State.run_append hs, State.run, if_neg hsymbol, hmid]
      rw [headSymbol_cons, verdict_eq_error _ (fun h => hsymbol h.1)]
      refine .parted ?_ rfl ht hs hparts ?_ ?_
      · rw [E.refusal_view]
        exact E.kind_of_parts hparts
      · intro program hok
        exact E.exists_not_plain (E.sound_take? hmid hsound) hgone (hrun ▸ hok)
      · intro fault herror
        exact E.kind_ne_of_run (hrun ▸ herror)

/-! ## Parsers of the two grammars -/

/-- What the smaller grammar reads, or refuses with another kind of report, the larger one reads
or refuses in the same way. What the larger one reads without the extension, the smaller one
reads too. And no report of the larger one has that kind. -/
theorem parse_conservative (tokens : List Token) (cursor : Nat) :
    let less := (Parser.mk tokens small cursor).parse
    let more := (Parser.mk tokens large cursor).parse
    (∀ program, less.1 = .ok program → ∃ program', more.1 = .ok program' ∧
        more.2.cursor = less.2.cursor ∧ (∀ s ∈ program', E.isPlain s = true) ∧
        program = program'.map E.cut) ∧
      (∀ d, less.1 = .error d → d.kind ≠ kind →
        more.1 = .error d ∧ more.2.cursor = less.2.cursor) ∧
      (∀ program, more.1 = .ok program → (∀ s ∈ program, E.isPlain s = true) →
        less.1 = .ok (program.map E.cut)) ∧
      ∀ d, more.1 = .error d → d.kind ≠ kind := by
  have h := E.compared (lastPosition tokens) (tokens.drop cursor)
  simp only [Parser.parse]
  generalize State.start.run small (lastPosition tokens) (tokens.drop cursor) = less at h ⊢
  generalize State.start.run large (lastPosition tokens) (tokens.drop cursor) = more at h ⊢
  cases h with
  | read hplain =>
    refine ⟨?_, ?_, ?_, ?_⟩
    · intro result hresult
      cases hresult
      exact ⟨_, rfl, rfl, hplain, rfl⟩
    · intro d hd
      cases hd
    · intro result hresult _
      cases hresult
      rfl
    · intro d hd
      cases hd
  | refused hne =>
    refine ⟨?_, fun d hd _ => ⟨hd, rfl⟩, ?_, ?_⟩
    · intro result hresult
      cases hresult
    · intro result hresult
      cases hresult
    · intro d hd
      cases hd
      exact hne
  | parted hkind _ _ _ _ hok herror =>
    refine ⟨?_, ?_, ?_, ?_⟩
    · intro result hresult
      cases hresult
    · intro d hd hne
      cases hd
      exact absurd hkind hne
    · intro result hresult hplain
      obtain ⟨s, hs, hnot⟩ := hok result (mapError_eq_ok.mp hresult)
      rw [hplain s hs] at hnot
      cases hnot
    · intro d hd
      obtain ⟨fault, hfault, rfl⟩ := mapError_eq_error.mp hd
      exact herror fault hfault

/-- A report of that kind stands at a token where the two grammars part. -/
theorem exists_parts {tokens : List Token} {cursor : Nat} {d : Diagnostic}
    (h : (Parser.mk tokens small cursor).parse.1 = .error d) (hk : d.kind = kind) :
    ∃ skipped before after t s, tokens = skipped ++ (before ++ t :: after) ∧
      (Parser.mk tokens small cursor).parse.2.cursor = skipped.length + before.length ∧
      State.start.takeAll? small before = some (E.view s) ∧
      State.start.takeAll? large before = some s ∧ E.Parts s t := by
  have hcompared := E.compared (lastPosition tokens) (tokens.drop cursor)
  simp only [Parser.parse] at h ⊢
  generalize State.start.run small (lastPosition tokens) (tokens.drop cursor) = less
    at h hcompared ⊢
  generalize State.start.run large (lastPosition tokens) (tokens.drop cursor) = more at hcompared
  cases hcompared with
  | read _ => cases h
  | refused hne =>
    cases h
    exact absurd hk hne
  | @parted before after t s _ _ _ hts hsmall hlarge hparts _ _ =>
    have hcursor : cursor ≤ tokens.length := by
      have hlength := congrArg List.length hts
      rw [List.length_drop, List.length_append, List.length_cons] at hlength
      omega
    refine ⟨tokens.take cursor, before, after, t, s, ?_, ?_, hsmall, hlarge, hparts⟩
    · rw [← hts, List.take_append_drop]
    · rw [List.length_take_of_le hcursor]

end Extension

end ShaderFront
