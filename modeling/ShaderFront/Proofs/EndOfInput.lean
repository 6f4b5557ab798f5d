import ShaderFront.Proofs.Calls

/-!
# The end of the input

A row of tokens is read up to its first end token. What stands behind that token has no
influence, and the end token itself only by its position. A row without an end token is
read as if one stood behind it, at the position of the last token.
-/

namespace ShaderFront

section

variable {o : Options} {ts rest rest' : List Token}

/-- A run sees of the end only where it stands. -/
theorem State.run_congr_end (o : Options) (s : State) (ts : List Token) {last last' : Position}
    (hr : headSymbol rest = .eof) (hr' : headSymbol rest' = .eof)
    (hp : headPosition last rest = headPosition last' rest') :
    s.run o last (ts ++ rest) = s.run o last' (ts ++ rest') ∧
      (s.run o last (ts ++ rest)).taken ≤ ts.length := by
  induction ts generalizing s with
  | nil =>
    rw [List.nil_append, List.nil_append, run_of_stopsAt last (stopsAt_of_eof hr),
      run_of_stopsAt last' (stopsAt_of_eof hr'), hr, hr', hp]
    exact ⟨rfl, Nat.le_refl 0⟩
  | cons t ts ih =>
    rw [List.cons_append, List.cons_append, run, run]
    by_cases he : t.symbol = .eof
    · rw [if_pos he, if_pos he]
      exact ⟨rfl, Nat.zero_le _⟩
    · rw [if_neg he, if_neg he]
      cases s.take? o t with
      | none => exact ⟨rfl, Nat.zero_le _⟩
      | some next =>
        obtain ⟨hrun, htaken⟩ := ih next
        dsimp only
        rw [← hrun]
        exact ⟨rfl, Nat.succ_le_succ htaken⟩

/-- Do the next calls of two parsers come to the same and leave their cursors at the same
place? -/
def Parser.CallsAlike (p q : Parser) : Prop :=
  p.parse.1 = q.parse.1 ∧ p.parse.2.cursor = q.parse.2.cursor

section

variable (hr : headSymbol rest = .eof) (hr' : headSymbol rest' = .eof)
  (hp : headPosition (lastPosition (ts ++ rest)) rest =
    headPosition (lastPosition (ts ++ rest')) rest')
include hr hr' hp

/-- Two rows with the same tokens before their ends, and with ends at the same position, are
read alike from any place before the end on. -/
theorem callsAlike_of_end {c : Nat} (hc : c ≤ ts.length) :
    (Parser.mk (ts ++ rest) o c).CallsAlike ⟨ts ++ rest', o, c⟩ ∧
      (Parser.mk (ts ++ rest) o c).parse.2.cursor ≤ ts.length := by
  obtain ⟨hrun, htaken⟩ := State.start.run_congr_end o (ts.drop c) hr hr' hp
  rw [List.length_drop] at htaken
  simp only [Parser.CallsAlike, Parser.parse, List.drop_append_of_le_length hc, ← hrun, true_and]
  omega

/-- So they are after any number of calls. -/
theorem callsAlike_afterCalls_of_end (n : Nat) :
    ((Parser.fresh o (ts ++ rest)).afterCalls n).CallsAlike
      ((Parser.fresh o (ts ++ rest')).afterCalls n) := by
  have hsame : ∃ c ≤ ts.length,
      (Parser.fresh o (ts ++ rest)).afterCalls n = ⟨ts ++ rest, o, c⟩ ∧
        (Parser.fresh o (ts ++ rest')).afterCalls n = ⟨ts ++ rest', o, c⟩ := by
    induction n with
    | zero => exact ⟨0, Nat.zero_le _, rfl, rfl⟩
    | succ n ih =>
      obtain ⟨c, hc, hleft, hright⟩ := ih
      obtain ⟨⟨-, hcursor⟩, hle⟩ := callsAlike_of_end (o := o) hr hr' hp hc
      refine ⟨_, hle, ?_, ?_⟩
      · rw [Parser.afterCalls, hleft]
        rfl
      · rw [Parser.afterCalls, hright, hcursor]
        rfl
  obtain ⟨c, hc, hleft, hright⟩ := hsame
  rw [hleft, hright]
  exact (callsAlike_of_end hr hr' hp hc).1

end

end

/-- A row of tokens is read as with an end token behind it that stands where the last token
does, or at no position if there is none. Behind an end token any tokens may follow. Neither
makes a difference to the result, be it a program or a diagnostic, or to the cursor, in any of
a number of calls. The tokens before may hold end tokens of their own. -/
theorem parse_end_of_input (o : Options) (ts : List Token) (e : Token) (he : e.symbol = .eof)
    (n : Nat) :
    (e.pos = (ts.getLast?.map Token.pos).getD ⟨0, 0⟩ →
      ((Parser.fresh o ts).afterCalls n).CallsAlike
        ((Parser.fresh o (ts ++ [e])).afterCalls n)) ∧
    ∀ behind : List Token,
      ((Parser.fresh o (ts ++ [e] ++ behind)).afterCalls n).CallsAlike
        ((Parser.fresh o (ts ++ [e])).afterCalls n) := by
  have hhead : ∀ behind, headSymbol (e :: behind) = .eof := fun _ => he
  constructor
  · intro hpos
    have hend : headPosition (lastPosition (ts ++ [])) [] =
        headPosition (lastPosition (ts ++ [e])) [e] := by
      rw [headPosition_nil, headPosition_cons, hpos, List.append_nil, lastPosition]
      cases ts.getLast? <;> rfl
    have halike := callsAlike_afterCalls_of_end (o := o) rfl (hhead []) hend n
    rwa [List.append_nil] at halike
  · intro behind
    rw [List.append_assoc]
    exact callsAlike_afterCalls_of_end (hhead behind) (hhead []) rfl n

/-- An assignment that breaks off. -/
def cutTokens : List Token :=
  [⟨.ident (utf8 "x"), utf8 "x", ⟨4, 2⟩⟩, ⟨.operator .assign, utf8 "=", ⟨4, 7⟩⟩]

/-- The whole assignment. -/
def wholeTokens : List Token :=
  cutTokens ++ [⟨.ident (utf8 "y"), utf8 "y", ⟨4, 9⟩⟩, ⟨.punct .semicolon, utf8 ";", ⟨4, 8⟩⟩]

/-- The tokens behind the end would complete the assignment, and are not read. With them
before the end it is read, and then it is the assignment that is not read again. -/
theorem parse_end_of_input_cut :
    ((∃ d, (Parser.fresh {} cutTokens).parse.1 = .error d ∧ d.span.start = ⟨4, 7⟩) ∧
      (Parser.fresh {} cutTokens).CallsAlike
        (Parser.fresh {} (cutTokens ++ [⟨.eof, utf8 "end", ⟨4, 7⟩⟩])) ∧
      (Parser.fresh {} (cutTokens ++ [⟨.eof, utf8 "end", ⟨4, 7⟩⟩] ++
          [⟨.ident (utf8 "y"), utf8 "y", ⟨4, 9⟩⟩,
            ⟨.punct .semicolon, utf8 ";", ⟨4, 8⟩⟩])).CallsAlike
        (Parser.fresh {} (cutTokens ++ [⟨.eof, utf8 "end", ⟨4, 7⟩⟩]))) ∧
    (∃ program, (Parser.fresh {} wholeTokens).parse.1 = .ok program ∧ program.length = 1) ∧
      (Parser.fresh {} wholeTokens).CallsAlike
        (Parser.fresh {} (wholeTokens ++ [⟨.eof, utf8 "end", ⟨4, 8⟩⟩])) ∧
      (Parser.fresh {} (wholeTokens ++ [⟨.eof, utf8 "end", ⟨4, 8⟩⟩] ++ wholeTokens)).CallsAlike
        (Parser.fresh {} (wholeTokens ++ [⟨.eof, utf8 "end", ⟨4, 8⟩⟩])) := by
  obtain ⟨hmissing, hbehind⟩ :=
    parse_end_of_input {} cutTokens ⟨.eof, utf8 "end", ⟨4, 7⟩⟩ rfl 0
  obtain ⟨hmissing', hbehind'⟩ :=
    parse_end_of_input {} wholeTokens ⟨.eof, utf8 "end", ⟨4, 8⟩⟩ rfl 0
  exact ⟨⟨⟨_, rfl, rfl⟩, hmissing rfl, hbehind _⟩, ⟨_, rfl, rfl⟩, hmissing' rfl, hbehind' _⟩

end ShaderFront
