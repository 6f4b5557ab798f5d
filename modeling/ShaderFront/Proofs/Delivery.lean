import ShaderFront.Tree.Printing

/-!
# What a limited receiver gets

Printing hands over bytes in chunks, and the outcome of a chunk is looked at by nobody but
the buffer. All the same the receiver gets what it would get if the whole text were handed
over at once, and a failure on the way is reported at the end.
-/

namespace ShaderFront

/-! ## Receivers -/

/-- Hand over more bytes after an earlier outcome, unless that was a failure. -/
def Receiver.giveMore (x : Receiver × Bool) (t : Bytes) : Receiver × Bool :=
  if x.2 then x.1.give t else x

namespace Receiver

/-- A receiver that has failed is full. -/
theorem room_give_of_failed {r : Receiver} {t : Bytes} (h : (r.give t).2 = false) :
    r.room < t.length ∧ (r.give t).1 = ⟨0, r.taken ++ t.take r.room⟩ := by
  have hlt : r.room < t.length := by simpa [give] using h
  refine ⟨hlt, ?_⟩
  rw [give, Nat.sub_eq_zero_of_le (Nat.le_of_lt hlt)]

/-- Bytes may be handed over in two parts. -/
theorem give_append (r : Receiver) (t u : Bytes) : r.give (t ++ u) = giveMore (r.give t) u := by
  rw [giveMore]
  cases hok : (r.give t).2 with
  | true =>
    have hle : t.length ≤ r.room := by simpa [give] using hok
    have htake : (t ++ u).take r.room = t.take r.room ++ u.take (r.room - t.length) :=
      List.take_append
    have hiff : t.length + u.length ≤ r.room ↔ u.length ≤ r.room - t.length := by omega
    rw [if_pos rfl, give, give, give, htake, List.length_append, Nat.sub_add_eq,
      List.append_assoc, decide_eq_decide.mpr hiff]
  | false =>
    obtain ⟨hlt, hfull⟩ := room_give_of_failed hok
    have htake : (t ++ u).take r.room = t.take r.room :=
      List.take_append_of_le_length (Nat.le_of_lt hlt)
    have hmore : r.room < t.length + u.length := by omega
    rw [if_neg (by decide), Prod.ext_iff, hfull, hok, give, htake, List.length_append,
      Nat.sub_eq_zero_of_le (Nat.le_of_lt hmore)]
    exact ⟨rfl, decide_eq_false (Nat.not_le_of_lt hmore)⟩

theorem giveMore_append (x : Receiver × Bool) (t u : Bytes) :
    giveMore x (t ++ u) = giveMore (giveMore x t) u := by
  obtain ⟨r, ok⟩ := x
  cases ok with
  | true => exact give_append r t u
  | false => rfl

theorem giveMore_nil (x : Receiver × Bool) : giveMore x [] = x := by
  obtain ⟨⟨room, taken⟩, ok⟩ := x
  cases ok <;> simp [giveMore, give]

end Receiver

/-! ## Buffers -/

open Receiver

namespace Buffer

/-- What comes out if nothing is written any more. -/
def outcome (b : Buffer) : Receiver × Bool :=
  giveMore (b.receiver, !b.failed) b.pending

/-- A flush brings the outcome about. -/
theorem flush_eq_outcome (b : Buffer) : (b.flush.receiver, !b.flush.failed) = b.outcome := by
  obtain ⟨pending, receiver, failed⟩ := b
  cases failed <;> simp [flush, outcome, giveMore]

/-- A flush does not change the outcome. -/
theorem outcome_flush (b : Buffer) : b.flush.outcome = b.outcome := by
  cases hfailed : b.failed with
  | true => rw [flush, if_pos hfailed]
  | false =>
    rw [outcome, flush_eq_outcome, pending_flush (by simp [hfailed]), giveMore_nil]

/-- What waits together with more bytes is handed over in this order. -/
theorem outcome_wait (b : Buffer) (t : Bytes) :
    outcome { b with pending := b.pending ++ t } = giveMore b.outcome t :=
  giveMore_append _ _ _

/-- Writing adds to the outcome, however the bytes are cut into chunks. -/
theorem outcome_write (b : Buffer) (t : Bytes) : (b.write t).outcome = giveMore b.outcome t := by
  fun_induction write b t with
  | case1 b t hfailed => simp [outcome, giveMore, hfailed]
  | case2 b t hfailed hfits => exact outcome_wait b t
  | case3 b t hfailed hfits space ih =>
    rw [ih, outcome_flush, outcome_wait, ← giveMore_append, List.take_append_drop]

/-- Writing piece by piece is writing all at once. -/
theorem outcome_foldl_write (b : Buffer) (pieces : List Bytes) :
    (pieces.foldl write b).outcome = giveMore b.outcome pieces.flatten := by
  induction pieces generalizing b with
  | nil => exact (giveMore_nil _).symm
  | cons t pieces ih =>
    rw [List.foldl_cons, ih, outcome_write, ← giveMore_append, List.flatten_cons]

end Buffer

/-! ## Programs -/

theorem flatten_pieces (lines : List Line) :
    (lines.flatMap Line.pieces).flatten = lines.flatMap Line.text := by
  induction lines with
  | nil => rfl
  | cons l lines ih =>
    rw [List.flatMap_cons, List.flatten_append, ih, List.flatMap_cons]
    simp [Line.pieces, Line.text]

/-- Printing is handing over the whole dump. -/
theorem print_eq_give (program : List Stmt) (r : Receiver) :
    print program r = r.give (dump program) := by
  have hstart : Buffer.outcome { receiver := r } = (r, true) := giveMore_nil _
  rw [print, Buffer.flush_eq_outcome, Buffer.outcome_foldl_write, hstart, flatten_pieces]
  rfl

/-- A receiver gets as much of the dump as it has room for, from the start on and behind what it
took before, and printing fails if and only if something is left. -/
theorem print_limited (program : List Stmt) (r : Receiver) :
    (print program r).1.taken = r.taken ++ (dump program).take (min r.room (dump program).length) ∧
      ((print program r).2 = false ↔ r.room < (dump program).length) := by
  rw [print_eq_give, Receiver.give, List.take_eq_take_min]
  exact ⟨rfl, by simp⟩

/-- A program of two lines. -/
def twoLineProgram : List Stmt :=
  [.expr (.ident (utf8 "x") .nowhere) .nowhere]

/-- The room ends within the second line. -/
theorem print_limited_cut :
    dump twoLineProgram = utf8 "Expr\n  Ident x\n" ∧
      (print twoLineProgram { room := 9 }).1.taken = utf8 "Expr\n  Id" ∧
      (print twoLineProgram { room := 9 }).2 = false := by
  have hdump : dump twoLineProgram = utf8 "Expr\n  Ident x\n" := by decide
  obtain ⟨htaken, hfails⟩ := print_limited twoLineProgram { room := 9 }
  rw [hdump] at htaken hfails
  exact ⟨hdump, htaken, hfails.2 (by decide)⟩

end ShaderFront
