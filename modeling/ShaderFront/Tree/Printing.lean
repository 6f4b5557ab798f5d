import ShaderFront.Tree.Outline

/-!
# Printing to a limited receiver

An outline is printed piece by piece through a buffer to a receiver that may take
only so many bytes. Nobody looks at the outcome of a single piece: the buffer
remembers a failure, stays silent after it, and reports it at the end.
-/

namespace ShaderFront

/-- A receiver of bytes that fails once it is full. -/
structure Receiver where
  /-- How many more bytes it takes. -/
  room : Nat
  /-- The bytes that it took. -/
  taken : Bytes := []
  deriving DecidableEq, Repr

namespace Receiver

/-- Hand over bytes. The receiver takes what it has room for, and fails if something
is left. -/
def give (r : Receiver) (t : Bytes) : Receiver × Bool :=
  (⟨r.room - t.length, r.taken ++ t.take r.room⟩, decide (t.length ≤ r.room))

end Receiver

/-- A buffer in front of a receiver. -/
structure Buffer where
  /-- The bytes that wait to be handed over. -/
  pending : Bytes := []
  /-- Where they go. -/
  receiver : Receiver
  /-- Did the receiver fail? -/
  failed : Bool := false
  deriving DecidableEq, Repr

namespace Buffer

/-- How many bytes may wait. -/
def capacity : Nat := 4096

/-- Hand over what waits, unless the receiver failed before. -/
def flush (b : Buffer) : Buffer :=
  if b.failed then b
  else
    let (receiver, ok) := b.receiver.give b.pending
    ⟨[], receiver, !ok⟩

/-- After a flush nothing waits, unless the receiver failed before. -/
theorem pending_flush {b : Buffer} (h : ¬b.failed = true) : b.flush.pending = [] := by
  simp [flush, h]

/-- Add bytes to what waits. Whenever the buffer becomes full with some of them left, what
waits is handed over. After a failure bytes are dropped. -/
def write (b : Buffer) (t : Bytes) : Buffer :=
  if b.failed then b
  else if b.pending.length + t.length ≤ capacity then { b with pending := b.pending ++ t }
  else
    let space := capacity - b.pending.length
    { b with pending := b.pending ++ t.take space }.flush.write (t.drop space)
termination_by (t.length, b.pending.length)
decreasing_by
  rw [pending_flush ‹_›, List.length_drop, List.length_nil]
  have hfull : 0 < capacity := by decide
  -- Either some bytes find a place, or the buffer was full and is empty now.
  by_cases hspace : b.pending.length < capacity
  · exact .left _ _ (by omega)
  · rw [Nat.sub_eq_zero_of_le (Nat.le_of_not_lt hspace), Nat.sub_zero]
    exact .right _ (by omega)

end Buffer

/-- The pieces in which a line is written. -/
def Line.pieces (l : Line) : List Bytes :=
  [blanks (2 * l.depth), l.label, [lineFeed]]

/-- Print a program to a receiver. The answer is what the receiver took, and whether
it took everything. -/
def print (program : List Stmt) (receiver : Receiver) : Receiver × Bool :=
  let buffer : Buffer := { receiver := receiver }
  let written := ((outline program).flatMap Line.pieces).foldl Buffer.write buffer
  let done := written.flush
  (done.receiver, !done.failed)

end ShaderFront
