/-!
# Byte text

Source text, messages and printed trees are lists of bytes. A source file need not
be valid UTF-8, and whatever bytes it holds must survive into what is printed, so
bytes rather than characters are the common currency of the library.
-/

namespace ShaderFront

/-- Text as a list of bytes, not necessarily valid UTF-8. -/
abbrev Bytes := List UInt8

/-- The UTF-8 bytes of a string. -/
def utf8 (s : String) : Bytes :=
  s.toList.flatMap String.utf8EncodeChar

/-- The byte that ends a line. -/
def lineFeed : UInt8 := 0x0a

/-- The byte that some sources put before a line feed. -/
def carriageReturn : UInt8 := 0x0d

/-- The byte of a blank. -/
def blank : UInt8 := 0x20

/-- A row of blanks. -/
def blanks (n : Nat) : Bytes :=
  List.replicate n blank

@[simp] theorem length_blanks (n : Nat) : (blanks n).length = n := by
  simp [blanks]

/-- Pad on the left with blanks up to a width; longer text is left alone. -/
def padLeft (width : Nat) (t : Bytes) : Bytes :=
  blanks (width - t.length) ++ t

/-- The parts of a text between the occurrences of a separating byte. There is always at
least one, and a text that ends in the separator has an empty last part. -/
def splitAtByte (separator : UInt8) : Bytes → List Bytes
  | [] => [[]]
  | b :: rest =>
    if b = separator then [] :: splitAtByte separator rest
    else match splitAtByte separator rest with
      | [] => [[b]]
      | part :: more => (b :: part) :: more

/-- A text has one part more than it has separators. -/
theorem length_splitAtByte (separator : UInt8) (t : Bytes) :
    (splitAtByte separator t).length = t.count separator + 1 := by
  induction t with
  | nil => rfl
  | cons b rest ih =>
    by_cases h : b = separator
    · simp [splitAtByte, h, ih]
    · cases hs : splitAtByte separator rest with
      | nil => simp [hs] at ih
      | cons part more => simpa [splitAtByte, h, hs, List.count_cons] using ih

/-- A text without separators is its only part. -/
theorem splitAtByte_of_notMem {separator : UInt8} {t : Bytes} (h : separator ∉ t) :
    splitAtByte separator t = [t] := by
  induction t with
  | nil => rfl
  | cons b rest ih =>
    have hb : b ≠ separator := fun he => h (he ▸ List.mem_cons_self)
    have hrest : separator ∉ rest := fun hm => h (List.mem_cons_of_mem b hm)
    simp [splitAtByte, hb, ih hrest]

/-- The parts before a separator and those after it are the parts of the whole. -/
theorem splitAtByte_append (separator : UInt8) (s t : Bytes) :
    splitAtByte separator (s ++ separator :: t) =
      splitAtByte separator s ++ splitAtByte separator t := by
  induction s with
  | nil => simp [splitAtByte]
  | cons b rest ih =>
    by_cases hb : b = separator
    · simp [splitAtByte, hb, ih]
    · have hlength := length_splitAtByte separator rest
      cases hs : splitAtByte separator rest with
      | nil => simp [hs] at hlength
      | cons part more => simp [splitAtByte, hb, ih, hs]

/-- The lines of a text. -/
def splitLines (t : Bytes) : List Bytes :=
  splitAtByte lineFeed t

/-- A line without the carriage returns at its end. -/
def trimReturns (line : Bytes) : Bytes :=
  (line.reverse.dropWhile (· = carriageReturn)).reverse

end ShaderFront
