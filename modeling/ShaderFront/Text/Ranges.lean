/-!
# Sets of code points

A class of characters is given by an ordered list of ranges of code points, both
ends included.
-/

namespace ShaderFront

/-- Is the number in one of the ranges? The ranges are in increasing order, so the
search stops at the first one that starts beyond the number. -/
def covers : List (Nat × Nat) → Nat → Bool
  | [], _ => false
  | (first, last) :: rest, n =>
    if n < first then false
    else if n ≤ last then true
    else covers rest n

/-- A number that is found lies in one of the ranges. -/
theorem exists_of_covers {ranges : List (Nat × Nat)} {n : Nat} (h : covers ranges n = true) :
    ∃ r ∈ ranges, r.1 ≤ n ∧ n ≤ r.2 := by
  induction ranges with
  | nil => simp [covers] at h
  | cons r rest ih =>
    obtain ⟨first, last⟩ := r
    simp only [covers] at h
    split at h
    · simp at h
    · split at h
      · exact ⟨(first, last), by simp, by simp; omega⟩
      · obtain ⟨r, hr, hn⟩ := ih h
        exact ⟨r, by simp [hr], hn⟩

end ShaderFront
