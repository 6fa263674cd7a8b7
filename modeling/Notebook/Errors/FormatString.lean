import Notebook.Model.NotebookUtils

/-!
# Formatting a message

What `notebook_format_string` leaves in the message, against the rendered text. The
stack buffer holds every text that is shorter than it. A longer text is rendered into
the heap with a size that leaves no room for its last byte, and when the heap is
exhausted the terminator of the stack buffer is taken for a byte of the text.
-/

namespace Notebook

/-- What the message should be: the rendered text, or what the stack buffer can hold of
it when a longer text cannot be put on the heap. -/
def faithfulText (allocates : Bool) (rendered : Bytes) : Bytes :=
  if allocates ∨ rendered.length < bufferMaxLength then rendered
  else rendered.take (bufferMaxLength - 1)

/-- A buffer holds what the size admits, then a terminator. -/
theorem take_vsnprintf {capacity size : Nat} (rendered : Bytes) {count : Nat}
    (hasSize : 0 < size)
    (fits : count ≤ size - 1)
    (short : count ≤ rendered.length) :
    (vsnprintf capacity size rendered).take count = rendered.take count := by
  rw [vsnprintf, if_neg (Nat.ne_of_gt hasSize), List.append_assoc,
    List.take_append_of_le_length, List.take_take, Nat.min_eq_left fits]
  rw [List.length_take]
  omega

/-- A buffer that was filled ends in the terminator. -/
theorem take_vsnprintf_full {capacity size : Nat} (rendered : Bytes)
    (hasSize : 0 < size)
    (filled : size - 1 ≤ rendered.length) :
    (vsnprintf capacity size rendered).take size = rendered.take (size - 1) ++ [0] := by
  have stored : (rendered.take (size - 1) ++ [(0 : UInt8)]).length = size := by
    rw [List.length_append, List.length_take, Nat.min_eq_left filled, List.length_singleton]
    omega
  rw [vsnprintf, if_neg (Nat.ne_of_gt hasSize)]
  exact List.take_left' stored

/-- A text that is shorter than the stack buffer is formatted faithfully. -/
theorem notebookFormatString_of_short {allocates : Bool} {rendered : Bytes}
    (short : rendered.length < bufferMaxLength) :
    notebookFormatString allocates rendered = rendered := by
  have fits : rendered.length ≤ bufferMaxLength - 1 := by omega
  unfold notebookFormatString
  rw [if_pos short, take_vsnprintf rendered (by decide) fits (Nat.le_refl _),
    List.take_length]

/-- A longer text loses its last byte to the terminator on the heap. -/
theorem notebookFormatString_of_allocated {rendered : Bytes}
    (long : bufferMaxLength ≤ rendered.length) :
    notebookFormatString true rendered = rendered.dropLast ++ [0] := by
  have hasSize : 0 < rendered.length := Nat.lt_of_lt_of_le (by decide) long
  unfold notebookFormatString
  simp only
  rw [if_neg (Nat.not_lt_of_le long), if_pos trivial,
    take_vsnprintf_full rendered hasSize (Nat.sub_le _ _), List.dropLast_eq_take]

/-- Without the heap a longer text ends in the terminator of the stack buffer. -/
theorem notebookFormatString_of_exhausted {rendered : Bytes}
    (long : bufferMaxLength ≤ rendered.length) :
    notebookFormatString false rendered = rendered.take (bufferMaxLength - 1) ++ [0] := by
  unfold notebookFormatString
  simp only
  rw [if_neg (Nat.not_lt_of_le long), if_neg (by simp),
    take_vsnprintf_full rendered (by decide) (by omega)]

/-- Formatting is faithful exactly for the texts that are shorter than the stack buffer,
and for longer ones that end in a terminator of their own and are put on the heap. -/
theorem notebookFormatString_faithful_iff (allocates : Bool) (rendered : Bytes) :
    notebookFormatString allocates rendered = faithfulText allocates rendered ↔
      rendered.length < bufferMaxLength ∨
        (allocates = true ∧ rendered.getLast? = some 0) := by
  by_cases short : rendered.length < bufferMaxLength
  · rw [notebookFormatString_of_short short, faithfulText, if_pos (Or.inr short)]
    exact iff_of_true rfl (Or.inl short)
  · have long : bufferMaxLength ≤ rendered.length := Nat.le_of_not_lt short
    cases allocates with
    | true =>
        rw [notebookFormatString_of_allocated long, faithfulText, if_pos (Or.inl rfl)]
        constructor
        · intro same
          right
          rw [← same]
          simp
        · rintro (isShort | ⟨_, last⟩)
          · exact absurd isShort short
          · exact List.dropLast_append_getLast? 0 last
    | false =>
        rw [notebookFormatString_of_exhausted long, faithfulText, if_neg (by simp [short])]
        constructor
        · intro same
          have lengths := congrArg List.length same
          simp at lengths
        · rintro (isShort | ⟨allocated, _⟩)
          · exact absurd isShort short
          · cases allocated

/-- A text of as many letters as the stack buffer has bytes loses its last letter on the
heap, and gains a terminator without it. -/
theorem notebookFormatString_at_limit :
    notebookFormatString true (List.replicate 256 97) = List.replicate 255 97 ++ [0] ∧
      faithfulText true (List.replicate 256 97) = List.replicate 256 97 ∧
      notebookFormatString false (List.replicate 256 97) = List.replicate 255 97 ++ [0] ∧
      faithfulText false (List.replicate 256 97) = List.replicate 255 97 := by
  decide +kernel

end Notebook
