/-!
Occurrences of one text in another: finding, counting, splitting and replacing.

All of them go through `cut?`, the text before and the text after the leftmost occurrence, so
they agree on which occurrences they see.
-/

namespace Stepwise.Text

/-- The text before and the text after the leftmost occurrence of `part`. -/
def cut? (part : List Char) : List Char → Option (List Char × List Char)
  | [] => if part.isEmpty then some ([], []) else none
  | c :: rest =>
      if part.isPrefixOf (c :: rest) then some ([], (c :: rest).drop part.length)
      else (cut? part rest).map fun sides => (c :: sides.1, sides.2)

theorem eq_of_cut? {part text before after : List Char}
    (found : cut? part text = some (before, after)) : text = before ++ part ++ after := by
  induction text generalizing before with
  | nil =>
      by_cases empty : part.isEmpty = true
      · simp_all [cut?]
      · simp [cut?, empty] at found
  | cons c rest inductionHypothesis =>
      by_cases here : part.isPrefixOf (c :: rest) = true
      · simp only [cut?, here, if_true, Option.some.injEq, Prod.mk.injEq] at found
        obtain ⟨rfl, rfl⟩ := found
        have leading : part <+: c :: rest := by simpa using here
        obtain ⟨tail, equality⟩ := leading
        simp [← equality]
      · simp only [cut?, here] at found
        obtain ⟨sides, inner, equality⟩ := Option.map_eq_some_iff.mp found
        obtain ⟨rfl, rfl⟩ := Prod.mk.injEq .. ▸ equality
        simp [inductionHypothesis inner]

/-- What follows an occurrence of a part that is not empty is shorter than the text. -/
theorem length_lt_of_cut? {part text before after : List Char} (nonempty : part ≠ [])
    (found : cut? part text = some (before, after)) : after.length < text.length := by
  have positive : 0 < part.length := List.length_pos_iff.mpr nonempty
  have total := congrArg List.length (eq_of_cut? found)
  simp only [List.length_append] at total
  omega

/-- The number of characters before the leftmost occurrence of `part`. -/
def find? (part text : List Char) : Option Nat := (cut? part text).map fun sides => sides.1.length

def occurs (part text : List Char) : Bool := (cut? part text).isSome

/-- The pieces between the occurrences of a separator; an empty separator cuts nothing. -/
def split (separator text : List Char) : List (List Char) :=
  if _nonempty : separator ≠ [] then
    match _found : cut? separator text with
    | none => [text]
    | some (before, after) => before :: split separator after
  else [text]
termination_by text.length
decreasing_by exact length_lt_of_cut? _nonempty _found

/-- The pieces between the first `limit` occurrences of a separator. -/
def splitUpTo (separator : List Char) : Nat → List Char → List (List Char)
  | 0, text => [text]
  | limit + 1, text =>
      match cut? separator text with
      | none => [text]
      | some (before, after) => before :: splitUpTo separator limit after

/-- The number of occurrences that do not overlap.  The empty text occurs around every
character. -/
def count (part text : List Char) : Nat :=
  if _nonempty : part ≠ [] then
    match _found : cut? part text with
    | none => 0
    | some (_, after) => count part after + 1
  else text.length + 1
termination_by text.length
decreasing_by exact length_lt_of_cut? _nonempty _found

/-- The text with every occurrence of `old` replaced.  The empty text is replaced around every
character. -/
def replace (old new text : List Char) : List Char :=
  if _nonempty : old ≠ [] then
    match _found : cut? old text with
    | none => text
    | some (before, after) => before ++ new ++ replace old new after
  else new ++ text.flatMap fun c => c :: new
termination_by text.length
decreasing_by exact length_lt_of_cut? _nonempty _found

/-- The pieces joined by a separator. -/
def join (separator : List Char) (pieces : List (List Char)) : List Char :=
  separator.intercalate pieces

end Stepwise.Text
