import Mathlib.Order.Bounds.Basic
import Stepwise.Proofs.Slicing
import Stepwise.Proofs.Texts.Splitting

/-!
Finding a text in another.

The search, membership and slices agree on where a text occurs, and all of them count characters.  A
search of the bytes comes to the same place: the bytes of a text occur only where a character begins, so
the characters before the first occurrence in bytes are those before the first occurrence in characters.
-/

namespace Stepwise.Text

variable {part text : List Char} {position : Nat}

theorem find?_cons (part : List Char) (c : Char) (rest : List Char) :
    find? part (c :: rest) =
      if part.isPrefixOf (c :: rest) then some 0 else (find? part rest).map (· + 1) := by
  unfold find?
  rw [cut?]
  split
  · rfl
  · rw [Option.map_map, Option.map_map]
    rfl

theorem occurs_eq_isSome_find? : occurs part text = (find? part text).isSome := by
  rw [occurs, find?, Option.isSome_map]

theorem not_prefix_of_find? (absent : find? part text = none) (position : Nat) :
    ¬ part <+: text.drop position := by
  rw [find?, Option.map_eq_none_iff, cut?_eq_none_iff] at absent
  exact fun here => absent (here.isInfix.trans (List.drop_suffix position text).isInfix)

theorem isLeast_of_find? (found : find? part text = some position) :
    IsLeast {position | part <+: text.drop position} position := by
  induction text generalizing position with
  | nil =>
      obtain ⟨sides, cut, rfl⟩ := Option.map_eq_some_iff.mp found
      have parts := eq_of_cut? cut
      simp only [List.nil_eq, List.append_eq_nil_iff] at parts
      obtain ⟨⟨before, rfl⟩, -⟩ := parts
      rw [before]
      exact ⟨List.nil_prefix, fun _ _ => Nat.zero_le _⟩
  | cons c rest inductionHypothesis =>
      rw [find?_cons] at found
      split at found
      · rename_i here
        cases found
        exact ⟨List.isPrefixOf_iff_prefix.mp here, fun _ _ => Nat.zero_le _⟩
      · rename_i elsewhere
        obtain ⟨behind, inner, rfl⟩ := Option.map_eq_some_iff.mp found
        obtain ⟨occurs, least⟩ := inductionHypothesis inner
        refine ⟨occurs, fun other here => ?_⟩
        cases other with
        | zero => exact absurd (List.isPrefixOf_iff_prefix.mpr here) elsewhere
        | succ other => exact Nat.succ_le_succ (least here)

/-- A text starts with another exactly if it is found at the front. -/
theorem find?_eq_zero_iff : find? part text = some 0 ↔ part <+: text := by
  constructor
  · intro found
    exact (isLeast_of_find? found).1
  · intro leads
    cases found : find? part text with
    | none => exact absurd leads (not_prefix_of_find? found 0)
    | some position =>
        have first : position ≤ 0 := (isLeast_of_find? found).2 leads
        rw [Nat.le_zero.mp first]

theorem add_length_le_of_find? (found : find? part text = some position) :
    position + part.length ≤ text.length := by
  obtain ⟨sides, cut, rfl⟩ := Option.map_eq_some_iff.mp found
  have whole := congrArg List.length (eq_of_cut? cut)
  simp only [List.length_append] at whole
  omega

def bytes (text : List Char) : List UInt8 := text.flatMap String.utf8EncodeChar

theorem bytes_cons (c : Char) (rest : List Char) :
    bytes (c :: rest) = String.utf8EncodeChar c ++ bytes rest := rfl

theorem toByteArray_bytes (text : List Char) : (bytes text).toByteArray = text.utf8Encode := rfl

/-- Where the bytes of a text start with those of another, so do its characters. -/
theorem bytes_prefix_iff : bytes part <+: bytes text ↔ part <+: text := by
  constructor
  · rintro ⟨behind, whole⟩
    refine List.isPrefix_of_utf8Encode_append_eq_utf8Encode behind.toByteArray ?_
    rw [← toByteArray_bytes, ← toByteArray_bytes, ← whole, List.toByteArray_append]
  · rintro ⟨behind, rfl⟩
    exact ⟨bytes behind, List.flatMap_append.symm⟩

theorem bytes_append (front back : List Char) : bytes (front ++ back) = bytes front ++ bytes back :=
  List.flatMap_append

theorem bytes_filled (c : Char) : 0 < (String.utf8EncodeChar c).length := by
  rw [String.length_utf8EncodeChar]
  exact c.utf8Size_pos

theorem not_bytes_prefix_inside {c d : Char} {offset : Nat} (rest more : List Char) (inside : 0 < offset)
    (before : offset < (String.utf8EncodeChar c).length) :
    ¬ bytes (d :: more) <+: (bytes (c :: rest)).drop offset := by
  rintro ⟨behind, whole⟩
  have filled := bytes_filled d
  have first : (String.utf8EncodeChar d)[0] = (String.utf8EncodeChar c)[offset] := by
    have same : (bytes (d :: more) ++ behind)[0]? = ((bytes (c :: rest)).drop offset)[0]? :=
      congrArg (·[0]?) whole
    rw [bytes_cons, bytes_cons, List.append_assoc, List.getElem?_append_left filled,
      List.getElem?_drop, Nat.add_zero, List.getElem?_append_left before,
      List.getElem?_eq_getElem filled, List.getElem?_eq_getElem before] at same
    exact Option.some.inj same
  have leads : (String.utf8EncodeChar d)[0].IsUTF8FirstByte :=
    UInt8.isUTF8FirstByte_getElem_utf8EncodeChar.mpr rfl
  rw [first, UInt8.isUTF8FirstByte_getElem_utf8EncodeChar] at leads
  exact inside.ne' leads

theorem exists_of_bytes_prefix (filled : part ≠ []) {offset : Nat}
    (occurs : bytes part <+: (bytes text).drop offset) :
    ∃ position, offset = (bytes (text.take position)).length ∧ part <+: text.drop position := by
  obtain ⟨d, more, rfl⟩ := List.exists_cons_of_ne_nil filled
  induction text generalizing offset with
  | nil =>
      have short := occurs.length_le
      have := bytes_filled d
      rw [bytes_cons, List.length_append, List.length_drop] at short
      simp only [bytes, List.flatMap_nil, List.length_nil] at short
      omega
  | cons c rest inductionHypothesis =>
      rcases Nat.eq_zero_or_pos offset with rfl | inside
      · exact ⟨0, rfl, bytes_prefix_iff.mp occurs⟩
      rcases Nat.lt_or_ge offset (String.utf8EncodeChar c).length with before | behind
      · exact absurd occurs (not_bytes_prefix_inside rest more inside before)
      · rw [bytes_cons c, List.drop_append, List.drop_eq_nil_of_le behind, List.nil_append] at occurs
        obtain ⟨position, same, here⟩ := inductionHypothesis occurs
        refine ⟨position + 1, ?_, here⟩
        rw [List.take_succ_cons, bytes_cons, List.length_append, ← same]
        omega

theorem bytes_occur (here : part <+: text.drop position) :
    bytes part <+: (bytes text).drop (bytes (text.take position)).length := by
  have parts := bytes_append (text.take position) (text.drop position)
  rw [List.take_append_drop] at parts
  rw [parts, List.drop_left]
  exact bytes_prefix_iff.mpr here

/-- The characters before the first occurrence in bytes are those before the first one in characters. -/
theorem isLeast_bytes (first : IsLeast {position | part <+: text.drop position} position) :
    IsLeast {offset | bytes part <+: (bytes text).drop offset}
      (bytes (text.take position)).length := by
  refine ⟨bytes_occur first.1, fun offset here => ?_⟩
  by_cases filled : part = []
  · have front : position ≤ 0 := first.2 (by simp [filled])
    rw [Nat.le_zero.mp front]
    exact Nat.zero_le _
  · obtain ⟨other, rfl, there⟩ := exists_of_bytes_prefix filled here
    have before : position ≤ other := first.2 there
    have within : text.take position <+: text.take other := List.take_prefix_take_left before
    exact (bytes_prefix_iff.mpr within).length_le

theorem not_bytes_prefix_of_find? (absent : find? part text = none) (offset : Nat) :
    ¬ bytes part <+: (bytes text).drop offset := by
  intro here
  have filled : part ≠ [] := by
    rintro rfl
    exact not_prefix_of_find? absent 0 List.nil_prefix
  obtain ⟨position, -, there⟩ := exists_of_bytes_prefix filled here
  exact not_prefix_of_find? absent position there

end Stepwise.Text

namespace Stepwise

open Number Run

section

variable {α : Type} {items part : List α} {first last : Int64} {position : Nat}

theorem sliceStart_of_nonneg (length : Nat) (starts : first.toInt = position) :
    sliceStart length (some first) 1 = min length position := by
  simp only [sliceStart, clamped, starts]
  omega

theorem IsSlice.prefix_drop (isSlice : IsSlice items (some first) (some last) 1 part)
    (starts : first.toInt = position) : part <+: items.drop position := by
  refine List.prefix_iff_getElem?.mpr fun k inside => ?_
  have item := isSlice.item k
  rw [List.getElem?_eq_getElem inside, sliceStart_of_nonneg _ starts] at item
  split at item
  next before =>
    have within := isSlice.inside k (by rwa [sliceStart_of_nonneg _ starts])
    rw [sliceStart_of_nonneg _ starts] at within
    rw [List.getElem?_drop, item]
    congr 1
    omega
  next => cases item

theorem IsSlice.eq_of_prefix_drop {piece : List α}
    (isSlice : IsSlice items (some first) (some last) 1 piece) (starts : first.toInt = position)
    (stops : last.toInt = position + part.length) (here : part <+: items.drop position)
    (within : position + part.length ≤ items.length) : piece = part := by
  have stop : sliceStop items.length (some last) 1 = position + part.length := by
    simp only [sliceStop, clamped, stops]
    omega
  refine List.ext_getElem? fun k => ?_
  rw [isSlice.item, sliceStart_of_nonneg _ starts, stop]
  split
  next before =>
    have inside : k < part.length := by
      unfold Before at before
      omega
    rw [List.getElem?_eq_getElem inside, ← List.prefix_iff_getElem?.mp here k inside,
      List.getElem?_drop]
    congr 1
    omega
  next behind =>
    rw [List.getElem?_eq_none]
    unfold Before at behind
    omega

end

namespace Run

/-- Whether the slice of a string that starts at a position and is as long as another string is that
string.  The length and where the slice stops are computed as a script does. -/
def SliceIs (content part : String) (position : Nat) : Prop :=
  ∃ first length last : Int64, first.toInt = position ∧ ∀ heap : Heap,
    lengthOf (.str part) heap = some (.ok (.int length), heap) ∧
    binary .add (.int first) (.int length) heap = some (.ok (.int last), heap) ∧
    slice (.str content) (some (.int first)) (some (.int last)) none heap =
      some (.ok (.str part), heap)

theorem binary_add_int {first length last : Int64} (sum : last.toInt = first.toInt + length.toInt)
    (heap : Heap) :
    binary .add (.int first) (.int length) heap = some (.ok (.int last), heap) := by
  change numberValue (checked (bounded? (first.toInt + length.toInt))) heap = _
  rw [bounded?_eq_some_iff.mpr sum]
  rfl

theorem toInt_ofNat {n : Nat} (small : (n : Int) ≤ greatest) : (Int64.ofNat n).toInt = n := by
  simp only [greatest] at small
  exact Int64.toInt_ofNat_of_lt (by omega)

theorem strMethod_find (content part : String) (heap : Heap) :
    strMethod content "find" [.str part] heap =
      some (.ok (.int (((Text.find? part.toList content.toList).map Int64.ofNat).getD (-1))),
        heap) := by
  cases found : Text.find? part.toList content.toList with
  | none =>
      simp only [strMethod, textArgument, pure_bind, List.head?_cons, Option.getD_some, found]
      rfl
  | some position =>
      simp only [strMethod, textArgument, pure_bind, List.head?_cons, Option.getD_some, found]
      rfl

section

variable {content part : String} {position : Nat} (fits : (content.toList.length : Int) ≤ greatest)

include fits

theorem isSlice_of_slice {first last : Int64} {heap : Heap}
    (sliced : slice (.str content) (some (.int first)) (some (.int last)) none heap =
      some (.ok (.str part), heap)) :
    IsSlice content.toList (some first) (some last) 1 part.toList := by
  have isSlice := isSlice_sliceItems content.toList.toArray (by simpa using fits) (some first)
    (some last) 1
  have answer := (slice_str (.index rfl) (.index rfl) .absent nofun content heap).symm.trans sliced
  simp only [Option.some.injEq, Prod.mk.injEq, Except.ok.injEq, Value.str.injEq, and_true] at answer
  rw [← answer, String.toList_ofList]
  exact isSlice

theorem SliceIs.prefix_drop (slices : SliceIs content part position) :
    part.toList <+: content.toList.drop position := by
  obtain ⟨first, length, last, starts, computed⟩ := slices
  exact (isSlice_of_slice fits (computed .empty).2.2).prefix_drop starts

theorem sliceIs_of_prefix_drop (here : part.toList <+: content.toList.drop position)
    (within : position + part.toList.length ≤ content.toList.length) :
    SliceIs content part position := by
  have starts : (Int64.ofNat position).toInt = position := toInt_ofNat (by omega)
  have long : (Int64.ofNat part.length).toInt = part.toList.length := toInt_ofNat (by
    rw [← String.length_toList]
    omega)
  have stops : (Int64.ofNat (position + part.toList.length)).toInt =
      position + part.toList.length := by
    rw [toInt_ofNat (by omega), Int.natCast_add]
  refine ⟨_, _, _, starts, fun heap => ⟨rfl, binary_add_int (stops.trans (by rw [starts, long])) heap,
    ?_⟩⟩
  have isSlice := isSlice_sliceItems content.toList.toArray (by simpa using fits)
    (some (Int64.ofNat position)) (some (Int64.ofNat (position + part.toList.length))) 1
  have same := isSlice.eq_of_prefix_drop starts stops here within
  refine (slice_str (.index rfl) (.index rfl) .absent nofun content heap).trans ?_
  conv_rhs => rw [← String.ofList_toList (s := part), ← same]
  rfl

theorem isLeast_sliceIs (found : Text.find? part.toList content.toList = some position) :
    IsLeast {position | SliceIs content part position} position := by
  have first := Text.isLeast_of_find? found
  exact ⟨sliceIs_of_prefix_drop fits first.1 (Text.add_length_le_of_find? found),
    fun _ slices => first.2 (slices.prefix_drop fits)⟩

end

/-- The answer of `find` is the least position from where on a string has the other one as its slice, and
a search of the bytes comes to the same place: they come first behind those of the characters before that
position.  The answer is -1 exactly if the other one is not a member, and 0 exactly if the string starts
with it.  A string has at most as many characters as the greatest integer says. -/
theorem find_agrees (content part : String) (fits : (content.toList.length : Int) ≤ greatest)
    (depth : Nat) (heap : Heap) :
    ∃ (answer : Int64) (isMember starts : Bool),
      strMethod content "find" [.str part] heap = some (.ok (.int answer), heap) ∧
      comparison depth .member (.str part) (.str content) heap = some (.ok isMember, heap) ∧
      strMethod content "startswith" [.str part] heap = some (.ok (.bool starts), heap) ∧
      (∀ position : Nat, answer.toInt = position ↔
        IsLeast {position | SliceIs content part position} position) ∧
      (∀ position : Nat, answer.toInt = position →
        IsLeast {offset | Text.bytes part.toList <+: (Text.bytes content.toList).drop offset}
          (Text.bytes (content.toList.take position)).length) ∧
      (answer = -1 ↔ isMember = false) ∧
      (answer = -1 ↔ ∀ position, ¬ SliceIs content part position) ∧
      (answer = -1 ↔
        ∀ offset, ¬ Text.bytes part.toList <+: (Text.bytes content.toList).drop offset) ∧
      (starts = true ↔ answer = 0) := by
  refine ⟨_, Text.occurs part.toList content.toList, part.toList.isPrefixOf content.toList,
    strMethod_find content part heap, rfl, rfl, ?_⟩
  rw [Text.occurs_eq_isSome_find?, List.isPrefixOf_iff_prefix, ← Text.find?_eq_zero_iff]
  cases found : Text.find? part.toList content.toList with
  | none =>
      have nowhere (position : Nat) : ¬ SliceIs content part position := fun slices =>
        Text.not_prefix_of_find? found position (slices.prefix_drop fits)
      refine ⟨fun position => ⟨nofun, fun first => absurd first.1 (nowhere position)⟩, nofun, ?_, ?_,
        ?_, ?_⟩
      · simp
      · exact iff_of_true rfl nowhere
      · exact iff_of_true rfl (Text.not_bytes_prefix_of_find? found)
      · simp
  | some position =>
      have first := isLeast_sliceIs fits found
      have within := Text.add_length_le_of_find? found
      simp only [Option.map_some, Option.getD_some, Option.isSome_some, Option.some.injEq]
      have known : (Int64.ofNat position).toInt = position := toInt_ofNat (by omega)
      have present : Int64.ofNat position ≠ -1 := fun none => by
        rw [none] at known
        simp at known
      have inBytes := Text.isLeast_bytes (Text.isLeast_of_find? found)
      refine ⟨fun other => ?_, fun other same => ?_, by simp [present], ?_, ?_, ?_⟩
      · rw [known, Int.natCast_inj]
        exact ⟨fun same => same ▸ first, fun least => first.unique least⟩
      · obtain rfl : position = other := Int.natCast_inj.mp (known.symm.trans same)
        exact inBytes
      · exact iff_of_false present fun nowhere => nowhere position first.1
      · exact iff_of_false present fun nowhere => nowhere _ inBytes.1
      · rw [← Int64.toInt_inj, known]
        exact Int.natCast_eq_zero.symm

/-- Characters of one to four bytes. -/
theorem find_agrees_wide :
    (("aé€😀é😀x".toList.length : Nat) : Int) ≤ greatest ∧
      strMethod "aé€😀é😀x" "find" [.str "😀x"] .empty = some (.ok (.int 5), .empty) ∧
      IsLeast {position | SliceIs "aé€😀é😀x" "😀x" position} 5 ∧
      (Text.bytes ("aé€😀é😀x".toList.take 5)).length = 12 := by
  have fits : (("aé€😀é😀x".toList.length : Nat) : Int) ≤ greatest := by decide
  have finds : strMethod "aé€😀é😀x" "find" [.str "😀x"] .empty = some (.ok (.int 5), .empty) := by
    have found : Text.find? "😀x".toList "aé€😀é😀x".toList = some 5 := by decide
    rw [strMethod_find, found]
    rfl
  obtain ⟨answer, -, -, answers, -, -, least, -⟩ := find_agrees "aé€😀é😀x" "😀x" fits 0 .empty
  cases finds.symm.trans answers
  exact ⟨fits, finds, (least 5).mp rfl, by decide⟩

end Run

end Stepwise
