import Stepwise.Exchange.Request
import Stepwise.Json.Writer
import Stepwise.Proofs.Lexing.Lexemes

/-!
Written values are read back.

The compact text of a value without doubles is read as the form that it was written in, whatever
comes behind it, and the form stands for the value.  So the text of a request is that request.
-/

namespace Stepwise.Json

open Script.Lexeme

def pieceOf (c : Char) : Piece :=
  if c.toNat < 32 ∧ c ∉ ['\x08', '\x0c', '\n', '\r', '\t'] then .unit c.toNat else .char c

theorem hexValue?_hexDigit (digit : Nat) (small : digit < 16) :
    Form.hexValue? (hexDigit digit) = some digit := by
  interval_cases digit <;> rfl

theorem readPieces_escape (c : Char) (rest : List Char) :
    Form.readPieces (escape c ++ rest) =
      (Form.readPieces rest).map fun read => (pieceOf c :: read.1, read.2) := by
  by_cases special : c ∈ ['"', '\\', '\x08', '\x0c', '\n', '\r', '\t']
  · simp only [List.mem_cons, List.not_mem_nil, or_false] at special
    rcases special with rfl | rfl | rfl | rfl | rfl | rfl | rfl <;>
    · simp only [escape, List.cons_append, List.nil_append, Form.readPieces]
      cases Form.readPieces rest <;> rfl
  · simp only [List.mem_cons, List.not_mem_nil, or_false, not_or] at special
    have form : escape c = if c.toNat < 32 then
        ['\\', 'u', '0', '0', hexDigit (c.toNat / 16), hexDigit (c.toNat % 16)] else [c] := by
      unfold escape
      split <;> simp_all
    rw [form]
    by_cases coded : c.toNat < 32
    · have piece : pieceOf c = .unit c.toNat := by simp [pieceOf, coded, special]
      have high := hexValue?_hexDigit (c.toNat / 16) (by omega)
      have low := hexValue?_hexDigit (c.toNat % 16) (by omega)
      have zero : Form.hexValue? '0' = some 0 := rfl
      have whole : ((0 * 16 + 0) * 16 + c.toNat / 16) * 16 + c.toNat % 16 = c.toNat := by omega
      rw [if_pos coded, piece]
      simp only [List.cons_append, List.nil_append, Form.readPieces, zero, high, low,
        Option.bind_eq_bind, Option.bind_some, whole]
      cases Form.readPieces rest <;> rfl
    · have piece : pieceOf c = .char c := by simp [pieceOf, coded]
      have allowed : (decide (32 ≤ c.toNat) && c != '\\') = true := by
        simp [special, Nat.le_of_not_lt coded]
      rw [if_neg coded, piece, List.singleton_append, Form.readPieces, allowed]
      · cases Form.readPieces rest <;> rfl
      all_goals simp [special]

theorem readPieces_quoted (text rest : List Char) :
    Form.readPieces (text.flatMap escape ++ '"' :: rest) = some (text.map pieceOf, rest) := by
  induction text with
  | nil => rfl
  | cons c text inductionHypothesis =>
      rw [List.flatMap_cons, List.append_assoc, readPieces_escape, inductionHypothesis]
      rfl

theorem textOfPieces?_pieces (text : List Char) : textOfPieces? (text.map pieceOf) = some text := by
  induction text with
  | nil => rfl
  | cons c text inductionHypothesis =>
      rw [List.map_cons, pieceOf]
      split
      next coded =>
        -- no escaped character is a surrogate
        have low := coded.1
        rw [textOfPieces?.eq_def]
        simp only [show ¬(0xD800 ≤ c.toNat ∧ c.toNat < 0xDC00) by omega,
          show ¬(0xDC00 ≤ c.toNat ∧ c.toNat < 0xE000) by omega, if_false, inductionHypothesis,
          Option.map_some, Char.ofNat_toNat]
      next => rw [textOfPieces?, inductionHypothesis, Option.map_some]

def closes : List Char → Bool
  | [] => true
  | c :: _ => c == ',' || c == ']' || c == '\x7d'

theorem closes_cons {c : Char} {rest : List Char} (ends : closes (c :: rest) = true) :
    c = ',' ∨ c = ']' ∨ c = '\x7d' := by
  simpa [closes, or_assoc] using ends

theorem exists_digits (n : Nat) :
    ∃ c rest, Number.digits n = c :: rest ∧ Text.isDigit c = true := by
  obtain ⟨c, rest, form⟩ := List.exists_cons_of_ne_nil (Nat.toDigits_ne_nil (b := 10) (n := n))
  exact ⟨c, rest, form, isDigit_of_mem_digits (n := n) (by simp [Number.digits, form])⟩

theorem readDigits_digits (n : Nat) {rest : List Char} (ends : closes rest = true) :
    Form.readDigits (Number.digits n ++ rest) = some (Number.digits n, rest) := by
  have inside : ∀ c ∈ Number.digits n, Text.isDigit c = true := fun c => isDigit_of_mem_digits
  have outside : rest.takeWhile Text.isDigit = [] ∧ rest.dropWhile Text.isDigit = rest := by
    cases rest with
    | nil => simp
    | cons c rest => rcases closes_cons ends with rfl | rfl | rfl <;> exact ⟨rfl, rfl⟩
  obtain ⟨first, more, form, -⟩ := exists_digits n
  have taken : (Number.digits n ++ rest).takeWhile Text.isDigit = first :: more := by
    rw [List.takeWhile_append_of_pos inside, outside.1, List.append_nil, form]
  have dropped : (Number.digits n ++ rest).dropWhile Text.isDigit = rest := by
    rw [List.dropWhile_append_of_pos inside, outside.2]
  rw [Form.readDigits, taken, dropped, form]

theorem head?_digits {n : Nat} (positive : 0 < n) : (Number.digits n).head? ≠ some '0' := by
  induction n using Nat.strongRecOn with
  | ind n inductionHypothesis =>
      by_cases small : n < 10
      · rw [Number.digits, Nat.toDigits_of_lt_base small]
        interval_cases n <;> decide
      · rw [Number.digits, Nat.toDigits_of_base_le (by decide) (by omega),
          List.head?_append_of_ne_nil _ Nat.toDigits_ne_nil]
        exact inductionHypothesis (n / 10) (by omega) (by omega)

def integerForm (n : Int) : NumberForm := ⟨decide (n < 0), Number.digits n.natAbs, [], none⟩

/-- The digits of an integer, with or without a sign, are read as one whole number. -/
theorem readNumber_integerText (n : Int) {rest : List Char} (ends : closes rest = true) :
    Form.readNumber ((Number.integerText n).toList ++ rest) = some (integerForm n, rest) := by
  have digits := readDigits_digits n.natAbs ends
  have plain : ((Number.digits n.natAbs).length == 1 ||
      (Number.digits n.natAbs).head? != some '0') = true := by
    rcases Nat.eq_zero_or_pos n.natAbs with zero | positive
    · rw [zero]; rfl
    · simp [head?_digits positive]
  unfold Form.readNumber
  by_cases negative : n < 0
  · simp only [Number.integerText, negative, if_true, String.toList_ofList, List.cons_append,
      digits, Option.bind_eq_bind, Option.bind_some, plain, guard_true, integerForm]
    cases rest with
    | nil => rfl
    | cons c rest => rcases closes_cons ends with rfl | rfl | rfl <;> rfl
  · simp only [Number.integerText, negative, if_false, String.toList_ofList]
    split
    next more signed =>
      obtain ⟨first, others, form, digit⟩ := exists_digits n.natAbs
      rw [form] at signed
      cases signed
      exact absurd digit (by decide)
    next =>
      simp only [digits, Option.bind_eq_bind, Option.bind_some, plain, guard_true, integerForm,
        negative]
      cases rest with
      | nil => rfl
      | cons c rest => rcases closes_cons ends with rfl | rfl | rfl <;> rfl

theorem le_of_continueNatural? {text : List Char} {value n : Nat}
    (found : Number.continueNatural? 10 value text = some n) : value ≤ n := by
  induction text generalizing value with
  | nil => exact Nat.le_of_eq (Option.some.inj found)
  | cons c text inductionHypothesis =>
      rw [Number.continueNatural?] at found
      split at found
      next digit _ =>
        split at found
        · have := inductionHypothesis found
          omega
        · cases found
      next => cases found

theorem digitValue?_eq_some {c : Char} {digit : Nat} (found : Number.digitValue? c = some digit)
    (small : digit < 10) : c.toNat - '0'.toNat = digit := by
  unfold Number.digitValue? at found
  split at found
  · exact Option.some.inj found
  · split at found
    · have := Option.some.inj found
      omega
    · split at found
      · have := Option.some.inj found
        omega
      · cases found

theorem takeWhole_of_continueNatural? {text : List Char} {value n : Nat}
    (found : Number.continueNatural? 10 value text = some n) (fits : n ≤ significandLimit) :
    takeWhole value 0 text = (n, 0) := by
  induction text generalizing value with
  | nil => rw [takeWhole, Option.some.inj found]
  | cons c text inductionHypothesis =>
      have whole := found
      rw [Number.continueNatural?] at found
      split at found
      next digit shown =>
        split at found
        next small =>
          have next : value * 10 + digit ≤ significandLimit :=
            Nat.le_trans (le_of_continueNatural? found) fits
          rw [takeWhole, digitValue?_eq_some shown small, if_pos ⟨rfl, next⟩]
          exact inductionHypothesis found
        next => cases found
      next => cases found

theorem exists_bounded? {n : Int} (lower : Number.least ≤ n) (upper : n ≤ Number.greatest) :
    ∃ value, Number.bounded? n = some value ∧ value.toInt = n := by
  refine ⟨Int64.ofInt n, ?_, Number.toInt_ofInt_of_bounds lower upper⟩
  rw [Number.bounded?, if_pos ⟨lower, upper⟩]

theorem value?_integerForm {n : Int} (lower : Number.least ≤ n) (upper : n ≤ Number.greatest) :
    (integerForm n).value? = some (.int n) := by
  obtain ⟨value, bounded, same⟩ := exists_bounded? lower upper
  have taken : takeWhole 0 0 (Number.digits n.natAbs) = (n.natAbs, 0) := by
    apply takeWhole_of_continueNatural? (continueNatural?_digits n.natAbs)
    simp only [Number.least, Number.greatest] at lower upper
    rw [significandLimit]
    omega
  have signed : (if n < 0 then -(n.natAbs : Int) else n.natAbs) = n := by
    split <;> omega
  have nonzero : (decide (n < 0) && n.natAbs == 0) = false := by
    rw [Bool.and_eq_false_iff, decide_eq_false_iff_not, beq_eq_false_iff_ne]
    omega
  simp only [NumberForm.value?, integerForm, taken, List.isEmpty_nil, Option.isNone_none,
    Bool.and_self, beq_self_eq_true, if_true, nonzero, Bool.false_eq_true, if_false,
    decide_eq_true_eq, signed, bounded, same]

mutual

/-- Whether every number of a value is an integer of 64 bits. -/
def isWhole : Json → Bool
  | .int value => decide (Number.least ≤ value ∧ value ≤ Number.greatest)
  | .float _ => false
  | .array items => itemsWhole items
  | .object members => membersWhole members
  | _ => true

def itemsWhole : List Json → Bool
  | [] => true
  | item :: rest => item.isWhole && itemsWhole rest

def membersWhole : List (String × Json) → Bool
  | [] => true
  | (_, value) :: rest => value.isWhole && membersWhole rest

end

mutual

/-- The levels of arrays and objects in a value. -/
def nesting : Json → Nat
  | .array items => itemsNesting items + 1
  | .object members => membersNesting members + 1
  | _ => 0

def itemsNesting : List Json → Nat
  | [] => 0
  | item :: rest => max item.nesting (itemsNesting rest)

def membersNesting : List (String × Json) → Nat
  | [] => 0
  | (_, value) :: rest => max value.nesting (membersNesting rest)

end

mutual

/-- The form that a value is written in.  Doubles have no form here. -/
def form : Json → Form
  | .null | .float _ => .null
  | .bool value => .bool value
  | .int value => .number (integerForm value)
  | .str text => .str (text.toList.map pieceOf)
  | .array items => .array (itemForms items)
  | .object members => .object (memberForms members)

def itemForms : List Json → List Form
  | [] => []
  | item :: rest => item.form :: itemForms rest

def memberForms : List (String × Json) → List (List Piece × Form)
  | [] => []
  | (key, value) :: rest => (key.toList.map pieceOf, value.form) :: memberForms rest

end

mutual

theorem value?_form (json : Json) (whole : json.isWhole = true) {levels : Nat}
    (nested : json.nesting ≤ levels) : json.form.value? levels = some json := by
  cases json with
  | null => rfl
  | bool value => rfl
  | int value =>
      have bounds := of_decide_eq_true whole
      exact value?_integerForm bounds.1 bounds.2
  | float value => cases whole
  | str text =>
      rw [form, Form.value?, textOfPieces?_pieces, Option.map_some, String.ofList_toList]
  | array items =>
      rw [nesting] at nested
      rw [form, Form.value?, if_neg (by omega), itemsValue?_itemForms items whole (by omega),
        Option.map_some]
  | object members =>
      rw [nesting] at nested
      rw [form, Form.value?, if_neg (by omega), membersValue?_memberForms members whole (by omega),
        Option.map_some]

theorem itemsValue?_itemForms (items : List Json) (whole : itemsWhole items = true) {levels : Nat}
    (nested : itemsNesting items ≤ levels) : itemsValue? levels (itemForms items) = some items := by
  cases items with
  | nil => rfl
  | cons item rest =>
      rw [itemsWhole, Bool.and_eq_true] at whole
      rw [itemsNesting, Nat.max_le] at nested
      rw [itemForms, itemsValue?, value?_form item whole.1 nested.1,
        itemsValue?_itemForms rest whole.2 nested.2]
      rfl

theorem membersValue?_memberForms (members : List (String × Json))
    (whole : membersWhole members = true) {levels : Nat}
    (nested : membersNesting members ≤ levels) :
    membersValue? levels (memberForms members) = some members := by
  cases members with
  | nil => rfl
  | cons member rest =>
      rw [membersWhole, Bool.and_eq_true] at whole
      rw [membersNesting, Nat.max_le] at nested
      rw [memberForms, membersValue?, textOfPieces?_pieces, value?_form member.2 whole.1 nested.1,
        membersValue?_memberForms rest whole.2 nested.2]
      simp

end

theorem skipSpace_cons {c : Char} (visible : Form.isSpace c = false) (rest : List Char) :
    Form.skipSpace (c :: rest) = c :: rest := by
  rw [Form.skipSpace, List.dropWhile_cons, if_neg (by simp [visible])]

theorem integerText_starts (n : Int) :
    ∃ c rest, (Number.integerText n).toList = c :: rest ∧ (c = '-' ∨ Text.isDigit c = true) := by
  rw [Number.integerText, String.toList_ofList]
  split
  · exact ⟨_, _, rfl, .inl rfl⟩
  · obtain ⟨first, others, form, digit⟩ := exists_digits n.natAbs
    exact ⟨first, others, form, .inr digit⟩

theorem isSpace_of_number {c : Char} (opens : c = '-' ∨ Text.isDigit c = true) :
    Form.isSpace c = false := by
  rcases opens with rfl | digit
  · rfl
  · rw [Form.isSpace, Bool.or_eq_false_iff, Bool.or_eq_false_iff, Bool.or_eq_false_iff]
    simp only [beq_eq_false_iff_ne]
    refine ⟨⟨⟨?_, ?_⟩, ?_⟩, ?_⟩ <;> rintro rfl <;> exact absurd digit (by decide)

theorem compactText_starts (json : Json) (whole : json.isWhole = true) :
    ∃ c rest, compactText json = c :: rest ∧ Form.isSpace c = false ∧ c ≠ ']' := by
  cases json with
  | null => exact ⟨_, _, rfl, rfl, by decide⟩
  | bool value => cases value <;> exact ⟨_, _, rfl, rfl, by decide⟩
  | int value =>
      obtain ⟨c, rest, form, opens⟩ := integerText_starts value
      refine ⟨c, rest, form, isSpace_of_number opens, ?_⟩
      rintro rfl
      exact absurd opens (by decide)
  | float value => cases whole
  | str text => exact ⟨_, _, rfl, rfl, by decide⟩
  | array items => exact ⟨_, _, rfl, rfl, by decide⟩
  | object members => exact ⟨_, _, rfl, rfl, by decide⟩

theorem readValue_integerText (n : Int) (fuel : Nat) {rest : List Char}
    (ends : closes rest = true) :
    Form.readValue (fuel + 1) ((Number.integerText n).toList ++ rest) =
      some (.number (integerForm n), rest) := by
  obtain ⟨c, more, form, opens⟩ := integerText_starts n
  have read := readNumber_integerText n ends
  rw [form, List.cons_append] at read ⊢
  rw [Form.readValue, skipSpace_cons (isSpace_of_number opens)]
  dsimp only
  split
  iterate 6 next => exact absurd opens (by decide)
  next => rw [read]; rfl

theorem compactItems_cons_cons (item next : Json) (rest : List Json) :
    compactItems (item :: next :: rest) =
      compactText item ++ ',' :: compactItems (next :: rest) := rfl

theorem compactItems_starts (item : Json) (items : List Json) (whole : item.isWhole = true) :
    ∃ c rest, compactItems (item :: items) = c :: rest ∧ Form.isSpace c = false ∧ c ≠ ']' := by
  obtain ⟨c, rest, form, visible, inner⟩ := compactText_starts item whole
  cases items with
  | nil => exact ⟨c, rest, form, visible, inner⟩
  | cons next items =>
      exact ⟨c, rest ++ ',' :: compactItems (next :: items),
        by rw [compactItems_cons_cons, form, List.cons_append], visible, inner⟩

theorem compactMembers_starts (member : String × Json) (members : List (String × Json)) :
    ∃ rest, compactMembers (member :: members) = '"' :: rest := by
  cases members with
  | nil => exact ⟨_, rfl⟩
  | cons next members => exact ⟨_, rfl⟩

-- Reading goes down one step for a value and one more for the list that it is in.  Each of the two has
-- a character of its own, the first one of the value and the one behind it.
mutual

/-- The text of a value is read as its form, if there is fuel for two steps a character. -/
theorem readValue_compactText (json : Json) (fuel : Nat) (rest : List Char)
    (whole : json.isWhole = true) (enough : 2 * (compactText json).length ≤ fuel)
    (ends : closes rest = true) :
    Form.readValue fuel (compactText json ++ rest) = some (json.form, rest) := by
  have filled : 0 < (compactText json).length := by
    obtain ⟨first, others, shape, -, -⟩ := compactText_starts json whole
    simp [shape]
  obtain ⟨fuel, rfl⟩ : ∃ less, fuel = less + 1 := ⟨fuel - 1, by omega⟩
  cases json with
  | null => rfl
  | bool value => cases value <;> rfl
  | int value => exact readValue_integerText value fuel ends
  | float value => cases whole
  | str text =>
      have text : compactText (.str text) ++ rest =
          '"' :: (text.toList.flatMap escape ++ '"' :: rest) := by
        simp [compactText, scalarText, quoted]
      rw [text]
      simp [Form.readValue, skipSpace_cons, Form.isSpace, readPieces_quoted, form]
  | array items =>
      have text : compactText (.array items) ++ rest =
          '[' :: (compactItems items ++ ']' :: rest) := by
        simp [compactText]
      have size : (compactText (.array items)).length = (compactItems items).length + 2 := by
        simp [compactText]
      rw [text]
      cases items with
      | nil => rfl
      | cons item items =>
          have firstWhole : item.isWhole = true := by
            simp only [isWhole, itemsWhole, Bool.and_eq_true] at whole
            exact whole.1
          obtain ⟨c, more, starts, visible, inner⟩ := compactItems_starts item items firstWhole
          have read := readItems_compactItems (item :: items) fuel rest (List.cons_ne_nil _ _) whole
            (by omega)
          have unspaced := skipSpace_cons visible (more ++ ']' :: rest)
          rw [starts, List.cons_append] at read ⊢
          simp [Form.readValue, skipSpace_cons, Form.isSpace, unspaced, inner, read, form]
  | object members =>
      have text : compactText (.object members) ++ rest =
          '\x7b' :: (compactMembers members ++ '\x7d' :: rest) := by
        simp [compactText]
      have size : (compactText (.object members)).length = (compactMembers members).length + 2 := by
        simp [compactText]
      rw [text]
      cases members with
      | nil => rfl
      | cons member members =>
          obtain ⟨more, starts⟩ := compactMembers_starts member members
          have read := readMembers_compactMembers (member :: members) fuel rest
            (List.cons_ne_nil _ _) whole (by omega)
          rw [starts, List.cons_append] at read ⊢
          simp [Form.readValue, skipSpace_cons, Form.isSpace, read, form]

theorem readItems_compactItems (items : List Json) (fuel : Nat) (rest : List Char)
    (filled : items ≠ []) (whole : itemsWhole items = true)
    (enough : 2 * (compactItems items).length + 1 ≤ fuel) :
    Form.readItems fuel (compactItems items ++ ']' :: rest) = some (itemForms items, rest) := by
  obtain ⟨fuel, rfl⟩ : ∃ less, fuel = less + 1 := ⟨fuel - 1, by omega⟩
  cases items with
  | nil => exact absurd rfl filled
  | cons item others =>
      rw [itemsWhole, Bool.and_eq_true] at whole
      cases others with
      | nil =>
          rw [compactItems] at enough ⊢
          have read := readValue_compactText item fuel (']' :: rest) whole.1 (by omega) rfl
          simp [Form.readItems, read, skipSpace_cons, Form.isSpace, itemForms]
      | cons next others =>
          have text : compactItems (item :: next :: others) ++ ']' :: rest =
              compactText item ++ ',' :: (compactItems (next :: others) ++ ']' :: rest) := by
            simp [compactItems_cons_cons]
          have size : (compactItems (item :: next :: others)).length =
              (compactText item).length + (compactItems (next :: others)).length + 1 := by
            simp [compactItems_cons_cons]
            omega
          have readFirst := readValue_compactText item fuel
            (',' :: (compactItems (next :: others) ++ ']' :: rest)) whole.1 (by omega) rfl
          have readOthers := readItems_compactItems (next :: others) fuel rest
            (List.cons_ne_nil _ _) whole.2 (by omega)
          rw [text]
          simp [Form.readItems, readFirst, readOthers, skipSpace_cons, Form.isSpace, itemForms]

theorem readMembers_compactMembers (members : List (String × Json)) (fuel : Nat)
    (rest : List Char) (filled : members ≠ []) (whole : membersWhole members = true)
    (enough : 2 * (compactMembers members).length + 1 ≤ fuel) :
    Form.readMembers fuel (compactMembers members ++ '\x7d' :: rest) =
      some (memberForms members, rest) := by
  obtain ⟨fuel, rfl⟩ : ∃ less, fuel = less + 1 := ⟨fuel - 1, by omega⟩
  cases members with
  | nil => exact absurd rfl filled
  | cons member others =>
      rw [membersWhole, Bool.and_eq_true] at whole
      cases others with
      | nil =>
          have text : compactMembers [member] ++ '\x7d' :: rest =
              '"' :: (member.1.toList.flatMap escape ++
                '"' :: ':' :: (compactText member.2 ++ '\x7d' :: rest)) := by
            simp [compactMembers, quoted]
          have size : (compactText member.2).length + 3 ≤ (compactMembers [member]).length := by
            simp [compactMembers, quoted]
          have read := readValue_compactText member.2 fuel ('\x7d' :: rest) whole.1 (by omega) rfl
          rw [text]
          simp [Form.readMembers, readPieces_quoted, read, skipSpace_cons, Form.isSpace, memberForms]
      | cons next others =>
          have text : compactMembers (member :: next :: others) ++ '\x7d' :: rest =
              '"' :: (member.1.toList.flatMap escape ++ '"' :: ':' :: (compactText member.2 ++
                ',' :: (compactMembers (next :: others) ++ '\x7d' :: rest))) := by
            simp [compactMembers, quoted]
          have size : (compactText member.2).length + (compactMembers (next :: others)).length + 4 ≤
              (compactMembers (member :: next :: others)).length := by
            simp [compactMembers, quoted]
            omega
          have readFirst := readValue_compactText member.2 fuel
            (',' :: (compactMembers (next :: others) ++ '\x7d' :: rest)) whole.1 (by omega) rfl
          have readOthers := readMembers_compactMembers (next :: others) fuel rest
            (List.cons_ne_nil _ _) whole.2 (by omega)
          rw [text]
          simp [Form.readMembers, readPieces_quoted, readFirst, readOthers, skipSpace_cons,
            Form.isSpace, memberForms]

end

theorem ofText?_compact_form (json : Json) (whole : json.isWhole = true) :
    Form.ofText? json.compact = some json.form := by
  have read := readValue_compactText json (2 * (compactText json).length + 2) [] whole
    (by omega) rfl
  rw [List.append_nil] at read
  rw [Form.ofText?, compact, String.toList_ofList, read]
  rfl

theorem ofText?_compact (json : Json) (whole : json.isWhole = true)
    (nested : json.nesting ≤ levelLimit) : ofText? json.compact = some json := by
  rw [ofText?, ofText?_compact_form json whole, Option.bind_some, value?_form json whole nested]

end Stepwise.Json

namespace Stepwise.Exchange

open Json

def Request.toJson (request : Request) : Json :=
  .object [(codeMember, .str request.code), (functionMember, .str request.functionName),
    (argumentMember, request.argument)]

theorem Request.textOf?_form (text : String) : textOf? (Json.str text).form = some text := by
  rw [form, textOf?, textOfPieces?_pieces, Option.map_some, String.ofList_toList]

theorem Request.ofText_compact (request : Request) (whole : request.argument.isWhole = true)
    (nested : request.argument.nesting ≤ memberLevels) :
    Request.ofText request.toJson.compact = .ok request := by
  have wholeRequest : request.toJson.isWhole = true := by
    simp [toJson, isWhole, membersWhole, whole]
  have named : named? (memberForms [(codeMember, .str request.code),
      (functionMember, .str request.functionName), (argumentMember, request.argument)]) =
        some [(codeMember, (Json.str request.code).form),
          (functionMember, (Json.str request.functionName).form),
          (argumentMember, request.argument.form)] := by
    simp [memberForms, named?, textOfPieces?_pieces]
  rw [Request.ofText, ofText?_compact_form _ wholeRequest, toJson, form]
  simp only [ofForm, named]
  have members : ∀ code functionName argument : Form,
      let members :=
        [(codeMember, code), (functionMember, functionName), (argumentMember, argument)]
      only codeMember members = .ok code ∧ only functionMember members = .ok functionName ∧
        only argumentMember members = .ok argument :=
    fun _ _ _ => ⟨rfl, rfl, rfl⟩
  obtain ⟨readCode, readName, readArgument⟩ := members (Json.str request.code).form
    (Json.str request.functionName).form request.argument.form
  rw [readCode, readName, readArgument]
  have argument := value?_form request.argument whole nested
  simp only [Except.bind, bind, ofForms, textOf?_form, argument]
  rfl

end Stepwise.Exchange
