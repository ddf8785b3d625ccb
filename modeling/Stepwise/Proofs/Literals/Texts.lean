import Mathlib.Data.List.Forall2
import Stepwise.Proofs.Literals.Datum
import Stepwise.Proofs.Writing.Spelling

/-!
The texts of values as rows of tokens.

A value of a readable tree has a literal, the expression that stands for it, and its text consists of
the tokens of this expression.
-/

namespace Stepwise

open Script

/-- The expression for an integer: negative ones are written with a sign. -/
def intLiteral (value : Int64) : Expr :=
  if value.toInt < 0 then .unary .negate (.int (Int64.ofInt (-value.toInt))) else .int value

mutual

def Key.literal : Key → Expr
  | .none => .none
  | .bool value => .bool value
  | .int value => intLiteral value
  | .float value => .float value.toFloat
  | .str content => .str content
  | .tuple items => .tuple (keyLiterals items)

def keyLiterals : List Key → List Expr
  | [] => []
  | key :: rest => key.literal :: keyLiterals rest

end

mutual

def Datum.literal : Datum → Expr
  | .none => .none
  | .bool value => .bool value
  | .int value => intLiteral value
  | .str content => .str content
  | .list items => .list (itemLiterals items)
  | .tuple items => .tuple (itemLiterals items)
  | .dict entries => .dict (entryLiterals entries)

def itemLiterals : List Datum → List Expr
  | [] => []
  | item :: rest => item.literal :: itemLiterals rest

def entryLiterals : List (Key × Datum) → List (Expr × Expr)
  | [] => []
  | (key, item) :: rest => (key.literal, item.literal) :: entryLiterals rest

end

theorem toInt_ofInt_neg {value : Int64} (bounded : (value.toInt != Number.least) = true) :
    (Int64.ofInt (-value.toInt)).toInt = -value.toInt := by
  have lower := Number.least_le_toInt value
  have upper := Number.toInt_le_greatest value
  have apart : value.toInt ≠ Number.least := by simpa using bounded
  simp only [Number.least, Number.greatest] at lower upper apart
  exact Number.toInt_ofInt_of_bounds (by simp only [Number.least]; omega)
    (by simp only [Number.greatest]; omega)

theorem isWritable_intLiteral {value : Int64} (bounded : (value.toInt != Number.least) = true) :
    (intLiteral value).isWritable = true := by
  unfold intLiteral
  split
  · simp only [Expr.isWritable, decide_eq_true_eq, Int64.le_iff_toInt_le,
      toInt_ofInt_neg bounded, Int64.toInt_zero]
    omega
  · simp only [Expr.isWritable, decide_eq_true_eq, Int64.le_iff_toInt_le, Int64.toInt_zero]
    omega

mutual

theorem Key.isWritable_literal (key : Key) (readable : key.isReadable = true) :
    key.literal.isWritable = true := by
  match key, readable with
  | .none, _ | .bool _, _ | .str _, _ => rfl
  | .int _, readable => exact isWritable_intLiteral readable
  | .float _, readable => cases readable
  | .tuple items, readable => exact itemsWritable_keyLiterals items readable

theorem itemsWritable_keyLiterals (keys : List Key) (readable : keysReadable keys = true) :
    itemsWritable (keyLiterals keys) = true := by
  match keys, readable with
  | [], _ => rfl
  | key :: rest, readable =>
      simp only [keysReadable, Bool.and_eq_true] at readable
      simp only [keyLiterals, itemsWritable, key.isWritable_literal readable.1,
        itemsWritable_keyLiterals rest readable.2, Bool.and_self]

end

mutual

theorem Datum.isWritable_literal (datum : Datum) (readable : datum.isReadable = true) :
    datum.literal.isWritable = true := by
  match datum, readable with
  | .none, _ | .bool _, _ | .str _, _ => rfl
  | .int _, readable => exact isWritable_intLiteral readable
  | .list items, readable | .tuple items, readable =>
      exact itemsWritable_itemLiterals items readable
  | .dict entries, readable => exact entriesWritable_entryLiterals entries readable

theorem itemsWritable_itemLiterals (items : List Datum) (readable : itemsReadable items = true) :
    itemsWritable (itemLiterals items) = true := by
  match items, readable with
  | [], _ => rfl
  | item :: rest, readable =>
      simp only [itemsReadable, Bool.and_eq_true] at readable
      simp only [itemLiterals, itemsWritable, item.isWritable_literal readable.1,
        itemsWritable_itemLiterals rest readable.2, Bool.and_self]

theorem entriesWritable_entryLiterals (entries : List (Key × Datum))
    (readable : entriesReadable entries = true) :
    entriesWritable (entryLiterals entries) = true := by
  match entries, readable with
  | [], _ => rfl
  | (key, item) :: rest, readable =>
      simp only [entriesReadable, Bool.and_eq_true] at readable
      simp only [entryLiterals, entriesWritable, key.isWritable_literal readable.1.1,
        item.isWritable_literal readable.1.2, entriesWritable_entryLiterals rest readable.2,
        Bool.and_self]

end

namespace Script

/-- A text consists of tokens, whatever bracket, comma, colon or blank follows. -/
def Writes (text : String) (kinds : List TokenKind) : Prop :=
  ∀ rest, gap rest = true → Spells (text.toList ++ rest) kinds rest

theorem placed_conditional (rung : Level) (tokens : List TokenKind) :
    placed .conditional rung tokens = tokens :=
  if_pos rung.height_le_conditional

/-- The tokens of parts with commas between them. -/
def listed : List (List TokenKind) → List TokenKind
  | [] => []
  | part :: rest => part ++ (separator rest ++ listed rest)

def entryPart (entry : Expr × Expr) : List TokenKind :=
  entry.1.bare ++ .symbol .colon :: entry.2.bare

theorem separator_map {α β : Type} (change : α → β) (rest : List α) :
    separator (rest.map change) = separator rest := by
  cases rest <;> rfl

theorem itemTokens_eq (items : List Expr) : itemTokens items = listed (items.map Expr.bare) := by
  induction items with
  | nil => rfl
  | cons item rest inductionHypothesis =>
      rw [itemTokens, placed_conditional, inductionHypothesis, List.map_cons, listed, separator_map]

theorem entryTokens_eq (entries : List (Expr × Expr)) :
    entryTokens entries = listed (entries.map entryPart) := by
  induction entries with
  | nil => rfl
  | cons entry rest inductionHypothesis =>
      rw [entryTokens, placed_conditional, placed_conditional, inductionHypothesis, List.map_cons,
        listed, separator_map, entryPart]
      simp

def Symbol.standsAlone : Symbol → Bool
  | .leftParen | .rightParen | .leftBracket | .rightBracket | .leftBrace | .rightBrace | .comma
  | .colon => true
  | _ => false

theorem Spells.symbol {symbol : Symbol} {text rest : List Char} {kinds : List TokenKind}
    (alone : symbol.standsAlone = true) (spells : Spells text kinds rest) :
    Spells (symbol.spelling ++ text) (.symbol symbol :: kinds) rest := by
  have whole : symbol.grows text = false := by
    cases symbol <;> first | (cases text <;> rfl) | cases alone
  have visible : '\n' ∉ symbol.spelling := by cases symbol <;> simp [Symbol.spelling]
  exact .lexeme visible (Fronts.symbol whole) spells

namespace Writes

variable {text : String} {kind : TokenKind} {kinds : List TokenKind}

theorem token (visible : '\n' ∉ text.toList)
    (fronts : ∀ rest, gap rest = true → Fronts text.toList kind rest) : Writes text [kind] :=
  fun rest free => .lexeme visible (fronts rest free) .done

theorem keyword (word : Keyword) : Writes word.spelling [.keyword word] := by
  have spelled : (TokenKind.keyword word).isSpelled = true := rfl
  exact token (feed_not_mem_word word.formsWord_spelling) fun _ free =>
    TokenKind.fronts spelled free

theorem truth (value : Bool) : Writes (boolText value) (Expr.bool value).bare := by
  cases value with
  | false => exact .keyword .falseWord
  | true => exact .keyword .trueWord

theorem str {content : String} (readable : Text.isReadable content = true) :
    Writes (strText content) [.str content] := by
  have plain : ∀ c ∈ content.toList, Text.isCoded c = false := by
    simpa [Text.isReadable] using readable
  apply token
  · simpa [strText] using Text.feed_not_mem_quoted content.toList
  · intro rest free
    have fronts := Fronts.quoted content.toList rest (breaks_of_gap free).1
    rw [Text.flatMap_readBack_eq_iff.mpr plain, String.ofList_toList] at fronts
    simpa [strText] using fronts

theorem int {value : Int64} (bounded : (value.toInt != Number.least) = true) :
    Writes (Number.integerText value.toInt) (intLiteral value).bare := by
  have shown : ∀ (number : Int64) (n : Nat), number.toInt = n → ∀ rest, gap rest = true →
      Spells (Number.digits n ++ rest) [.int number] rest := by
    intro number n same rest free
    refine .lexeme ?_ (Fronts.int same (breaks_of_gap free).1) .done
    intro member
    exact absurd (Lexeme.isDigit_of_mem_digits member) (by decide)
  intro rest free
  unfold intLiteral Number.integerText
  split
  · rename_i negative
    have same : (Int64.ofInt (-value.toInt)).toInt = value.toInt.natAbs := by
      rw [toInt_ofInt_neg bounded]
      omega
    have signed : Symbol.minus.grows (Number.digits value.toInt.natAbs ++ rest) = false := by
      have filled : Number.digits value.toInt.natAbs ≠ [] := Nat.toDigits_ne_nil
      obtain ⟨c, more, form⟩ := List.exists_cons_of_ne_nil filled
      have digit : Text.isDigit c = true :=
        Lexeme.isDigit_of_mem_digits (n := value.toInt.natAbs) (by simp [form])
      have arrow : '>' ≠ c := by
        rintro rfl
        exact absurd digit (by decide)
      have equal : '=' ≠ c := by
        rintro rfl
        exact absurd digit (by decide)
      rw [form]
      simp [Symbol.grows, Symbol.all, Symbol.spelling, List.isPrefixOf, arrow.symm, equal.symm]
    have bare : (Expr.unary .negate (.int (Int64.ofInt (-value.toInt)))).bare =
        [.symbol .minus, .int (Int64.ofInt (-value.toInt))] := rfl
    have minus : Spells (Symbol.minus.spelling ++ (Number.digits value.toInt.natAbs ++ rest))
        [.symbol .minus, .int (Int64.ofInt (-value.toInt))] rest :=
      .lexeme (by simp [Symbol.spelling]) (Fronts.symbol signed) (shown _ _ same rest free)
    rw [bare, String.toList_ofList]
    exact minus
  · rename_i positive
    rw [String.toList_ofList]
    exact shown value value.toInt.natAbs (by omega) rest free

theorem joined {texts : List String} {parts : List (List TokenKind)}
    (each : List.Forall₂ Writes texts parts) : Writes (commaSeparated texts) (listed parts) := by
  induction each with
  | nil =>
      intro rest free
      exact .done
  | @cons text part texts parts first others inductionHypothesis =>
      intro rest free
      cases others with
      | nil => simpa [commaSeparated, separator, listed] using first rest free
      | @cons second secondPart texts parts _ _ =>
          have whole : (commaSeparated (text :: second :: texts)).toList ++ rest =
              text.toList ++ (Symbol.comma.spelling ++
                ' ' :: ((commaSeparated (second :: texts)).toList ++ rest)) := by
            simp [commaSeparated, String.toList_intercalate, List.intercalate, Symbol.spelling]
          rw [whole]
          exact (first _ rfl).append (.symbol rfl (.space (inductionHypothesis rest free)))

theorem brackets {opening close : Symbol} {whole : String}
    (alone : opening.standsAlone = true) (closes : close.closes = true)
    (form : whole.toList = opening.spelling ++ (text.toList ++ close.spelling))
    (inside : Writes text kinds) :
    Writes whole (.symbol opening :: (kinds ++ [.symbol close])) := by
  intro rest free
  have alone' : close.standsAlone = true := by cases close <;> first | rfl | cases closes
  have behind : gap (close.spelling ++ rest) = true := by
    cases close <;> first | rfl | cases closes
  rw [form, List.append_assoc, List.append_assoc]
  exact .symbol alone ((inside _ behind).append (.symbol alone' .done))

theorem tuple {texts : List String} {exprs : List Expr}
    (each : List.Forall₂ Writes texts (exprs.map Expr.bare)) :
    Writes (tupleText texts) (Expr.tuple exprs).bare := by
  have inside := joined each
  rw [Expr.bare, itemTokens_eq]
  unfold tupleText
  split
  · rename_i one
    have single : exprs.length = 1 := by simpa using each.length_eq.symm
    obtain ⟨expr, rfl⟩ := List.length_eq_one_iff.mp single
    obtain ⟨first, -⟩ := List.forall₂_cons.mp each
    have sole : Writes (one ++ ",") (listed [expr.bare] ++ soleComma [expr]) := by
      intro rest free
      have comma : Spells (Symbol.comma.spelling ++ rest) [.symbol .comma] rest :=
        .symbol rfl .done
      have shown := (first _ rfl).append comma
      simpa [listed, separator, soleComma, Symbol.spelling] using shown
    exact brackets rfl rfl (by simp [Symbol.spelling]) sole
  · rename_i several
    have plural : soleComma exprs = [] := by
      rcases exprs with _ | ⟨expr, _ | _⟩
      · rfl
      · obtain ⟨one, rfl⟩ := List.length_eq_one_iff.mp (each.length_eq.trans rfl)
        exact absurd rfl (several one)
      · rfl
    rw [plural, List.append_nil]
    exact brackets rfl rfl (by simp [Symbol.spelling]) inside

theorem list {texts : List String} {exprs : List Expr}
    (each : List.Forall₂ Writes texts (exprs.map Expr.bare)) :
    Writes ("[" ++ commaSeparated texts ++ "]") (Expr.list exprs).bare := by
  rw [Expr.bare, itemTokens_eq]
  exact brackets rfl rfl (by simp [Symbol.spelling]) (joined each)

theorem entry {key value : String} (expr : Expr × Expr) (writesKey : Writes key expr.1.bare)
    (writesValue : Writes value expr.2.bare) :
    Writes (key ++ ": " ++ value) (entryPart expr) := by
  intro rest free
  have behind : Spells (Symbol.colon.spelling ++ ' ' :: (value.toList ++ rest))
      (.symbol .colon :: expr.2.bare) rest :=
    .symbol rfl (.space (writesValue rest free))
  have shown := (writesKey _ rfl).append behind
  simpa [entryPart, Symbol.spelling] using shown

theorem dict {texts : List String} {exprs : List (Expr × Expr)}
    (each : List.Forall₂ Writes texts (exprs.map entryPart)) :
    Writes ("\x7b" ++ commaSeparated texts ++ "\x7d") (Expr.dict exprs).bare := by
  rw [Expr.bare, entryTokens_eq]
  exact brackets rfl rfl (by simp [Symbol.spelling]) (joined each)

end Writes

end Script

theorem room_of_nesting (inner : Nat) {depth : Nat} (nested : inner + 1 ≤ depth) :
    ∃ room, depth = room + 1 ∧ inner ≤ room :=
  ⟨depth - 1, by omega, by omega⟩

mutual

theorem Key.writes {depth : Nat} (key : Key) (readable : key.isReadable = true)
    (nested : key.nesting ≤ depth) : Writes (key.render depth) key.literal.bare := by
  match key, readable with
  | .none, _ =>
      rw [Key.render]
      exact .keyword .noneWord
  | .bool truth, _ =>
      rw [Key.render]
      exact .truth truth
  | .int value, readable =>
      rw [Key.render]
      exact .int readable
  | .float value, readable => cases readable
  | .str content, readable =>
      rw [Key.render]
      exact .str readable
  | .tuple items, readable =>
      obtain ⟨room, rfl, inner⟩ := room_of_nesting (keysNesting items) nested
      rw [Key.render]
      exact .tuple (keysWrite items readable inner)

theorem keysWrite {depth : Nat} (keys : List Key) (readable : keysReadable keys = true)
    (nested : keysNesting keys ≤ depth) :
    List.Forall₂ Writes (keys.map (Key.render depth)) ((keyLiterals keys).map Expr.bare) := by
  match keys, readable with
  | [], _ => exact .nil
  | key :: rest, readable =>
      simp only [keysReadable, Bool.and_eq_true] at readable
      simp only [keysNesting, Nat.max_le] at nested
      exact .cons (key.writes readable.1 nested.1) (keysWrite rest readable.2 nested.2)

end

def Open.value : Open → Value
  | .list ref => .list ref
  | .dict ref => .dict ref

def Enclosed (heap : Heap) (active : List Open) (nesting : Nat) : Prop :=
  ∀ outside ∈ active, ∃ outer : Datum, outer.IsOf heap outside.value ∧ nesting < outer.nesting

theorem Enclosed.not_contains {heap : Heap} {active : List Open} {datum : Datum} (here : Open)
    (enclosed : Enclosed heap active datum.nesting) (shown : datum.IsOf heap here.value) :
    active.contains here = false := by
  rw [← Bool.not_eq_true, List.contains_iff_mem]
  intro member
  obtain ⟨outer, other, deeper⟩ := enclosed here member
  rw [shown.unique other] at deeper
  exact Nat.lt_irrefl _ deeper

theorem Enclosed.push {heap : Heap} {active : List Open} {datum : Datum} (here : Open)
    (enclosed : Enclosed heap active datum.nesting) (shown : datum.IsOf heap here.value)
    {inner : Nat} (deeper : inner < datum.nesting) : Enclosed heap (here :: active) inner := by
  intro outside member
  rcases List.mem_cons.mp member with rfl | member
  · exact ⟨datum, shown, deeper⟩
  · obtain ⟨outer, other, nested⟩ := enclosed outside member
    exact ⟨outer, other, Nat.lt_trans deeper nested⟩

theorem Enclosed.mono {heap : Heap} {active : List Open} {nesting inner : Nat}
    (enclosed : Enclosed heap active nesting) (le : inner ≤ nesting) :
    Enclosed heap active inner := by
  intro outside member
  obtain ⟨outer, other, deeper⟩ := enclosed outside member
  exact ⟨outer, other, Nat.lt_of_le_of_lt le deeper⟩

mutual

/-- The text of a value of a readable tree consists of the tokens of the literal of the tree. -/
theorem Datum.writes {heap : Heap} {depth : Nat} {active : List Open} {value : Value}
    (datum : Datum) (shown : datum.IsOf heap value) (readable : datum.isReadable = true)
    (nested : datum.nesting ≤ depth) (enclosed : Enclosed heap active datum.nesting) :
    Writes (value.renderIn heap depth active) datum.literal.bare := by
  match datum, shown, readable with
  | .none, shown, _ =>
      obtain rfl := shown
      rw [Value.renderIn]
      exact .keyword .noneWord
  | .bool truth, shown, _ =>
      obtain rfl := shown
      rw [Value.renderIn]
      exact .truth truth
  | .int number, shown, readable =>
      obtain rfl := shown
      rw [Value.renderIn]
      exact .int readable
  | .str content, shown, readable =>
      obtain rfl := shown
      rw [Value.renderIn]
      exact .str readable
  | .list items, shown, readable =>
      obtain ⟨ref, values, rfl, found, inside⟩ := id shown
      obtain ⟨room, rfl, inner⟩ := room_of_nesting (itemsNesting items) nested
      have fresh := enclosed.not_contains (.list ref) shown
      have each := itemsWrite items inside readable inner
        (enclosed.push (.list ref) shown (Nat.lt_succ_self _))
      have same : heap.list ref = values := by simp [Heap.list, found]
      rw [Value.renderIn, fresh, if_neg Bool.false_ne_true, same]
      exact .list each
  | .tuple items, shown, readable =>
      obtain ⟨tag, values, rfl, inside⟩ := shown
      obtain ⟨room, rfl, inner⟩ := room_of_nesting (itemsNesting items) nested
      have each := itemsWrite items inside readable inner (enclosed.mono (Nat.le_succ _))
      rw [Value.renderIn]
      exact .tuple each
  | .dict entries, shown, readable =>
      obtain ⟨ref, dict, rfl, found, inside⟩ := id shown
      obtain ⟨room, rfl, inner⟩ := room_of_nesting (entriesNesting entries) nested
      have fresh := enclosed.not_contains (.dict ref) shown
      have each := entriesWrite entries inside readable inner
        (enclosed.push (.dict ref) shown (Nat.lt_succ_self _))
      have same : heap.dict ref = dict := by simp [Heap.dict, found]
      rw [Value.renderIn, fresh, if_neg Bool.false_ne_true, same]
      exact .dict each

theorem itemsWrite {heap : Heap} {depth : Nat} {active : List Open} {values : List Value}
    (items : List Datum) (shown : itemsAreOf heap items values)
    (readable : itemsReadable items = true) (nested : itemsNesting items ≤ depth)
    (enclosed : Enclosed heap active (itemsNesting items)) :
    List.Forall₂ Writes (values.map (Value.renderIn heap depth active))
      ((itemLiterals items).map Expr.bare) := by
  match items, shown, readable with
  | [], shown, _ =>
      rw [shown]
      exact .nil
  | item :: rest, shown, readable =>
      obtain ⟨value, others, rfl, first, inside⟩ := shown
      simp only [itemsReadable, Bool.and_eq_true] at readable
      simp only [itemsNesting, Nat.max_le] at nested
      exact .cons
        (item.writes first readable.1 nested.1 (enclosed.mono (Nat.le_max_left _ _)))
        (itemsWrite rest inside readable.2 nested.2 (enclosed.mono (Nat.le_max_right _ _)))

theorem entriesWrite {heap : Heap} {depth : Nat} {active : List Open}
    {values : List (Key × Value)} (entries : List (Key × Datum))
    (shown : entriesAreOf heap entries values) (readable : entriesReadable entries = true)
    (nested : entriesNesting entries ≤ depth)
    (enclosed : Enclosed heap active (entriesNesting entries)) :
    List.Forall₂ Writes
      (values.map fun entry =>
        entry.1.render depth ++ ": " ++ entry.2.renderIn heap depth active)
      ((entryLiterals entries).map entryPart) := by
  match entries, shown, readable with
  | [], shown, _ =>
      rw [shown]
      exact .nil
  | (key, item) :: rest, shown, readable =>
      obtain ⟨value, others, rfl, first, inside⟩ := shown
      simp only [entriesReadable, Bool.and_eq_true] at readable
      simp only [entriesNesting, Nat.max_le] at nested
      have lower : item.nesting ≤ entriesNesting ((key, item) :: rest) :=
        Nat.le_trans (Nat.le_max_right _ _) (Nat.le_max_left _ _)
      exact .cons
        (.entry (key.literal, item.literal) (key.writes readable.1.1 nested.1.1)
          (item.writes first readable.1.2 nested.1.2 (enclosed.mono lower)))
        (entriesWrite rest inside readable.2 nested.2 (enclosed.mono (Nat.le_max_right _ _)))

end

end Stepwise
