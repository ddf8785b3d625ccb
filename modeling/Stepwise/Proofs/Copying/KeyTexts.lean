import Stepwise.Proofs.Filing
import Stepwise.Proofs.Quoting
import Stepwise.Proofs.Shortest.Texts
import Stepwise.Record.Snapshot

/-!
The texts of keys can be told apart.

The text of a key is read from its front in one way only, so two keys with the same text have the same
copy.  The copies of two keys are the same where the keys are, and where they hold NaNs at the same
places.
-/

namespace Stepwise

open Record

namespace Text

theorem digitChar_injective : ∀ a < 16, ∀ b < 16, Nat.digitChar a = Nat.digitChar b → a = b := by
  decide

theorem eq_of_readBack {c d : Char} {code : List Char} (several : code.length = 4)
    (first : readBack c = code) (second : readBack d = code) : c = d := by
  have known : ∀ c, readBack c = code → c.toNat ≤ 127 ∧
      code = ['\\', 'x', Nat.digitChar (c.toNat / 16), Nat.digitChar (c.toNat % 16)] := by
    intro c read
    unfold readBack at read
    split at read
    · next coded =>
        simp only [isCoded, Bool.and_eq_true, Bool.or_eq_true, decide_eq_true_eq, beq_iff_eq] at coded
        exact ⟨by omega, read.symm⟩
    · rw [← read] at several
      cases several
  obtain ⟨small, form⟩ := known c first
  obtain ⟨smallToo, formToo⟩ := known d second
  rw [form] at formToo
  simp only [List.cons.injEq, true_and, and_true] at formToo
  have high := digitChar_injective _ (by omega) _ (by omega) formToo.1
  have low := digitChar_injective _ (by omega) _ (by omega) formToo.2
  have codes : c.toNat = d.toNat := by omega
  exact Char.toNat_inj.mp codes

variable {quote : Char} (isQuote : quote = '\'' ∨ quote = '"')

include isQuote

theorem escapeFor_ne_cons (c : Char) (rest more : List Char) :
    escapeFor quote c ++ rest ≠ quote :: more := by
  have apart : '\\' ≠ quote := by rcases isQuote with rfl | rfl <;> decide
  intro same
  rcases escapeFor_cases isQuote c with
    ⟨d, form, -⟩ | ⟨high, -, low, -, form, -⟩ | ⟨form, other, -⟩
  all_goals rw [form] at same
  · exact apart (List.cons.inj same).1
  · exact apart (List.cons.inj same).1
  · exact other (List.cons.inj same).1

theorem eq_of_escapeFor {c d : Char} {rest more : List Char}
    (same : escapeFor quote c ++ rest = escapeFor quote d ++ more) : c = d ∧ rest = more := by
  have notCode : ∀ {c e : Char}, Script.Lexeme.unescape e = [c] → e ≠ 'x' := by
    rintro c e single rfl
    cases single
  rcases escapeFor_cases isQuote c with
    ⟨e, form, -, read, -⟩ | ⟨high, highLt, low, lowLt, form, read⟩ | ⟨form, -, -, bare, -⟩ <;>
  rcases escapeFor_cases isQuote d with
    ⟨g, formToo, -, readToo, -⟩ | ⟨upper, upperLt, lower, lowerLt, formToo, readToo⟩ |
      ⟨formToo, -, -, bareToo, -⟩
  all_goals rw [form, formToo] at same
  all_goals simp only [List.cons_append, List.nil_append, List.cons.injEq, true_and] at same
  · obtain ⟨rfl, behind⟩ := same
    exact ⟨(List.cons.inj (read.symm.trans readToo)).1, behind⟩
  · exact absurd same.1 (notCode read)
  · exact absurd same.1.symm bareToo
  · exact absurd same.1.symm (notCode readToo)
  · obtain ⟨highs, lows, behind⟩ := same
    rw [← highs, ← lows] at readToo
    exact ⟨eq_of_readBack rfl read readToo, behind⟩
  · exact absurd same.1.symm bareToo
  · exact absurd same.1 bare
  · exact absurd same.1 bare
  · exact same

theorem eq_of_flatMap_escapeFor {text other rest more : List Char}
    (same : text.flatMap (escapeFor quote) ++ quote :: rest =
      other.flatMap (escapeFor quote) ++ quote :: more) : text = other ∧ rest = more := by
  induction text generalizing other with
  | nil =>
      cases other with
      | nil => exact ⟨rfl, (List.cons.inj same).2⟩
      | cons d other =>
          rw [List.flatMap_cons, List.append_assoc] at same
          exact absurd same.symm (escapeFor_ne_cons isQuote d _ _)
  | cons c text inductionHypothesis =>
      cases other with
      | nil =>
          rw [List.flatMap_cons, List.append_assoc] at same
          exact absurd same (escapeFor_ne_cons isQuote c _ _)
      | cons d other =>
          rw [List.flatMap_cons, List.flatMap_cons, List.append_assoc, List.append_assoc] at same
          obtain ⟨rfl, behind⟩ := eq_of_escapeFor isQuote same
          obtain ⟨texts, rests⟩ := inductionHypothesis behind
          exact ⟨congrArg (c :: ·) texts, rests⟩

omit isQuote in
theorem eq_of_quoted {text other rest more : List Char}
    (same : quoted text ++ rest = quoted other ++ more) : text = other ∧ rest = more := by
  simp only [quoted, List.cons_append, List.append_assoc, List.nil_append] at same
  obtain ⟨quotes, inside⟩ := List.cons.inj same
  rw [← quotes] at inside
  exact eq_of_flatMap_escapeFor (quoteFor_isQuote text) inside

end Text

mutual

def Key.copy : Key → Snapshot
  | .none => .none
  | .bool value => .bool value
  | .int value => .int value
  | .float value => .float value.toFloat
  | .str content => .str content
  | .tuple items => .tuple (keyCopies items)

def keyCopies : List Key → List Snapshot
  | [] => []
  | key :: rest => key.copy :: keyCopies rest

end

/-- Whether a key is a NaN, or a tuple with an item that holds one. -/
inductive Key.HoldsNaN : Key → Prop where
  | float {value : Number.Double} : value.isNaN = true → HoldsNaN (.float value)
  | tuple {items : List Key} {item : Key} : item ∈ items → item.HoldsNaN → HoldsNaN (.tuple items)

mutual

theorem Key.eq_of_copy {k l : Key} (same : k.copy = l.copy) : k = l ∨ k.HoldsNaN ∧ l.HoldsNaN := by
  match k, l, same with
  | .none, .none, _ => exact .inl rfl
  | .bool a, .bool b, same => exact .inl (congrArg _ (Snapshot.bool.inj same))
  | .int a, .int b, same => exact .inl (congrArg _ (Snapshot.int.inj same))
  | .str a, .str b, same => exact .inl (congrArg _ (Snapshot.str.inj same))
  | .float a, .float b, same =>
      have floats := Snapshot.float.inj same
      cases isNaN : a.isNaN with
      | true =>
          have isNaNToo : b.isNaN = true := by rwa [Number.Double.isNaN, ← floats]
          exact .inr ⟨.float isNaN, .float isNaNToo⟩
      | false =>
          have isNumber : b.isNaN = false := by rwa [Number.Double.isNaN, ← floats]
          have bits : a.bits = b.bits := by
            rw [← Number.Double.toBits_toFloat isNaN, ← Number.Double.toBits_toFloat isNumber, floats]
          exact .inl (congrArg (fun bits => Key.float ⟨bits⟩) bits)
  | .tuple items, .tuple others, same =>
      rcases eq_of_keyCopies (Snapshot.tuple.inj same) with
        same | ⟨⟨k, member, holds⟩, l, memberToo, holdsToo⟩
      · exact .inl (congrArg _ same)
      · exact .inr ⟨.tuple member holds, .tuple memberToo holdsToo⟩

theorem eq_of_keyCopies {items others : List Key} (same : keyCopies items = keyCopies others) :
    items = others ∨ (∃ k ∈ items, k.HoldsNaN) ∧ ∃ l ∈ others, l.HoldsNaN := by
  match items, others, same with
  | [], [], _ => exact .inl rfl
  | key :: items, other :: others, same =>
      obtain ⟨first, rest⟩ := List.cons.inj same
      rcases Key.eq_of_copy first with rfl | ⟨holds, holdsToo⟩
      · rcases eq_of_keyCopies rest with rfl | ⟨⟨k, member, holds⟩, l, memberToo, holdsToo⟩
        · exact .inl rfl
        · exact .inr ⟨⟨k, List.mem_cons_of_mem key member, holds⟩,
            l, List.mem_cons_of_mem key memberToo, holdsToo⟩
      · exact .inr ⟨⟨key, List.mem_cons_self, holds⟩, other, List.mem_cons_self, holdsToo⟩

end

/-- Keys that hold a NaN and are the same but for the bits of NaNs. -/
def Key.SameButNaNs (k l : Key) : Prop := k.HoldsNaN ∧ k.copy = l.copy

def isDelimiter (c : Char) : Bool := [',', '(', ')', '\'', '"'].contains c

theorem not_isDelimiter_of_isNumberPart {c : Char} (part : Number.isNumberPart c = true) :
    isDelimiter c = false := by
  rw [isDelimiter, List.contains_eq_mem, decide_eq_false_iff_not]
  intro member
  simp only [List.mem_cons, List.not_mem_nil, or_false] at member
  rcases member with rfl | rfl | rfl | rfl | rfl <;> cases part

structure Vocabulary where
  absent : String
  yes : String
  no : String

namespace Vocabulary

def script : Vocabulary := ⟨"None", "True", "False"⟩

def interchange : Vocabulary := ⟨"null", "true", "false"⟩

def word? (words : Vocabulary) : Key → Option String
  | .none => some words.absent
  | .bool value => some (if value then words.yes else words.no)
  | .int value => some (Number.integerText value.toInt)
  | .float value => some (Number.Layout.script.text value.toFloat)
  | _ => none

/-- No two words are the same, no number is written like one, and none has a delimiter in it. -/
structure Sound (words : Vocabulary) : Prop where
  apart : words.absent ≠ words.yes ∧ words.absent ≠ words.no ∧ words.yes ≠ words.no
  foreign : ∀ word ∈ [words.absent, words.yes, words.no],
    ∃ c ∈ word.toList, Number.isNumberPart c = false
  plain : ∀ word ∈ [words.absent, words.yes, words.no],
    ∀ c ∈ word.toList, isDelimiter c = false

theorem sound_script : script.Sound where
  apart := by decide
  foreign := by
    simp only [script, List.forall_mem_cons, List.not_mem_nil, false_implies, implies_true, and_true]
    exact ⟨⟨'N', by decide, rfl⟩, ⟨'T', by decide, rfl⟩, ⟨'F', by decide, rfl⟩⟩
  plain := by
    have plain : [script.absent, script.yes, script.no].all (·.toList.all (!isDelimiter ·)) := by
      decide
    simpa using plain

theorem sound_interchange : interchange.Sound where
  apart := by decide
  foreign := by
    simp only [interchange, List.forall_mem_cons, List.not_mem_nil, false_implies, implies_true, and_true]
    exact ⟨⟨'u', by decide, rfl⟩, ⟨'t', by decide, rfl⟩, ⟨'l', by decide, rfl⟩⟩
  plain := by
    have plain : [interchange.absent, interchange.yes, interchange.no].all
        (·.toList.all (!isDelimiter ·)) := by
      decide
    simpa using plain

variable {words : Vocabulary} {k l : Key} {text : String}

theorem word?_cases (found : words.word? k = some text) :
    text ∈ [words.absent, words.yes, words.no] ∧ (k = .none ∨ ∃ value, k = .bool value) ∨
      (∀ c ∈ text.toList, Number.isNumberPart c = true) ∧
        ((∃ value, k = .int value) ∨ ∃ value, k = .float value) := by
  cases k with
  | none =>
      cases found
      exact .inl ⟨List.mem_cons_self, .inl rfl⟩
  | bool value =>
      cases found
      exact .inl ⟨by cases value <;> simp, .inr ⟨value, rfl⟩⟩
  | int value =>
      cases found
      exact .inr ⟨fun c => Number.integerText_parts, .inl ⟨value, rfl⟩⟩
  | float value =>
      cases found
      exact .inr ⟨fun c => Number.script_text_parts, .inr ⟨value, rfl⟩⟩
  | str content => cases found
  | tuple items => cases found

namespace Sound

variable (sound : words.Sound)

include sound

theorem not_number {word : String} (listed : word ∈ [words.absent, words.yes, words.no]) :
    ¬ ∀ c ∈ word.toList, Number.isNumberPart c = true := by
  obtain ⟨c, member, foreign⟩ := sound.foreign word listed
  intro parts
  rw [parts c member] at foreign
  cases foreign

theorem eq_of_word? (first : words.word? k = some text) (second : words.word? l = some text) :
    k.copy = l.copy := by
  have same := first.trans second.symm
  rcases word?_cases first with ⟨listed, kind⟩ | ⟨parts, kind⟩ <;>
    rcases word?_cases second with ⟨listedToo, kindToo⟩ | ⟨partsToo, kindToo⟩
  · obtain ⟨absentYes, absentNo, yesNo⟩ := sound.apart
    rcases kind with rfl | ⟨a, rfl⟩ <;> rcases kindToo with rfl | ⟨b, rfl⟩
    · rfl
    · cases b
      · exact absurd (Option.some.inj same) absentNo
      · exact absurd (Option.some.inj same) absentYes
    · cases a
      · exact absurd (Option.some.inj same).symm absentNo
      · exact absurd (Option.some.inj same).symm absentYes
    · cases a <;> cases b
      · rfl
      · exact absurd (Option.some.inj same).symm yesNo
      · exact absurd (Option.some.inj same) yesNo
      · rfl
  · exact absurd partsToo (sound.not_number listed)
  · exact absurd parts (sound.not_number listedToo)
  · rcases kind with ⟨m, rfl⟩ | ⟨x, rfl⟩ <;> rcases kindToo with ⟨n, rfl⟩ | ⟨y, rfl⟩
    · rw [Int64.toInt_inj.mp (Number.integerText_injective (Option.some.inj same))]
    · exact absurd (Option.some.inj same).symm (Number.script_text_ne_integerText _ _)
    · exact absurd (Option.some.inj same) (Number.script_text_ne_integerText _ _)
    · exact congrArg Snapshot.float (Number.script_text_injective (Option.some.inj same))

theorem plain_of_word? (found : words.word? k = some text) :
    ∀ c ∈ text.toList, isDelimiter c = false := by
  rcases word?_cases found with ⟨listed, -⟩ | ⟨parts, -⟩
  · exact sound.plain text listed
  · exact fun c member => not_isDelimiter_of_isNumberPart (parts c member)

theorem word?_ne_nil (found : words.word? k = some text) : text.toList ≠ [] := by
  rcases word?_cases found with ⟨listed, -⟩ | ⟨-, ⟨n, rfl⟩ | ⟨x, rfl⟩⟩
  · obtain ⟨c, member, -⟩ := sound.foreign text listed
    exact List.ne_nil_of_mem member
  · exact Option.some.inj found ▸ Number.integerText_ne_nil n.toInt
  · exact Option.some.inj found ▸ Number.script_text_ne_nil x.toFloat

end Sound

end Vocabulary

def Key.shown (key : Key) : List Char := key.copy.render.toList

def shownTail : List Key → List Char
  | [] => [')']
  | key :: rest => ',' :: ' ' :: (key.shown ++ shownTail rest)

/-- What follows the first item of a tuple, given the others; a comma does if there are none. -/
def shownRest : List Key → List Char
  | [] => [',', ')']
  | next :: rest => shownTail (next :: rest)

def shownItems : List Key → List Char
  | [] => [')']
  | key :: rest => key.shown ++ shownRest rest

theorem Key.shown_of_word? {key : Key} {text : String}
    (found : Vocabulary.script.word? key = some text) : key.shown = text.toList := by
  cases key with
  | none | bool | int | float =>
      cases found
      rfl
  | str | tuple => cases found

theorem Key.shown_str (content : String) :
    (Key.str content).shown = Text.quoted content.toList := by
  rw [shown, Key.copy, Snapshot.render, strText, String.toList_ofList]

theorem toList_commaSeparated (key : Key) (rest : List Key) :
    (commaSeparated (Snapshot.renderAll (keyCopies (key :: rest)))).toList ++ [')'] =
      key.shown ++ shownTail rest := by
  induction rest generalizing key with
  | nil => simp [commaSeparated, keyCopies, Snapshot.renderAll, shownTail, Key.shown]
  | cons next rest inductionHypothesis =>
      have step : (commaSeparated (Snapshot.renderAll (keyCopies (key :: next :: rest)))).toList =
          key.shown ++ ',' :: ' ' ::
            (commaSeparated (Snapshot.renderAll (keyCopies (next :: rest)))).toList := by
        simp [commaSeparated, String.toList_intercalate, List.intercalate, keyCopies,
          Snapshot.renderAll, Key.shown]
      rw [step, shownTail, ← inductionHypothesis]
      simp

theorem Key.shown_tuple (items : List Key) :
    (Key.tuple items).shown = '(' :: shownItems items := by
  rw [shown, Key.copy, Snapshot.render]
  match items with
  | [] => rfl
  | [key] => simp [keyCopies, Snapshot.renderAll, tupleText, shownItems, shownRest, shown]
  | key :: next :: rest =>
      have several : tupleText (Snapshot.renderAll (keyCopies (key :: next :: rest))) =
          "(" ++ commaSeparated (Snapshot.renderAll (keyCopies (key :: next :: rest))) ++ ")" := rfl
      rw [several, shownItems, shownRest, ← toList_commaSeparated]
      simp

/-- What may follow the text of a key: nothing, or a comma or a closing bracket. -/
def Follows (rest : List Char) : Prop := ∀ c ∈ rest.head?, c = ',' ∨ c = ')'

theorem follows_shownTail (keys : List Key) (rest : List Char) :
    Follows (shownTail keys ++ rest) := by
  cases keys <;> simp [Follows, shownTail]

theorem follows_shownRest (keys : List Key) (rest : List Char) :
    Follows (shownRest keys ++ rest) := by
  cases keys with
  | nil => simp [Follows, shownRest]
  | cons key keys => exact follows_shownTail (key :: keys) rest

theorem Follows.takeWhile {text rest : List Char} (follows : Follows rest)
    (plain : ∀ c ∈ text, isDelimiter c = false) :
    (text ++ rest).takeWhile (!isDelimiter ·) = text := by
  refine (Number.span_append (fun c member => ?_) rest fun c member => ?_).1
  · rw [plain c member, Bool.not_false]
  · rcases follows c member with rfl | rfl <;> rfl

theorem Key.shown_of_not_word? {key : Key} (several : Vocabulary.script.word? key = Option.none) :
    ∃ c behind, key.shown = c :: behind ∧ isDelimiter c = true ∧ c ≠ ',' ∧ c ≠ ')' := by
  cases key with
  | none | bool | int | float => cases several
  | str content =>
      rw [shown_str, Text.quoted]
      refine ⟨_, _, rfl, ?_⟩
      rcases Text.quoteFor_isQuote content.toList with same | same <;> rw [same] <;> decide
  | tuple items => exact ⟨'(', shownItems items, shown_tuple items, by decide⟩

theorem Key.shown_of_word?_cons {key : Key} {text : String}
    (found : Vocabulary.script.word? key = some text) :
    ∃ c behind, key.shown = c :: behind ∧ isDelimiter c = false := by
  have sound := Vocabulary.sound_script
  obtain ⟨c, behind, split⟩ := List.exists_cons_of_ne_nil (sound.word?_ne_nil found)
  refine ⟨c, behind, (shown_of_word? found).trans split, sound.plain_of_word? found c ?_⟩
  rw [split]
  exact List.mem_cons_self

theorem Key.shown_ne_closing (key : Key) (rest more : List Char) :
    key.shown ++ rest ≠ ')' :: more := by
  intro same
  cases found : Vocabulary.script.word? key with
  | some text =>
      obtain ⟨c, behind, form, plain⟩ := shown_of_word?_cons found
      rw [form] at same
      rw [(List.cons.inj same).1] at plain
      cases plain
  | none =>
      obtain ⟨c, behind, form, -, -, other⟩ := shown_of_not_word? found
      rw [form] at same
      exact other (List.cons.inj same).1

/-- At the front of a text there is one copy of a key at the most, and it ends at one place. -/
def Key.ReadsOneWay (key : Key) : Prop :=
  ∀ (other : Key) (rest more : List Char), Follows rest → Follows more →
    key.shown ++ rest = other.shown ++ more → key.copy = other.copy ∧ rest = more

def ItemsReadOneWay (items : List Key) : Prop :=
  ∀ others rest more, shownItems items ++ rest = shownItems others ++ more →
    keyCopies items = keyCopies others ∧ rest = more

def TailReadsOneWay (items : List Key) : Prop :=
  ∀ others rest more, shownTail items ++ rest = shownTail others ++ more →
    keyCopies items = keyCopies others ∧ rest = more

theorem Key.readsOneWay_of_word? {key : Key} {text : String}
    (found : Vocabulary.script.word? key = some text) : key.ReadsOneWay := by
  intro other rest more follows followsToo same
  have sound := Vocabulary.sound_script
  cases foundToo : Vocabulary.script.word? other with
  | some otherText =>
      rw [shown_of_word? found, shown_of_word? foundToo] at same
      have texts := congrArg (List.takeWhile (!isDelimiter ·)) same
      rw [follows.takeWhile (sound.plain_of_word? found),
        followsToo.takeWhile (sound.plain_of_word? foundToo)] at texts
      rw [texts] at same
      rw [String.toList_inj.mp texts] at found
      exact ⟨sound.eq_of_word? found foundToo, List.append_cancel_left same⟩
  | none =>
      obtain ⟨c, behind, form, plain⟩ := shown_of_word?_cons found
      obtain ⟨d, behindToo, formToo, delimits, -⟩ := shown_of_not_word? foundToo
      rw [form, formToo] at same
      rw [(List.cons.inj same).1, delimits] at plain
      cases plain

theorem Key.str_apart_tuple (content : String) (items : List Key) (rest more : List Char) :
    (Key.str content).shown ++ rest ≠ (Key.tuple items).shown ++ more := by
  intro same
  rw [shown_str, shown_tuple] at same
  have opens : Text.quoteFor content.toList = '(' := (List.cons.inj same).1
  rcases Text.quoteFor_isQuote content.toList with quote | quote <;>
    exact absurd (quote.symm.trans opens) (by decide)

theorem Key.readsOneWay_str (content : String) : (Key.str content).ReadsOneWay := by
  intro other rest more follows followsToo same
  cases other with
  | none | bool | int | float =>
      exact (readsOneWay_of_word? rfl _ _ _ followsToo follows same.symm).imp Eq.symm Eq.symm
  | str otherContent =>
      rw [shown_str, shown_str] at same
      obtain ⟨contents, rests⟩ := Text.eq_of_quoted same
      exact ⟨congrArg Snapshot.str (String.toList_inj.mp contents), rests⟩
  | tuple others => exact absurd same (str_apart_tuple content others rest more)

theorem Key.readsOneWay_tuple {items : List Key} (inside : ItemsReadOneWay items) :
    (Key.tuple items).ReadsOneWay := by
  intro other rest more follows followsToo same
  cases other with
  | none | bool | int | float =>
      exact (readsOneWay_of_word? rfl _ _ _ followsToo follows same.symm).imp Eq.symm Eq.symm
  | str content => exact absurd same.symm (str_apart_tuple content items more rest)
  | tuple others =>
      rw [shown_tuple, shown_tuple] at same
      obtain ⟨copies, rests⟩ := inside others rest more (List.cons.inj same).2
      exact ⟨congrArg Snapshot.tuple copies, rests⟩

theorem itemsReadOneWay_nil : ItemsReadOneWay [] := by
  intro others rest more same
  cases others with
  | nil => exact ⟨rfl, (List.cons.inj same).2⟩
  | cons other others =>
      rw [shownItems, shownItems, List.append_assoc] at same
      exact absurd same.symm (other.shown_ne_closing _ _)

theorem tailReadsOneWay_nil : TailReadsOneWay [] := by
  intro others rest more same
  cases others with
  | nil => exact ⟨rfl, (List.cons.inj same).2⟩
  | cons other others => exact absurd (List.cons.inj same).1 (by decide)

theorem tailReadsOneWay_cons {key : Key} {items : List Key} (first : key.ReadsOneWay)
    (inside : TailReadsOneWay items) : TailReadsOneWay (key :: items) := by
  intro others rest more same
  cases others with
  | nil => exact absurd (List.cons.inj same).1 (by decide)
  | cons other others =>
      have behind : key.shown ++ shownTail items ++ rest = other.shown ++ shownTail others ++ more :=
        (List.cons.inj (List.cons.inj same).2).2
      rw [List.append_assoc, List.append_assoc] at behind
      obtain ⟨copy, tails⟩ :=
        first other _ _ (follows_shownTail items rest) (follows_shownTail others more) behind
      obtain ⟨copies, rests⟩ := inside others rest more tails
      exact ⟨by rw [keyCopies, keyCopies, copy, copies], rests⟩

theorem itemsReadOneWay_cons {key : Key} {items : List Key} (first : key.ReadsOneWay)
    (inside : TailReadsOneWay items) : ItemsReadOneWay (key :: items) := by
  intro others rest more same
  cases others with
  | nil =>
      rw [shownItems, shownItems, List.append_assoc] at same
      exact absurd same (key.shown_ne_closing _ _)
  | cons other others =>
      rw [shownItems, shownItems, List.append_assoc, List.append_assoc] at same
      obtain ⟨copy, behind⟩ :=
        first other _ _ (follows_shownRest items rest) (follows_shownRest others more) same
      suffices keyCopies items = keyCopies others ∧ rest = more from
        ⟨by rw [keyCopies, keyCopies, copy, this.1], this.2⟩
      cases items with
      | nil =>
          cases others with
          | nil => exact ⟨rfl, (List.cons.inj (List.cons.inj behind).2).2⟩
          | cons => exact absurd (List.cons.inj (List.cons.inj behind).2).1 (by decide)
      | cons =>
          cases others with
          | nil => exact absurd (List.cons.inj (List.cons.inj behind).2).1 (by decide)
          | cons => exact inside _ rest more behind

mutual

theorem Key.readsOneWay (key : Key) : key.ReadsOneWay := by
  match key with
  | .none | .bool _ | .int _ | .float _ => exact Key.readsOneWay_of_word? rfl
  | .str content => exact Key.readsOneWay_str content
  | .tuple [] => exact Key.readsOneWay_tuple itemsReadOneWay_nil
  | .tuple (item :: items) =>
      exact Key.readsOneWay_tuple (itemsReadOneWay_cons item.readsOneWay (tailReadsOneWay items))

theorem tailReadsOneWay (items : List Key) : TailReadsOneWay items := by
  match items with
  | [] => exact tailReadsOneWay_nil
  | item :: items => exact tailReadsOneWay_cons item.readsOneWay (tailReadsOneWay items)

end

/-- The name of the member that an entry with this key becomes. -/
def Key.memberName (key : Key) : String := key.copy.keyText

theorem Key.memberName_of_word? {key : Key} {text : String}
    (found : Vocabulary.interchange.word? key = some text) : key.memberName = text := by
  cases key with
  | none | bool | int | float =>
      cases found
      rfl
  | str | tuple => cases found

theorem Key.memberName_tuple (items : List Key) :
    (Key.tuple items).memberName.toList = (Key.tuple items).shown := rfl

def Key.isText : Key → Bool
  | .str _ => true
  | _ => false

theorem Key.exists_content {key : Key} (text : key.isText = true) :
    ∃ content, key = .str content := by
  cases key with
  | str content => exact ⟨content, rfl⟩
  | none | bool | int | float | tuple => cases text

theorem Key.word_or_tuple {key : Key} (other : key.isText = false) :
    (∃ text, Vocabulary.interchange.word? key = some text) ∨ ∃ items, key = .tuple items := by
  cases key with
  | none | bool | int | float => exact .inl ⟨_, rfl⟩
  | str => cases other
  | tuple items => exact .inr ⟨items, rfl⟩

/-- A key is a text that is the name of the member for another key, which is no text itself. -/
def Key.Spells (key other : Key) : Prop := key = .str other.memberName ∧ other.isText = false

theorem Key.not_word_of_tuple {key : Key} {items : List Key} {text : String}
    (found : Vocabulary.interchange.word? key = some text) : text ≠ (Key.tuple items).memberName := by
  intro same
  have plain := Vocabulary.sound_interchange.plain_of_word? found
  have opens : '(' ∈ text.toList := by
    rw [same, memberName_tuple, shown_tuple]
    exact List.mem_cons_self
  exact absurd (plain _ opens) (by decide)

/-- Keys that are no texts have members of the same name only if they have the same copy. -/
theorem Key.eq_of_memberName {k l : Key} (first : k.isText = false) (second : l.isText = false)
    (same : k.memberName = l.memberName) : k.copy = l.copy := by
  rcases word_or_tuple first with ⟨text, found⟩ | ⟨items, rfl⟩ <;>
    rcases word_or_tuple second with ⟨other, foundToo⟩ | ⟨others, rfl⟩
  · rw [memberName_of_word? found, memberName_of_word? foundToo] at same
    exact Vocabulary.sound_interchange.eq_of_word? found (same ▸ foundToo)
  · rw [memberName_of_word? found] at same
    exact absurd same (not_word_of_tuple found)
  · rw [memberName_of_word? foundToo] at same
    exact absurd same.symm (not_word_of_tuple foundToo)
  · have spelled := congrArg String.toList same
    rw [memberName_tuple, memberName_tuple] at spelled
    exact ((Key.tuple items).readsOneWay (.tuple others) [] [] nofun nofun (by rw [spelled])).1

theorem Key.finds_self (key : Key) : key.finds key = true := by
  rw [finds, beq_self_eq_true, Bool.true_and]
  exact (Key.Matches.refl Number.Same.refl key).equal

/-- Two keys that a look-up tells apart have members of one name exactly if one is a text that spells
the other, unless NaNs are all that they differ in. -/
theorem Key.memberName_eq_iff {k l : Key} (apart : k.finds l = false)
    (differ : ¬ k.SameButNaNs l) :
    k.memberName = l.memberName ↔ k.Spells l ∨ l.Spells k := by
  have different : k ≠ l := by
    rintro rfl
    rw [finds_self] at apart
    cases apart
  constructor
  · intro same
    cases first : k.isText with
    | false =>
        cases second : l.isText with
        | false =>
            have copies := eq_of_memberName first second same
            rcases eq_of_copy copies with equal | ⟨holds, -⟩
            · exact absurd equal different
            · exact absurd ⟨holds, copies⟩ differ
        | true =>
            obtain ⟨content, rfl⟩ := exists_content second
            exact .inr ⟨congrArg Key.str same.symm, first⟩
    | true =>
        obtain ⟨content, rfl⟩ := exists_content first
        cases second : l.isText with
        | false => exact .inl ⟨congrArg Key.str same, second⟩
        | true =>
            obtain ⟨other, rfl⟩ := exists_content second
            exact absurd (congrArg Key.str same) different
  · rintro (⟨rfl, -⟩ | ⟨rfl, -⟩) <;> rfl

end Stepwise
