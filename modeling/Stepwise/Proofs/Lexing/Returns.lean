import Stepwise.Proofs.Lexing.Lookahead

/-!
Lexemes of texts whose lines end with a carriage return and a line feed.

A lexeme other than a string goes over no line end and is read as before.  A string keeps the carriage
returns that it is written with, except that an escaped line feed is none behind a carriage return.
-/

namespace Stepwise.Script

def withReturns (text : List Char) : List Char :=
  text.flatMap fun c => if c = '\n' then ['\r', '\n'] else [c]

@[simp] theorem withReturns_nil : withReturns [] = [] := rfl

@[simp] theorem withReturns_append (front text : List Char) :
    withReturns (front ++ text) = withReturns front ++ withReturns text :=
  List.flatMap_append

@[simp] theorem withReturns_feed (text : List Char) :
    withReturns ('\n' :: text) = '\r' :: '\n' :: withReturns text := rfl

theorem withReturns_cons {c : Char} (visible : c ≠ '\n') (text : List Char) :
    withReturns (c :: text) = c :: withReturns text := by
  rw [withReturns, List.flatMap_cons, if_neg visible, List.singleton_append, withReturns]

theorem withReturns_of_visible {text : List Char} (visible : '\n' ∉ text) :
    withReturns text = text := by
  induction text with
  | nil => rfl
  | cons c text inductionHypothesis =>
      rw [List.mem_cons, not_or] at visible
      rw [withReturns_cons (Ne.symm visible.1), inductionHypothesis visible.2]

theorem ne_feed_of_inWord {c : Char} (inside : inWord c = true) : c ≠ '\n' := by
  rintro rfl
  cases inside

theorem unbroken_withReturns (text : List Char) : unbroken (withReturns text) = unbroken text := by
  induction text with
  | nil => rfl
  | cons c text inductionHypothesis =>
      cases inside : inWord c with
      | true =>
          rw [withReturns_cons (ne_feed_of_inWord inside), unbroken_cons inside, unbroken_cons inside,
            inductionHypothesis]
      | false =>
          by_cases feed : c = '\n'
          · rw [feed, withReturns_feed, unbroken_cons_of_not rfl, unbroken_cons_of_not rfl]
          · rw [withReturns_cons feed, unbroken_cons_of_not inside, unbroken_cons_of_not inside]

def escapesFeed : List Char → Bool
  | '\\' :: c :: rest => c == '\n' || escapesFeed rest
  | _ :: rest => escapesFeed rest
  | [] => false

/-- What a string stands for that is written with these characters between its quotes. -/
def meaning : List Char → List Char
  | '\\' :: c :: rest => Lexeme.unescape c ++ meaning rest
  | c :: rest => c :: meaning rest
  | [] => []

theorem meaning_cons {c : Char} (plain : c ≠ '\\') (rest : List Char) :
    meaning (c :: rest) = c :: meaning rest := by
  rw [meaning.eq_def]
  split
  · rename_i same
    cases same
    exact absurd rfl plain
  · rename_i same
    cases same
    rfl
  · rename_i same
    cases same

theorem escapesFeed_cons {c : Char} (plain : c ≠ '\\') (rest : List Char) :
    escapesFeed (c :: rest) = escapesFeed rest := by
  rw [escapesFeed.eq_def]
  split
  · rename_i same
    cases same
    exact absurd rfl plain
  · rename_i same
    cases same
    rfl
  · rename_i same
    cases same

def quotes (quote : Char) (triple : Bool) : List Char :=
  if triple then [quote, quote, quote] else [quote]

theorem Lexeme.isPrefixOf_withReturns {quote : Char} (isQuote : inWord quote = true)
    (text : List Char) :
    [quote, quote].isPrefixOf (withReturns text) = [quote, quote].isPrefixOf text := by
  have inside : ∀ c ∈ [quote, quote], inWord c = true := by simpa using isQuote
  rw [← isPrefixOf_unbroken inside, unbroken_withReturns, isPrefixOf_unbroken inside]

namespace Lexeme

def bodyBehind (content written : List Char) (body : Option (List Char × Nat)) :
    Option (List Char × Nat) :=
  body.map fun body => (content ++ body.1, body.2 + written.length)

section

variable {quote : Char} {triple : Bool}

theorem stringBody_plain {c : Char} (inner : c ≠ quote) (bare : c ≠ '\\')
    (visible : c ≠ '\n' ∨ triple = true) (rest : List Char) :
    stringBody quote triple (c :: rest) = bodyBehind [c] [c] (stringBody quote triple rest) := by
  rw [stringBody.eq_def]
  rcases visible with visible | rfl <;> simp [bodyBehind, *]

theorem stringBody_escape (apart : quote ≠ '\\') (c : Char) (rest : List Char) :
    stringBody quote triple ('\\' :: c :: rest) =
      bodyBehind (unescape c) ['\\', c] (stringBody quote triple rest) := by
  rw [stringBody.eq_def]
  simp [apart.symm, bodyBehind]

theorem stringBody_feed (apart : quote ≠ '\n') (rest : List Char) :
    stringBody quote false ('\n' :: rest) = none := by
  rw [stringBody.eq_def]
  simp [apart.symm]

end

/-- What is read behind the opening quotes of a string, without and with carriage returns. -/
inductive BodyTwin (quote : Char) (triple : Bool) (text : List Char) :
    Option (List Char × Nat) → Option (List Char × Nat) → Prop where
  | unclosed : BodyTwin quote triple text none none
  | closed {inner rest : List Char} {returned : Option (List Char × Nat)} :
      text = inner ++ quotes quote triple ++ rest →
      (∀ body ∈ returned, body.2 = (withReturns inner).length + (quotes quote triple).length) →
      (escapesFeed inner = false → returned = some
        (meaning (withReturns inner), (withReturns inner).length + (quotes quote triple).length)) →
      BodyTwin quote triple text
        (some (meaning inner, inner.length + (quotes quote triple).length)) returned

namespace BodyTwin

variable {quote : Char} {triple : Bool} {text rest : List Char}
  {body returned : Option (List Char × Nat)}

theorem bodyBehind_closed {written content : List Char}
    (means : ∀ rest, meaning (written ++ rest) = content ++ meaning rest) (inner : List Char)
    (closing : Nat) :
    bodyBehind content written (some (meaning inner, inner.length + closing)) =
      some (meaning (written ++ inner), (written ++ inner).length + closing) := by
  simp only [bodyBehind, Option.map_some, means, List.length_append]
  congr 2
  omega

/-- Characters at the front that stand for a content also with carriage returns, if they do not escape
a line feed. -/
theorem behind {written content content' : List Char}
    (means : ∀ rest, meaning (written ++ rest) = content ++ meaning rest)
    (safe : ∀ rest, escapesFeed (written ++ rest) = false → escapesFeed rest = false ∧
      meaning (withReturns (written ++ rest)) = content' ++ meaning (withReturns rest))
    (twin : BodyTwin quote triple text body returned) :
    BodyTwin quote triple (written ++ text) (bodyBehind content written body)
      (bodyBehind content' (withReturns written) returned) := by
  cases twin with
  | unclosed => exact .unclosed
  | @closed inner rest _ split lengths plain =>
      rw [bodyBehind_closed means]
      refine .closed (by rw [split, List.append_assoc, List.append_assoc, List.append_assoc]) ?_ ?_
      · intro later member
        obtain ⟨earlier, found, rfl⟩ := Option.mem_map.mp member
        simp only [lengths earlier found, withReturns_append, List.length_append]
        omega
      · intro unescaped
        obtain ⟨unescaped, same⟩ := safe inner unescaped
        rw [plain unescaped, same]
        simp only [bodyBehind, Option.map_some, withReturns_append, List.length_append]
        congr 2
        omega

/-- Characters at the front that escape a line feed, so that the string is not closed any more. -/
theorem lost {written content : List Char}
    (means : ∀ rest, meaning (written ++ rest) = content ++ meaning rest)
    (escapes : ∀ rest, escapesFeed (written ++ rest) = true)
    (twin : BodyTwin quote triple text body returned) :
    BodyTwin quote triple (written ++ text) (bodyBehind content written body) none := by
  cases twin with
  | unclosed => exact .unclosed
  | @closed inner rest _ split _ _ =>
      rw [bodyBehind_closed means]
      refine .closed (by rw [split, List.append_assoc, List.append_assoc, List.append_assoc]) nofun ?_
      intro unescaped
      rw [escapes] at unescaped
      cases unescaped

/-- A character at the front that is neither a backslash nor a line feed. -/
theorem cons {c : Char} (bare : c ≠ '\\') (visible : c ≠ '\n')
    (twin : BodyTwin quote triple text body returned) :
    BodyTwin quote triple (c :: text) (bodyBehind [c] [c] body) (bodyBehind [c] [c] returned) := by
  have front : BodyTwin quote triple ([c] ++ text) (bodyBehind [c] [c] body)
      (bodyBehind [c] (withReturns [c]) returned) := by
    refine twin.behind (fun rest => meaning_cons bare rest) fun rest unescaped => ?_
    rw [List.singleton_append, escapesFeed_cons bare] at unescaped
    rw [List.singleton_append, withReturns_cons visible, meaning_cons bare]
    exact ⟨unescaped, rfl⟩
  rwa [show withReturns [c] = [c] from withReturns_cons visible []] at front

/-- A line feed at the front, which a carriage return comes before. -/
theorem feed (twin : BodyTwin quote triple text body returned) :
    BodyTwin quote triple ('\n' :: text) (bodyBehind ['\n'] ['\n'] body)
      (bodyBehind ['\r'] ['\r'] (bodyBehind ['\n'] ['\n'] returned)) := by
  have front : BodyTwin quote triple (['\n'] ++ text) (bodyBehind ['\n'] ['\n'] body)
      (bodyBehind ['\r', '\n'] (withReturns ['\n']) returned) := by
    refine twin.behind (fun rest => meaning_cons (by decide) rest) fun rest unescaped => ?_
    exact ⟨unescaped, rfl⟩
  cases returned <;> exact front

/-- An escaped line feed at the front, which is not escaped behind a carriage return. -/
theorem escapedFeed (twin : BodyTwin quote triple text body (stringBody quote triple rest))
    (apart : quote ≠ '\n') :
    BodyTwin quote triple ('\\' :: '\n' :: text) (bodyBehind [] ['\\', '\n'] body)
      (bodyBehind ['\\', '\r'] ['\\', '\r'] (stringBody quote triple ('\n' :: rest))) := by
  have means : ∀ rest, meaning (['\\', '\n'] ++ rest) = [] ++ meaning rest := fun _ => rfl
  cases triple with
  | false =>
      rw [stringBody_feed apart]
      exact twin.lost means fun _ => rfl
  | true =>
      have front : BodyTwin quote true (['\\', '\n'] ++ text) (bodyBehind [] ['\\', '\n'] body)
          (bodyBehind ['\\', '\r', '\n'] (withReturns ['\\', '\n']) (stringBody quote true rest)) :=
        twin.behind means fun rest unescaped => by cases unescaped
      rw [stringBody_plain apart.symm (by decide) (.inr rfl)]
      cases found : stringBody quote true rest <;> rw [found] at front <;> exact front

theorem escape {c : Char} (visible : c ≠ '\n') (twin : BodyTwin quote triple text body returned) :
    BodyTwin quote triple ('\\' :: c :: text) (bodyBehind (unescape c) ['\\', c] body)
      (bodyBehind (unescape c) ['\\', c] returned) := by
  have same : ∀ rest, withReturns ('\\' :: c :: rest) = '\\' :: c :: withReturns rest := by
    intro rest
    rw [withReturns_cons (by decide), withReturns_cons visible]
  have front : BodyTwin quote triple (['\\', c] ++ text) (bodyBehind (unescape c) ['\\', c] body)
      (bodyBehind (unescape c) (withReturns ['\\', c]) returned) := by
    refine twin.behind (fun rest => rfl) fun rest unescaped => ?_
    refine ⟨(Bool.or_eq_false_iff.mp unescaped).2, ?_⟩
    rw [List.cons_append, List.cons_append, List.nil_append, same]
    rfl
  rwa [same] at front

theorem closing (rest : List Char) :
    BodyTwin quote triple (quotes quote triple ++ rest) (some ([], (quotes quote triple).length))
      (some ([], (quotes quote triple).length)) := by
  have length : (quotes quote triple).length = ([] : List Char).length + (quotes quote triple).length :=
    (Nat.zero_add _).symm
  rw [length]
  change BodyTwin quote triple ([] ++ quotes quote triple ++ rest) (some (meaning [], _)) _
  refine .closed rfl ?_ fun _ => rfl
  intro body same
  cases same
  rfl

end BodyTwin

section

variable {quote : Char} {triple : Bool}

theorem stringBody_quotes (rest : List Char) :
    stringBody quote triple (quotes quote triple ++ rest) = some ([], (quotes quote triple).length) := by
  rw [quotes]
  cases triple <;> simp [stringBody.eq_def, List.isPrefixOf]

theorem stringBody_quote {rest : List Char} (inside : [quote, quote].isPrefixOf rest = false) :
    stringBody quote true (quote :: rest) = bodyBehind [quote] [quote] (stringBody quote true rest) := by
  rw [stringBody.eq_def]
  simp [inside, bodyBehind]

end

theorem stringBody_withReturns {quote : Char} (isQuote : quote = '\'' ∨ quote = '"') (triple : Bool)
    (text : List Char) :
    BodyTwin quote triple text (stringBody quote triple text)
      (stringBody quote triple (withReturns text)) := by
  have word : inWord quote = true := by rcases isQuote with rfl | rfl <;> rfl
  have apart : quote ≠ '\\' ∧ quote ≠ '\n' ∧ quote ≠ '\r' := by
    rcases isQuote with rfl | rfl <;> decide
  fun_induction stringBody quote triple text with
  | case1 => exact .unclosed
  | case2 c rest closes single =>
      obtain rfl := beq_iff_eq.mp closes
      obtain rfl : triple = false := by simpa using single
      rw [withReturns_cons apart.2.1]
      exact stringBody_quotes (withReturns rest) ▸ BodyTwin.closing rest
  | case3 c rest closes long ends =>
      obtain rfl := beq_iff_eq.mp closes
      obtain rfl : triple = true := by simpa using long
      obtain ⟨others, rfl⟩ := List.isPrefixOf_iff_prefix.mp ends
      simp only [List.cons_append, List.nil_append, withReturns_cons apart.2.1]
      exact stringBody_quotes (withReturns others) ▸ BodyTwin.closing others
  | case4 c rest closes long inside inductionHypothesis =>
      obtain rfl := beq_iff_eq.mp closes
      obtain rfl : triple = true := by simpa using long
      rw [withReturns_cons apart.2.1, stringBody_quote (by
        rw [isPrefixOf_withReturns word]
        exact eq_false_of_ne_true inside)]
      exact inductionHypothesis.cons apart.1 apart.2.1
  | case5 c rest open_ feed =>
      obtain ⟨same, single⟩ := Bool.and_eq_true_iff.mp feed
      obtain rfl := beq_iff_eq.mp same
      obtain rfl : triple = false := by simpa using single
      rw [withReturns_feed, stringBody_plain apart.2.2.symm (by decide) (.inl (by decide)),
        stringBody_feed apart.2.1]
      exact .unclosed
  | case6 c open_ visible escapes =>
      obtain rfl := beq_iff_eq.mp escapes
      have none_read : stringBody quote triple ['\\'] = none := by
        rw [stringBody.eq_def]
        simp [apart.1.symm]
      rw [withReturns_of_visible (by simp), none_read]
      exact .unclosed
  | case7 c open_ visible escapes escaped more inductionHypothesis =>
      obtain rfl := beq_iff_eq.mp escapes
      by_cases feed : escaped = '\n'
      · subst feed
        rw [withReturns_cons (by decide), withReturns_feed, stringBody_escape apart.1]
        exact inductionHypothesis.escapedFeed apart.2.1
      · rw [withReturns_cons (by decide), withReturns_cons feed, stringBody_escape apart.1]
        exact inductionHypothesis.escape feed
  | case8 c rest open_ visible plain inductionHypothesis =>
      have bare : c ≠ '\\' := by simpa using plain
      have inner : c ≠ quote := by simpa using open_
      by_cases feed : c = '\n'
      · subst feed
        obtain rfl : triple = true := by simpa using visible
        rw [withReturns_feed, stringBody_plain apart.2.2.symm (by decide) (.inr rfl),
          stringBody_plain inner bare (.inr rfl)]
        exact inductionHypothesis.feed
      · rw [withReturns_cons feed, stringBody_plain inner bare (.inl feed)]
        exact inductionHypothesis.cons bare feed

theorem read_withReturns {c : Char} (inside : inWord c = true)
    (unquoted : (c == '\'' || c == '"') = false) (rest : List Char) :
    read c (withReturns rest) = read c rest := by
  rw [← read_unbroken inside unquoted, unbroken_withReturns, read_unbroken inside unquoted]

theorem quotes_append_drop (quote : Char) (text : List Char) :
    quotes quote ([quote, quote].isPrefixOf text) ++ text.drop (openingLength quote text) =
      quote :: text := by
  unfold openingLength quotes
  split
  · rename_i triple
    obtain ⟨others, rfl⟩ := List.isPrefixOf_iff_prefix.mp triple
    rfl
  · rfl

theorem openingLength_add_one (quote : Char) (text : List Char) :
    openingLength quote text + 1 = (quotes quote ([quote, quote].isPrefixOf text)).length := by
  unfold openingLength quotes
  split <;> rfl

theorem withReturns_quotes {quote : Char} (visible : quote ≠ '\n') (triple : Bool) :
    withReturns (quotes quote triple) = quotes quote triple := by
  apply withReturns_of_visible
  cases triple <;> simp [quotes, visible.symm]

/-- Behind the quotes that open a string stands what stood there before, with carriage returns. -/
theorem drop_withReturns {quote : Char} (isQuote : inWord quote = true) (text : List Char) :
    openingLength quote (withReturns text) = openingLength quote text ∧
      (withReturns text).drop (openingLength quote text) =
        withReturns (text.drop (openingLength quote text)) := by
  have visible := ne_feed_of_inWord isQuote
  have triple := isPrefixOf_withReturns isQuote text
  have same : openingLength quote (withReturns text) = openingLength quote text := by
    rw [openingLength, openingLength, triple]
  refine ⟨same, ?_⟩
  have front := quotes_append_drop quote (withReturns text)
  rw [triple, same, ← withReturns_cons visible, ← quotes_append_drop quote text, withReturns_append,
    withReturns_quotes visible] at front
  exact List.append_cancel_left front

theorem readString_eq_error_iff {quote : Char} {rest : List Char} {problem : SyntaxProblem} :
    readString quote rest = .error problem ↔
      stringBody quote ([quote, quote].isPrefixOf rest) (rest.drop (openingLength quote rest)) = none ∧
        problem = .openString := by
  simp only [readString, openingLength]
  cases stringBody quote ([quote, quote].isPrefixOf rest)
    (rest.drop (if [quote, quote].isPrefixOf rest then 2 else 0)) with
  | none => simp [eq_comm]
  | some body => simp

theorem read_withReturns_error {c : Char} (inside : inWord c = true) {rest : List Char}
    {problem : SyntaxProblem} (failed : read c rest = .error problem) :
    ∃ other, read c (withReturns rest) = .error other := by
  cases quoted : (c == '\'' || c == '"') with
  | false => exact ⟨problem, by rw [read_withReturns inside quoted, failed]⟩
  | true =>
      refine ⟨.openString, ?_⟩
      have isQuote : c = '\'' ∨ c = '"' := by simpa using quoted
      have twin := stringBody_withReturns isQuote ([c, c].isPrefixOf rest)
        (rest.drop (openingLength c rest))
      obtain ⟨same, behind⟩ := drop_withReturns inside rest
      rw [read_of_quote quoted, readString_eq_error_iff] at failed ⊢
      rw [isPrefixOf_withReturns inside, same, behind]
      rw [failed.1] at twin
      cases found : stringBody c ([c, c].isPrefixOf rest)
        (withReturns (rest.drop (openingLength c rest))) with
      | none => exact ⟨rfl, rfl⟩
      | some body =>
          rw [found] at twin
          cases twin

end Lexeme

def TokenKind.isString : TokenKind → Bool
  | .str _ => true
  | _ => false

theorem Lexeme.ofWord_isString (word : String) : (ofWord word).isString = false := by
  unfold ofWord
  split
  · rfl
  · split <;> rfl

theorem Lexeme.read_isString {c : Char} (unquoted : (c == '\'' || c == '"') = false)
    {rest : List Char} {lexeme : Lexeme} (found : read c rest = .ok lexeme) :
    lexeme.kind.isString = false := by
  refine read_kind (P := fun kind => kind.isString = false) (fun _ => rfl) (fun _ => rfl)
    ofWord_isString (fun _ => rfl) ?_ found
  intro quoted
  rw [unquoted] at quoted
  cases quoted

/-- What a lexeme that is written in some way becomes with carriage returns. -/
inductive KindTwin (written : List Char) : TokenKind → TokenKind → Prop where
  | same {kind : TokenKind} : kind.isString = false → KindTwin written kind kind
  | string {quote : Char} {triple : Bool} {inner : List Char} {content : String} :
      quote = '\'' ∨ quote = '"' → written = quotes quote triple ++ inner ++ quotes quote triple →
      (escapesFeed inner = false → content = String.ofList (meaning (withReturns inner))) →
      KindTwin written (.str (String.ofList (meaning inner))) (.str content)

theorem mem_unbroken_inWord {text : List Char} {c : Char} (member : c ∈ unbroken text) :
    inWord c = true :=
  List.all_eq_true.mp List.all_takeWhile c member

theorem Fronts.withReturns_of_unquoted {c : Char} {more rest : List Char} {kind : TokenKind}
    (fronts : Fronts (c :: more) kind rest) (unquoted : (c == '\'' || c == '"') = false) :
    Fronts (withReturns (c :: more)) kind (withReturns rest) ∧ kind.isString = false := by
  cases fronts with
  | @intro _ _ _ lexeme opens found whole =>
      have inside := inWord_of_opensLexeme opens
      -- the lexeme is read within its line
      have visible : '\n' ∉ more := by
        have fits := Lexeme.read_length_le ((Lexeme.read_unbroken inside unquoted _).trans found)
        have part : more <+: unbroken (more ++ rest) :=
          List.prefix_of_prefix_length_le (List.prefix_append more rest) (List.takeWhile_prefix _)
            (by omega)
        intro member
        cases mem_unbroken_inWord (part.subset member)
      refine ⟨?_, Lexeme.read_isString unquoted found⟩
      rw [withReturns_cons (ne_feed_of_inWord inside), withReturns_of_visible visible]
      refine .intro opens ?_ whole
      have same := Lexeme.read_withReturns inside unquoted (more ++ rest)
      rw [withReturns_append, withReturns_of_visible visible] at same
      rw [same, found]

theorem escapesFeed_append {inner : List Char} (escapes : escapesFeed inner = true)
    (rest : List Char) : escapesFeed (inner ++ rest) = true := by
  fun_induction escapesFeed inner with
  | case1 c inner inductionHypothesis =>
      rcases Bool.or_eq_true_iff.mp escapes with feed | later
      · exact Bool.or_eq_true_iff.mpr (.inl feed)
      · exact Bool.or_eq_true_iff.mpr (.inr (inductionHypothesis later))
  | case2 c inner other inductionHypothesis =>
      have bare : c ≠ '\\' := by
        rintro rfl
        cases inner with
        | nil => cases escapes
        | cons d inner => exact other d inner rfl rfl
      rw [List.cons_append, escapesFeed_cons bare]
      exact inductionHypothesis escapes
  | case3 => cases escapes

theorem escapesFeed_quotes {quote : Char} (apart : quote ≠ '\\') (triple : Bool) {inner : List Char}
    (escapes : escapesFeed inner = true) :
    escapesFeed (quotes quote triple ++ inner ++ quotes quote triple) = true := by
  have closed := escapesFeed_append escapes (quotes quote triple)
  cases triple <;> simpa [quotes, escapesFeed_cons apart] using closed

/-- A string as it is written, and the body that is read behind its quotes with carriage returns. -/
theorem Lexeme.readString_twin {c : Char} (isQuote : c = '\'' ∨ c = '"') {more rest : List Char}
    {lexeme : Lexeme} (found : readString c (more ++ rest) = .ok lexeme)
    (whole : lexeme.length = more.length + 1) :
    let triple := [c, c].isPrefixOf (more ++ rest)
    let opening := openingLength c (more ++ rest)
    let returned := stringBody c triple (withReturns ((more ++ rest).drop opening))
    ∃ inner, c :: more = quotes c triple ++ inner ++ quotes c triple ∧
      lexeme.kind = .str (String.ofList (meaning inner)) ∧
      (∀ body ∈ returned, 1 + opening + body.2 = (withReturns more).length + 1) ∧
      (escapesFeed inner = false → ∃ n, returned = some (meaning (withReturns inner), n)) := by
  intro triple opening returned
  have visible : c ≠ '\n' := by rcases isQuote with rfl | rfl <;> decide
  obtain ⟨content, n, body, kind, length⟩ := readString_eq_ok_iff.mp found
  have twin := stringBody_withReturns isQuote triple ((more ++ rest).drop opening)
  have opened : opening + 1 = (quotes c triple).length := openingLength_add_one c (more ++ rest)
  have front : quotes c triple ++ (more ++ rest).drop opening = c :: (more ++ rest) :=
    quotes_append_drop c (more ++ rest)
  rw [body] at twin
  cases twin with
  | @closed inner tail _ split lengths plain =>
      have parts : (c :: more) ++ rest = (quotes c triple ++ inner ++ quotes c triple) ++ tail := by
        rw [List.cons_append, ← front, split]
        simp only [List.append_assoc]
      obtain ⟨written, rfl⟩ := List.append_inj parts (by
        simp only [List.length_cons, List.length_append]
        omega)
      have around : withReturns (c :: more) =
          quotes c triple ++ withReturns inner ++ quotes c triple := by
        rw [written, withReturns_append, withReturns_append, withReturns_quotes visible]
      refine ⟨inner, written, kind, fun body member => ?_, fun unescaped => ⟨_, plain unescaped⟩⟩
      rw [withReturns_cons visible] at around
      have lengthAround := congrArg List.length around
      simp only [List.length_cons, List.length_append] at lengthAround
      have exactly := lengths body member
      omega

/-- A string keeps the carriage returns that it is written with, or is not closed any more. -/
theorem Fronts.withReturns_of_quoted {c : Char} {more rest : List Char} {kind : TokenKind}
    (fronts : Fronts (c :: more) kind rest) (quoted : (c == '\'' || c == '"') = true) :
    (∃ kind', Fronts (withReturns (c :: more)) kind' (withReturns rest) ∧
        KindTwin (c :: more) kind kind') ∨
      escapesFeed (c :: more) = true ∧
        Lexeme.read c (withReturns (more ++ rest)) = .error .openString := by
  cases fronts with
  | @intro _ _ _ lexeme opens found whole =>
      have inside := inWord_of_opensLexeme opens
      have isQuote : c = '\'' ∨ c = '"' := by simpa using quoted
      have apart : c ≠ '\\' ∧ c ≠ '\n' := by rcases isQuote with rfl | rfl <;> decide
      rw [Lexeme.read_of_quote quoted] at found ⊢
      obtain ⟨inner, written, kind, lengths, plain⟩ := Lexeme.readString_twin isQuote found whole
      obtain ⟨same, behind⟩ := Lexeme.drop_withReturns inside (more ++ rest)
      have triple := Lexeme.isPrefixOf_withReturns inside (more ++ rest)
      cases read : Lexeme.stringBody c ([c, c].isPrefixOf (more ++ rest))
        (withReturns ((more ++ rest).drop (Lexeme.openingLength c (more ++ rest)))) with
      | none =>
          refine .inr ⟨?_, Lexeme.readString_eq_error_iff.mpr ⟨?_, rfl⟩⟩
          · rw [written]
            refine escapesFeed_quotes apart.1 _ (eq_true_of_ne_false fun unescaped => ?_)
            obtain ⟨_, some⟩ := plain unescaped
            rw [some] at read
            cases read
          · rw [triple, same, behind, read]
      | some body =>
          obtain ⟨content, n⟩ := body
          refine .inl ⟨.str (String.ofList content), ?_, ?_⟩
          · rw [withReturns_cons apart.2]
            refine .of_read opens ⟨⟨.str (String.ofList content), (withReturns more).length + 1,
              Nat.succ_pos _⟩, ?_, rfl, rfl⟩
            rw [Lexeme.read_of_quote quoted, ← withReturns_append]
            refine Lexeme.readString_eq_ok_iff.mpr ⟨content, n, ?_, rfl, ?_⟩
            · rw [triple, same, behind, read]
            · rw [same]
              exact (lengths _ read).symm
          · rw [kind]
            refine .string isQuote written fun unescaped => ?_
            obtain ⟨_, some⟩ := plain unescaped
            rw [some] at read
            cases read
            rfl

/-- What becomes of a lexeme with carriage returns; only a string that escapes a line feed can be lost. -/
theorem Fronts.twin {written rest : List Char} {kind : TokenKind} (fronts : Fronts written kind rest) :
    (∃ kind', Fronts (withReturns written) kind' (withReturns rest) ∧ KindTwin written kind kind') ∨
      escapesFeed written = true ∧ ∃ c more, written = c :: more ∧ opensLexeme c = true ∧
        Lexeme.read c (withReturns (more ++ rest)) = .error .openString := by
  cases fronts with
  | @intro c more _ lexeme opens found whole =>
      have fronts : Fronts (c :: more) lexeme.kind rest := .intro opens found whole
      cases quoted : (c == '\'' || c == '"') with
      | false =>
          obtain ⟨same, plain⟩ := fronts.withReturns_of_unquoted quoted
          exact .inl ⟨_, same, .same plain⟩
      | true =>
          rcases fronts.withReturns_of_quoted quoted with twin | ⟨escapes, failed⟩
          · exact .inl twin
          · exact .inr ⟨escapes, c, more, rfl, opens, failed⟩

end Stepwise.Script
