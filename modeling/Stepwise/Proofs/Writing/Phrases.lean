import Stepwise.Proofs.Writing.Spelling

/-!
The tokens of an expression have spellings, and their brackets match.
-/

namespace Stepwise.Script

structure Phrase (tokens : List TokenKind) : Prop where
  spelled : ∀ kind ∈ tokens, kind.isSpelled = true
  matched : ∀ depth, depthAfter? depth tokens = some depth

def TokenKind.isPlain (kind : TokenKind) : Bool :=
  kind.isSpelled &&
    match kind with
    | .symbol sign => !sign.opens && !sign.closes
    | _ => true

theorem TokenKind.depthAfter?_of_isPlain {kind : TokenKind} (plain : kind.isPlain = true)
    (depth : Nat) : kind.depthAfter? depth = some depth := by
  cases kind with
  | symbol sign =>
      simp only [isPlain, isSpelled, Bool.true_and, Bool.and_eq_true, Bool.not_eq_true'] at plain
      simp [depthAfter?, plain]
  | _ => rfl

namespace Phrase

variable {tokens others : List TokenKind} {kind : TokenKind}

theorem nil : Phrase [] := ⟨by simp, fun _ => rfl⟩

theorem append (front : Phrase tokens) (behind : Phrase others) : Phrase (tokens ++ others) where
  spelled kind member := by
    rcases List.mem_append.mp member with member | member
    · exact front.spelled kind member
    · exact behind.spelled kind member
  matched depth := by simp [front.matched, behind.matched]

theorem cons (plain : kind.isPlain = true) (behind : Phrase others) : Phrase (kind :: others) where
  spelled := by
    have spelled : kind.isSpelled = true := (Bool.and_eq_true_iff.mp plain).1
    simpa [spelled] using behind.spelled
  matched depth := by simp [TokenKind.depthAfter?_of_isPlain plain, behind.matched]

theorem token (plain : kind.isPlain = true) : Phrase [kind] := nil.cons plain

theorem brackets {opening close : Symbol} (opens : opening.opens = true)
    (closes : close.closes = true) (inside : Phrase tokens) :
    Phrase (.symbol opening :: (tokens ++ [.symbol close])) where
  spelled := by
    have each : ∀ kind ∈ tokens, kind.isSpelled = true := inside.spelled
    intro kind member
    simp only [List.mem_cons, List.mem_append, List.not_mem_nil, or_false] at member
    rcases member with rfl | member | rfl
    · rfl
    · exact each kind member
    · rfl
  matched depth := by
    have apart : close.opens = false := by cases close <;> first | rfl | cases closes
    simp [TokenKind.depthAfter?, opens, inside.matched, closes, apart]

theorem placed {level rung : Level} (phrase : Phrase tokens) :
    Phrase (Script.placed level rung tokens) := by
  unfold Script.placed
  split
  · exact phrase
  · exact phrase.brackets rfl rfl

theorem separator {α : Type} (rest : List α) : Phrase (Script.separator rest) := by
  unfold Script.separator
  split
  · exact nil
  · exact token rfl

theorem soleComma {α : Type} (items : List α) : Phrase (Script.soleComma items) := by
  unfold Script.soleComma
  split
  · exact token rfl
  · exact nil

theorem name {name : String} (named : isName name = true) :
    (TokenKind.name name).isPlain = true :=
  (Bool.and_true _).trans named

theorem kinds (op : Comparison) : Phrase op.kinds := by
  cases op <;> first | exact token rfl | exact (token rfl).cons rfl

end Phrase

mutual

theorem Expr.phrase (expr : Expr) (writable : expr.isWritable = true) : Phrase expr.bare := by
  match expr, writable with
  | .none, _ => exact .token rfl
  | .bool true, _ => exact .token rfl
  | .bool false, _ => exact .token rfl
  | .int value, writable => exact .token ((Bool.and_true _).trans writable)
  | .float value, writable => cases writable
  | .str content, _ => exact .token rfl
  | .name name, writable => exact .token (Phrase.name writable)
  | .list items, writable => exact .brackets rfl rfl (itemTokens_phrase items writable)
  | .tuple items, writable =>
      exact .brackets rfl rfl ((itemTokens_phrase items writable).append (.soleComma items))
  | .dict entries, writable => exact .brackets rfl rfl (entryTokens_phrase entries writable)
  | .comprehension element clauses, writable =>
      simp only [Expr.isWritable, Bool.and_eq_true] at writable
      exact .brackets rfl rfl
        ((element.phrase writable.1.1).placed.append (clauseTokens_phrase clauses writable.2))
  | .unary op operand, writable =>
      exact (operand.phrase writable).placed.cons (by cases op <;> rfl)
  | .binary op left right, writable =>
      simp only [Expr.isWritable, Bool.and_eq_true] at writable
      exact (left.phrase writable.1).placed.append
        ((right.phrase writable.2).placed.cons (by cases op <;> rfl))
  | .compare left links, writable =>
      simp only [Expr.isWritable, Bool.and_eq_true] at writable
      exact (left.phrase writable.1.1).placed.append (linkTokens_phrase links writable.2)
  | .logic op left right, writable =>
      simp only [Expr.isWritable, Bool.and_eq_true] at writable
      exact (left.phrase writable.1).placed.append
        ((right.phrase writable.2).placed.cons (by cases op <;> rfl))
  | .conditional test body orelse, writable =>
      simp only [Expr.isWritable, Bool.and_eq_true] at writable
      exact (body.phrase writable.1.2).placed.append
        (((test.phrase writable.1.1).placed.append
          ((orelse.phrase writable.2).placed.cons rfl)).cons rfl)
  | .call function arguments, writable =>
      simp only [Expr.isWritable, Bool.and_eq_true] at writable
      exact (function.phrase writable.1.1).placed.append
        (.brackets rfl rfl (argumentTokens_phrase arguments writable.2))
  | .method object name arguments, writable =>
      simp only [Expr.isWritable, Bool.and_eq_true] at writable
      exact (object.phrase writable.1.1.1).placed.append
        (((Phrase.brackets rfl rfl (argumentTokens_phrase arguments writable.2)).cons
          (Phrase.name writable.1.1.2)).cons rfl)
  | .attribute object name, writable =>
      simp only [Expr.isWritable, Bool.and_eq_true] at writable
      exact (object.phrase writable.1).placed.append
        ((Phrase.token (Phrase.name writable.2)).cons rfl)
  | .index object index, writable =>
      simp only [Expr.isWritable, Bool.and_eq_true] at writable
      exact (object.phrase writable.1).placed.append
        (.brackets rfl rfl (index.phrase writable.2).placed)
  | .slice object lower upper step, writable =>
      simp only [Expr.isWritable, Bool.and_eq_true] at writable
      exact (object.phrase writable.1.1.1).placed.append (.brackets rfl rfl
        ((boundTokens_phrase lower writable.1.1.2).append
          (((boundTokens_phrase upper writable.1.2).append
            (stepTokens_phrase step writable.2)).cons rfl)))

theorem itemTokens_phrase (items : List Expr) (writable : itemsWritable items = true) :
    Phrase (itemTokens items) := by
  cases items with
  | nil => exact .nil
  | cons item rest =>
      simp only [itemsWritable, Bool.and_eq_true] at writable
      exact (item.phrase writable.1).placed.append
        ((Phrase.separator rest).append (itemTokens_phrase rest writable.2))

theorem entryTokens_phrase (entries : List (Expr × Expr))
    (writable : entriesWritable entries = true) : Phrase (entryTokens entries) := by
  cases entries with
  | nil => exact .nil
  | cons entry rest =>
      obtain ⟨key, value⟩ := entry
      simp only [entriesWritable, Bool.and_eq_true] at writable
      exact (key.phrase writable.1.1).placed.append (((value.phrase writable.1.2).placed.append
        ((Phrase.separator rest).append (entryTokens_phrase rest writable.2))).cons rfl)

theorem linkTokens_phrase (links : List (Comparison × Expr))
    (writable : linksWritable links = true) : Phrase (linkTokens links) := by
  cases links with
  | nil => exact .nil
  | cons link rest =>
      obtain ⟨op, operand⟩ := link
      simp only [linksWritable, Bool.and_eq_true] at writable
      exact (Phrase.kinds op).append
        ((operand.phrase writable.1).placed.append (linkTokens_phrase rest writable.2))

theorem clauseTokens_phrase (clauses : List Clause) (writable : clausesWritable clauses = true) :
    Phrase (clauseTokens clauses) := by
  cases clauses with
  | nil => exact .nil
  | cons clause rest =>
      obtain ⟨target, iterable, conditions⟩ := clause
      simp only [clausesWritable, Bool.and_eq_true] at writable
      exact ((target.phrase writable.1.1.1).append
        (((iterable.phrase writable.1.1.2).placed.append
          ((conditionTokens_phrase conditions writable.1.2).append
            (clauseTokens_phrase rest writable.2))).cons rfl)).cons rfl

theorem conditionTokens_phrase (conditions : List Expr)
    (writable : itemsWritable conditions = true) : Phrase (conditionTokens conditions) := by
  cases conditions with
  | nil => exact .nil
  | cons condition rest =>
      simp only [itemsWritable, Bool.and_eq_true] at writable
      exact ((condition.phrase writable.1).placed.append
        (conditionTokens_phrase rest writable.2)).cons rfl

theorem argumentTokens_phrase (arguments : List Argument)
    (writable : argumentsWritable arguments = true) : Phrase (argumentTokens arguments) := by
  cases arguments with
  | nil => exact .nil
  | cons argument rest =>
      cases argument with
      | positional value =>
          simp only [argumentsWritable, Bool.and_eq_true] at writable
          exact (value.phrase writable.1).placed.append
            ((Phrase.separator rest).append (argumentTokens_phrase rest writable.2))
      | keyword name value =>
          simp only [argumentsWritable, Bool.and_eq_true] at writable
          exact (((value.phrase writable.1.2).placed.append ((Phrase.separator rest).append
            (argumentTokens_phrase rest writable.2))).cons rfl).cons (Phrase.name writable.1.1)

theorem boundTokens_phrase (bound : Option Expr) (writable : boundWritable bound = true) :
    Phrase (boundTokens bound) := by
  cases bound with
  | none => exact .nil
  | some value => exact (value.phrase writable).placed

theorem stepTokens_phrase (step : Option Expr) (writable : boundWritable step = true) :
    Phrase (stepTokens step) := by
  cases step with
  | none => exact .nil
  | some value => exact (value.phrase writable).placed.cons rfl

theorem Target.phrase (target : Target) (writable : target.isWritable = true) :
    Phrase target.bare := by
  cases target with
  | name name => exact .token (Phrase.name writable)
  | index object index =>
      simp only [Target.isWritable, Bool.and_eq_true] at writable
      exact (object.phrase writable.1).placed.append
        (.brackets rfl rfl (index.phrase writable.2).placed)
  | unpack items =>
      exact .brackets rfl rfl ((targetTokens_phrase items writable).append (.soleComma items))

theorem targetTokens_phrase (items : List Target) (writable : targetsWritable items = true) :
    Phrase (targetTokens items) := by
  cases items with
  | nil => exact .nil
  | cons item rest =>
      simp only [targetsWritable, Bool.and_eq_true] at writable
      exact (item.phrase writable.1).append
        ((Phrase.separator rest).append (targetTokens_phrase rest writable.2))

end

end Stepwise.Script
