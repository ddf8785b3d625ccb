import Mathlib
import Stepwise.Exchange.Response
import Stepwise.Proofs.Sources

/-!
The texts of failures.

Every failure says what went wrong, but for one kind: an error without a message that ends the
top-level statements of a source.  The same error in a call is given by the name of its class.
-/

namespace Stepwise.Run

theorem DivisionProblem.text_ne_empty (problem : DivisionProblem) : problem.text ≠ "" := by
  cases problem <;> decide

theorem IndexProblem.text_ne_empty (problem : IndexProblem) : problem.text ≠ "" := by
  cases problem <;> decide

theorem argumentCountText_ne_empty (function : String) (least : Nat) (most : Option Nat) (given : Nat) :
    argumentCountText function least most given ≠ "" := by
  unfold argumentCountText
  repeat' split
  all_goals simp [toString]

theorem TypeProblem.text_ne_empty (problem : TypeProblem) : problem.text ≠ "" := by
  unfold text
  cases problem with
  | argumentCount function least most given => exact argumentCountText_ne_empty function least most given
  | _ => simp [toString]

theorem ValueProblem.text_ne_empty (problem : ValueProblem) : problem.text ≠ "" := by
  unfold text
  cases problem <;> simp [toString]

namespace RuntimeError

/-- Errors that say nothing but their class: a key, a failed check or a class whose message stands for
itself, where a script gave no text or an empty one. -/
inductive Wordless : RuntimeError → Prop where
  | key : Wordless (.key "")
  | assertion : Wordless (.assertion (some ""))
  | raised {className : String} : className ∈ plainKinds → Wordless (.raised className "")

theorem message_raised (className text : String) : message (.raised className text) =
    if text.isEmpty && !plainKinds.contains className then className else text := rfl

theorem Wordless.message_eq_empty {error : RuntimeError} (wordless : error.Wordless) :
    error.message = "" := by
  cases wordless with
  | raised plain => simp [message_raised, plain]
  | _ => rfl

variable {error : RuntimeError} (genuine : error.Genuine)

include genuine

theorem kind_ne_empty : error.kind ≠ "" := by
  cases error with
  | raised className text => exact genuine
  | _ => simp [kind]

theorem message_eq_empty_iff : error.message = "" ↔ error.Wordless := by
  refine ⟨fun empty => ?_, Wordless.message_eq_empty⟩
  unfold message at empty
  cases error with
  | zeroDivision problem => exact absurd empty problem.text_ne_empty
  | type problem => exact absurd empty problem.text_ne_empty
  | value problem => exact absurd empty problem.text_ne_empty
  | index problem => exact absurd empty problem.text_ne_empty
  | key text =>
      cases empty
      exact .key
  | assertion text =>
      cases text with
      | none => simp at empty
      | some text =>
          cases empty
          exact .assertion
  | raised className text =>
      simp only at empty
      split at empty
      · exact absurd empty genuine
      · rename_i plain
        subst empty
        exact .raised (by simpa using plain)
  | internal problem => exact genuine.elim
  | _ => simp [toString] at empty

end RuntimeError

namespace LoadError

theorem message_eq_empty_iff {error : LoadError} (genuine : error.Genuine) :
    error.message = "" ↔ ∃ cause : RuntimeError, error = .failed cause ∧ cause.Wordless := by
  constructor
  · intro empty
    cases error with
    | failed cause => exact ⟨cause, rfl, (cause.message_eq_empty_iff genuine).mp empty⟩
    | _ => simp [message, Script.SyntaxError.message, toString] at empty
  · rintro ⟨cause, rfl, wordless⟩
    exact wordless.message_eq_empty

end LoadError

theorem Namespace.callable_error_message {space : Namespace} {name : String} {error : LoadError}
    (failed : space.callable name = .error error) : error.message ≠ "" := by
  unfold Namespace.callable at failed
  split at failed
  all_goals cases failed
  all_goals simp [LoadError.message, toString]

end Stepwise.Run

namespace Stepwise.Record

open Run

theorem Tracer.run?_genuine {tracer : Tracer} {space : Namespace} {made : Nat}
    (sound : space.Sound made) {callable : Callable}
    (offered : callable.callee.Sound space.id space.program.functions.length made)
    {argument : Value} (within : argument.Within made) {traced : Traced}
    (ended : tracer.run? space callable argument = some traced) {error : RuntimeError}
    (failed : traced.result = .error error) : error.Genuine := by
  rw [run?_eq_map] at ended
  obtain ⟨outcome, ran, rfl⟩ := Option.map_eq_some_iff.mp ended
  have fine := (sound.call?_keeps (fun _ => True) (fun _ _ _ _ _ _ _ _ => trivial) trivial offered
    (List.forall_mem_singleton.mpr within) ran).2.2
  unfold conclude at failed
  cases result : outcome.result with
  | ok value =>
      rw [result] at failed
      cases failed
  | error cause =>
      rw [result] at failed fine
      cases failed
      exact fine

end Stepwise.Record

namespace Stepwise.Exchange

open Run Record

theorem executionText_ne_empty {error : RuntimeError} (genuine : error.Genuine) :
    executionText error ≠ "" := by
  unfold executionText
  split
  · exact error.kind_ne_empty genuine
  · rename_i said
    simpa using said

inductive Fails (tracer : Tracer) (request : Request) : Failure → Prop where
  | unnamed : (Text.trim request.functionName.toList).isEmpty = true →
      Fails tracer request .noFunctionName
  | loading {error : LoadError} : (Text.trim request.functionName.toList).isEmpty = false →
      Namespace.compile? tracer.nextNamespace request.code tracer.settings.callLimit =
        some (.error error) → Fails tracer request (.load error)
  | lookup {space : Namespace} {error : LoadError} :
      Namespace.compile? tracer.nextNamespace request.code tracer.settings.callLimit =
        some (.ok space) → space.callable request.functionName = .error error →
      Fails tracer request (.load error)
  | execution {space : Namespace} {error : RuntimeError} :
      Namespace.compile? tracer.nextNamespace request.code tracer.settings.callLimit =
        some (.ok space) → error.Genuine → Fails tracer request (.execution error)

theorem execute?_fails {tracer after : Tracer} {request : Request} {failure : Failure}
    (failed : execute? tracer request = some (.error failure, after)) :
    Fails tracer request failure := by
  unfold execute? at failed
  split at failed
  · rename_i unnamed
    cases failed
    exact .unnamed unnamed
  rename_i named
  split at failed
  · cases failed
  · rename_i numbered
    cases failed
    exact .loading (by simpa using named) (Tracer.compile?_eq_some.mp numbered).1
  · rename_i space _ numbered
    obtain ⟨compiled, -⟩ := Tracer.compile?_eq_some.mp numbered
    split at failed
    · rename_i found
      cases failed
      exact .lookup compiled found
    rename_i callable found
    obtain ⟨⟨made, sound⟩, -, -⟩ := Namespace.compile?_loaded compiled
    obtain ⟨within, given⟩ := sound.given request.argument
    simp only at failed
    split at failed
    · cases failed
    · rename_i traced ended
      cases result : traced.result with
      | ok report =>
          rw [result] at failed
          cases failed
      | error error =>
          have genuine := Tracer.run?_genuine given (sound.callable found) within ended result
          rw [result] at failed
          cases failed
          exact .execution compiled genuine

/-- A failure says nothing just if it is an error without a message that ends top-level statements. -/
theorem Fails.text_eq_empty_iff {tracer : Tracer} {request : Request} {failure : Failure}
    (fails : Fails tracer request failure) : failure.text = "" ↔
      (Text.trim request.functionName.toList).isEmpty = false ∧ ∃ cause : RuntimeError,
        Namespace.compile? tracer.nextNamespace request.code tracer.settings.callLimit =
          some (.error (.failed cause)) ∧ cause.Wordless := by
  constructor
  · intro empty
    cases fails with
    | unnamed => exact absurd empty (by decide)
    | loading named compiled =>
        obtain ⟨cause, rfl, wordless⟩ :=
          (LoadError.message_eq_empty_iff (Namespace.compile?_loaded compiled)).mp empty
        exact ⟨named, cause, compiled, wordless⟩
    | lookup compiled found => exact absurd empty (Namespace.callable_error_message found)
    | execution compiled genuine => exact absurd empty (executionText_ne_empty genuine)
  · rintro ⟨named, cause, compiled, wordless⟩
    cases fails with
    | unnamed unnamed =>
        rw [named] at unnamed
        cases unnamed
    | loading _ failed =>
        rw [compiled] at failed
        cases failed
        exact wordless.message_eq_empty
    | lookup succeeded _ =>
        rw [compiled] at succeeded
        cases succeeded
    | execution succeeded _ =>
        rw [compiled] at succeeded
        cases succeeded

/-- A response without a text tells of one kind of error.

If a request is answered with a failure, the text of the failure is empty just if the request is well
formed and names a function, and its top-level statements end with an error that says nothing but its
class: an error of a class whose message stands for itself, raised without one, a missing key raised
without one, or a check that fails with an empty message.  All other failures have a text, at whatever
stage: where a call ends with such an error, its class is the text. -/
theorem handleText?_failure_text {tracer after : Tracer} {wording : Wording} {text error : String}
    (answered : handleText? tracer text wording = some (.failure error, after)) :
    error = "" ↔ ∃ request, Request.ofText text = .ok request ∧
      (Text.trim request.functionName.toList).isEmpty = false ∧ ∃ cause : RuntimeError,
        Namespace.compile? tracer.nextNamespace request.code tracer.settings.callLimit =
          some (.error (.failed cause)) ∧ cause.Wordless := by
  unfold handleText? at answered
  cases read : Request.ofText text with
  | error problem =>
      rw [read] at answered
      cases answered
      refine ⟨fun empty => absurd empty ?_, ?_⟩
      · unfold Failure.text
        simp [toString]
      · rintro ⟨_, same, -⟩
        cases same
  | ok request =>
      rw [read] at answered
      obtain ⟨⟨result, _⟩, executed, same⟩ := Option.map_eq_some_iff.mp answered
      cases result with
      | ok report => cases same
      | error failure =>
          cases same
          refine (execute?_fails executed).text_eq_empty_iff.trans ⟨?_, ?_⟩
          · exact fun stage => ⟨request, rfl, stage⟩
          · rintro ⟨_, ⟨⟩, stage⟩
            exact stage

/-- A request for a source that does nothing but raise an error without a message. -/
def bareRaise : String := "[\"raise ValueError\", \"f\", null]"

set_option maxRecDepth 5000 in
/-- The request is answered with an empty text. -/
theorem handleText?_failure_text_bareRaise : ∃ after,
    handleText? (.ofSettings ⟨5, 10⟩) bareRaise = some (.failure "", after) ∧
    ∃ request, Request.ofText bareRaise = .ok request ∧
      (Text.trim request.functionName.toList).isEmpty = false ∧ ∃ cause : RuntimeError,
        Namespace.compile? 1 request.code 5 = some (.error (.failed cause)) ∧ cause.Wordless := by
  have read : Request.ofText bareRaise = .ok ⟨"raise ValueError", "f", .null⟩ := by
    cbv
  have accepted : Script.Program.parse? "raise ValueError" =
      some (.ok ⟨[], [.mk 1 false (.raise (some (.name "ValueError")))]⟩) := by
    cbv
  have failed : Namespace.compile? 1 "raise ValueError" 5 =
      some (.error (.failed (.raised "ValueError" ""))) := by
    simp only [Namespace.compile?, accepted]
    rfl
  have answered : handleText? (.ofSettings ⟨5, 10⟩) bareRaise =
      some (.failure "", (Tracer.ofSettings ⟨5, 10⟩).passing 1) := by
    simp only [handleText?, read, handle?, execute?, Tracer.compile?, Tracer.ofSettings, failed]
    rfl
  exact ⟨_, answered, (handleText?_failure_text answered).mp rfl⟩

end Stepwise.Exchange
