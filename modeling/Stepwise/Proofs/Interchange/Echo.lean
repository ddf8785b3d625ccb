import Mathlib
import Stepwise.Exchange.Response
import Stepwise.Proofs.Copying.Capture
import Stepwise.Proofs.Interchange.Copies

/-!
A function that gives back its argument.

A request to call it is answered with the argument of the request in canonical form, both as the result
and as the variable of its only step.
-/

namespace Stepwise

open Script Run Record

def echoSource : String := "def f(x):\n  return x\n"

def echoDefinition : Definition :=
  ⟨0, "f", [⟨"x", none⟩], [.mk 2 false (.giveBack (some (.name "x")))], 1, 2, ["x"]⟩

def echoObject (id : Nat) : FunctionObject := ⟨id, 0, "f", []⟩

def echoHeap (id : Nat) : Heap := (Heap.empty.newFunction (echoObject id)).2

def echoSpace (id : Nat) (heap : Heap) : Namespace :=
  ⟨id, echoSource, ⟨[echoDefinition], [.mk 1 false (.define 0)]⟩, ⟨[("f", .function 0)]⟩, heap⟩

set_option maxRecDepth 5000 in
theorem compile?_echoSource (id callLimit : Nat) :
    Namespace.compile? id echoSource callLimit = some (.ok (echoSpace id (echoHeap id))) := by
  have accepted : Program.parse? echoSource =
      some (.ok ⟨[echoDefinition], [.mk 1 false (.define 0)]⟩) := by
    cbv
  simp only [Namespace.compile?, accepted]
  rfl

set_option maxRecDepth 5000 in
theorem call?_echoSpace (id depth : Nat) {callLimit : Nat} (room : 0 < callLimit) (heap : Heap)
    (argument : Value) (recording : Recording) :
    (echoSpace id heap).call? callLimit (some (recorder (echoSpace id heap) depth)) recording
        ⟨"f", .function (echoObject id)⟩ [argument] =
      some ⟨.ok argument,
        recording.addLine (echoSpace id heap) depth
          ⟨heap, id, echoDefinition, #[some argument], 2⟩, [], heap⟩ := by
  obtain ⟨limit, rfl⟩ : ∃ limit, callLimit = limit + 1 := ⟨callLimit - 1, by omega⟩
  have home : ¬((echoObject id).home ≠ id) := fun foreign => foreign rfl
  simp only [Namespace.call?, Callee.call, callFunction, home, echoSpace, Namespace.environment,
    if_false]
  rfl

theorem run?_echoSpace (tracer : Tracer) (id : Nat) (room : 0 < tracer.settings.callLimit)
    (heap : Heap) {argument : Value} {copy : Snapshot}
    (captured : capture heap tracer.settings.snapshotDepth argument = .ok copy) :
    ∃ code after, tracer.run? (echoSpace id heap) ⟨"f", .function (echoObject id)⟩ argument =
      some ⟨after, heap, .ok ⟨copy, #[⟨0, 2, code, [("x", copy)]⟩], []⟩⟩ := by
  have copied : captureOrText heap tracer.settings.snapshotDepth argument = copy := by
    rw [captureOrText, captured]
  have bindings : captureBindings heap tracer.settings.snapshotDepth
      (FrameView.locals ⟨heap, id, echoDefinition, #[some argument], 2⟩) = [("x", copy)] := by
    rw [← copied]
    rfl
  simp only [Tracer.run?, call?_echoSpace id tracer.settings.snapshotDepth room, Option.map_some,
    copied, Recording.addLine, bindings]
  exact ⟨_, _, rfl⟩

namespace Exchange

/-- A request to call the function is answered with its argument in canonical form. -/
theorem handle?_echo {tracer : Tracer} {json : Json} (whole : json.isWhole = true)
    (room : 0 < tracer.settings.callLimit) (nested : json.nesting ≤ tracer.settings.snapshotDepth) :
    ∃ copy code after, json.Canonical copy.toJson ∧
      handle? tracer ⟨echoSource, "f", json⟩ =
        some (.success copy #[⟨0, 2, code, [("x", copy)]⟩], after) := by
  let id := tracer.nextNamespace
  obtain ⟨-, copy, echo⟩ := Value.ofJson_echo (echoHeap id) json whole
  have captured : capture (Value.ofJson (echoHeap id) json).2 tracer.settings.snapshotDepth
      (Value.ofJson (echoHeap id) json).1 = .ok copy :=
    capture_eq_ok_iff.mpr ⟨echo.unfolds _ (.refl _), Nat.le_trans echo.shallow nested⟩
  have named : (Text.trim "f".toList).isEmpty = false := by decide
  have numbered : tracer.compile? echoSource = some (.ok (echoSpace id (echoHeap id)),
      { tracer with nextNamespace := tracer.nextNamespace + 1 }) := by
    rw [Tracer.compile?, compile?_echoSource, Option.map_some]
  have called : (echoSpace id (echoHeap id)).callable "f" =
      .ok ⟨"f", .function (echoObject id)⟩ := rfl
  have held : (echoSpace id (echoHeap id)).heap = echoHeap id := rfl
  have replaced (heap : Heap) :
      { echoSpace id (echoHeap id) with heap := heap } = echoSpace id heap := rfl
  obtain ⟨code, after, ran⟩ := run?_echoSpace
    { tracer with nextNamespace := tracer.nextNamespace + 1 } id room _ captured
  refine ⟨copy, code, after, echo.canonical, ?_⟩
  simp only [handle?, execute?, named, numbered, called, Bool.false_eq_true, if_false]
  rw [held, replaced, ran]
  rfl

/-- A value whose numbers are integers of 64 bits and that is nested at most 126 levels deep goes
through the function unchanged but for its keys: the text of the request is read as this request, and
under the standard settings it is answered with the canonical form of the value, which is the result
and the variable of the only step. -/
theorem handleText?_echo (json : Json) (whole : json.isWhole = true) (nested : json.nesting ≤ 126) :
    Request.ofText (Request.toJson ⟨echoSource, "f", json⟩).compact =
        .ok ⟨echoSource, "f", json⟩ ∧
      ∃ sorted, (∀ other, json.Canonical other ↔ other = sorted) ∧
        ∀ text tracer wording, Request.ofText text = .ok ⟨echoSource, "f", json⟩ →
          tracer.settings = .standard → ∃ copy code after,
            handleText? tracer text wording =
                some (.success copy #[⟨0, 2, code, [("x", copy)]⟩], after) ∧
              copy.toJson = sorted := by
  -- no canonical form depends on a heap, so the one on the empty heap is the one of every answer
  obtain ⟨-, tree, echo⟩ := Value.ofJson_echo .empty json whole
  have only (other : Json) : json.Canonical other ↔ other = tree.toJson :=
    ⟨fun canonical => canonical.unique echo.canonical, fun same => same ▸ echo.canonical⟩
  refine ⟨Request.ofText_compact _ whole nested, tree.toJson, only, ?_⟩
  intro text tracer wording read standard
  have room : 0 < tracer.settings.callLimit := by rw [standard]; decide
  have shallow : json.nesting ≤ tracer.settings.snapshotDepth := by
    rw [standard]
    exact Nat.le_trans nested (by decide)
  obtain ⟨copy, code, after, canonical, answered⟩ := handle?_echo whole room shallow
  refine ⟨copy, code, after, ?_, (only _).mp canonical⟩
  rw [handleText?, read]
  exact answered

/-- Keys out of order, a repeated key and escaped characters, inside an array. -/
theorem handleText?_echo_repeated :
    let json : Json := .array [.object [("b", .int (-1)), ("a\n", .str "\"\x01"), ("b", .null)]]
    let sorted : Json := .array [.object [("a\n", .str "\"\x01"), ("b", .null)]]
    json.isWhole = true ∧ json.nesting ≤ 126 ∧
      ∃ copy code after,
        handleText? (Tracer.ofSettings .standard)
            (Request.toJson ⟨echoSource, "f", json⟩).compact =
              some (.success copy #[⟨0, 2, code, [("x", copy)]⟩], after) ∧
          copy.toJson = sorted := by
  intro json sorted
  have members : Json.Canonical (.object [("b", .int (-1)), ("a\n", .str "\"\x01"), ("b", .null)])
      (.object [("a\n", .str "\"\x01"), ("b", .null)]) := by
    refine .object (by decide) (fun key => by grind) fun key value other final inside => ?_
    simp only [List.mem_cons, Prod.mk.injEq, List.not_mem_nil, or_false] at inside
    rcases inside with ⟨rfl, rfl⟩ | ⟨rfl, rfl⟩ <;>
    · simp only [Json.member?, List.reverse_cons, List.reverse_nil, List.nil_append,
        List.cons_append, List.find?_cons] at final
      cases final
      exact .scalar rfl
  have expected : json.Canonical sorted := by
    refine .array rfl fun index item other source copied => ?_
    cases index with
    | zero =>
        cases source
        cases copied
        exact members
    | succ index => cases source
  have whole : json.isWhole = true := by decide
  have nested : json.nesting ≤ 126 := by decide
  obtain ⟨read, canonical, only, answers⟩ := handleText?_echo json whole nested
  obtain ⟨copy, code, after, answered, same⟩ := answers _ (.ofSettings .standard) .plain read rfl
  exact ⟨whole, nested, copy, code, after, answered, same.trans ((only _).mp expected).symm⟩

end Exchange

end Stepwise
