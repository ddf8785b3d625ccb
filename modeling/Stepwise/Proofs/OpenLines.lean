import Stepwise.Proofs.Correspondence.Course
import Stepwise.Proofs.Log

/-!
The lines that open frames reported last.

Under a hook that keeps all frames they can be read off the log.  Expressions leave them as they were,
and statements change the one of their own frame at most.
-/

namespace Stepwise.Run

open Script Effect

/-- What an event makes of the lines that the open frames reported last, innermost first. -/
def Entry.track (entry : Entry) (lines : List (Option Nat)) : List (Option Nat) :=
  match entry.event with
  | .call => none :: lines
  | .line =>
      match lines with
      | [] => []
      | _ :: outer => some entry.view.line :: outer
  | .exception => lines
  | .exit => lines.tail

namespace Entry

variable {entry : Entry}

theorem track_call (event : entry.event = .call) (lines : List (Option Nat)) :
    entry.track lines = none :: lines := by
  simp only [track, event]

theorem track_line (event : entry.event = .line) (last : Option Nat) (outer : List (Option Nat)) :
    entry.track (last :: outer) = some entry.view.line :: outer := by
  simp only [track, event]

theorem track_line_outer (event : entry.event = .line) (lines : List (Option Nat)) :
    (entry.track lines).tail = lines.tail ∧ (entry.track lines).length = lines.length := by
  cases lines with
  | nil => simp only [track, event, and_self]
  | cons last outer =>
      rw [track_line event]
      exact ⟨rfl, rfl⟩

theorem track_exception (event : entry.event = .exception) (lines : List (Option Nat)) :
    entry.track lines = lines := by
  simp only [track, event]

theorem track_exit (event : entry.event = .exit) (lines : List (Option Nat)) :
    entry.track lines = lines.tail := by
  simp only [track, event]

end Entry

/-- The lines that the open frames of a log reported last, innermost first.  The log is one of a hook
that keeps all frames. -/
def openLines (log : List Entry) : List (Option Nat) :=
  log.foldl (fun lines entry => entry.track lines) []

/-- The line that the innermost open frame of a log reported last. -/
def lastLine (log : List Entry) : Option Nat := (openLines log).head?.join

theorem openLines_append_singleton (log : List Entry) (entry : Entry) :
    openLines (log ++ [entry]) = entry.track (openLines log) := by
  simp only [openLines, List.foldl_append, List.foldl_cons, List.foldl_nil]

theorem lastLine_of_openLines {log : List Entry} {last : Option Nat} {outer : List (Option Nat)}
    (lines : openLines log = last :: outer) : lastLine log = last := by
  rw [lastLine, lines, List.head?_cons, Option.join_some]

theorem openLines_closing (log : List Entry) {closing : List Entry} {failed : Bool}
    (events : closing.map Entry.event = closingEvents true failed) :
    openLines (log ++ closing) = (openLines log).tail := by
  cases failed with
  | false =>
      obtain ⟨exit, rfl, left⟩ := List.map_eq_singleton_iff.mp events
      rw [openLines_append_singleton, Entry.track_exit left]
  | true =>
      obtain ⟨raised, _, rfl, first, rest⟩ := List.map_eq_cons_iff.mp events
      obtain ⟨exit, rfl, second⟩ := List.map_eq_singleton_iff.mp rest
      rw [List.append_cons, openLines_append_singleton, openLines_append_singleton,
        Entry.track_exception first, Entry.track_exit second]

/-- A traced frame is running that is on a line and reported `last`; `outer` is what the frames outside
of it reported. -/
structure Stands (outer : List (Option Nat)) (line : Nat) (last : Option Nat)
    (machine : Machine (List Entry)) : Prop where
  traced : machine.frame.isTraced = true
  line : machine.frame.line = line
  lines : openLines machine.observer = last :: outer

structure Still (start finish : Machine (List Entry)) : Prop where
  depth : finish.depth = start.depth
  definition : finish.frame.definition? = start.frame.definition?
  traced : finish.frame.isTraced = start.frame.isTraced
  line : finish.frame.line = start.frame.line
  lines : openLines finish.observer = openLines start.observer

structure Inside (start finish : Machine (List Entry)) : Prop where
  depth : finish.depth = start.depth
  definition : finish.frame.definition? = start.frame.definition?
  traced : finish.frame.isTraced = start.frame.isTraced
  outer : (openLines finish.observer).tail = (openLines start.observer).tail
  count : (openLines finish.observer).length = (openLines start.observer).length

theorem Stands.still {outer : List (Option Nat)} {line : Nat} {last : Option Nat}
    {start finish : Machine (List Entry)} (stands : Stands outer line last start)
    (still : Still start finish) : Stands outer line last finish :=
  ⟨still.traced.trans stands.traced, still.line.trans stands.line, still.lines.trans stands.lines⟩

theorem Still.inside {start finish : Machine (List Entry)} (still : Still start finish) :
    Inside start finish :=
  ⟨still.depth, still.definition, still.traced, congrArg List.tail still.lines,
    congrArg List.length still.lines⟩

theorem Inside.openLines_eq {start finish : Machine (List Entry)} (inside : Inside start finish)
    {last : Option Nat} {outer : List (Option Nat)}
    (lines : openLines start.observer = last :: outer) :
    ∃ last, openLines finish.observer = last :: outer := by
  have same := inside.outer
  have count := inside.count
  rw [lines] at same count
  cases left : openLines finish.observer with
  | nil => rw [left] at count; cases count
  | cons last others =>
      rw [left] at same
      exact ⟨last, congrArg (last :: ·) same⟩

def stillAccount : Account (List Entry) where
  Allows _ _ before after := openLines after = openLines before
  stay _ _ _ := rfl
  trans before after := after.trans before

def stillCourse : Course (List Entry) where
  Leads _ := Still
  stay _ _ := ⟨rfl, rfl, rfl, rfl, rfl⟩
  trans before after :=
    ⟨after.depth.trans before.depth, after.definition.trans before.definition,
      after.traced.trans before.traced, after.line.trans before.line, after.lines.trans before.lines⟩
  withHeap _ _ _ _ := ⟨rfl, rfl, rfl, rfl, rfl⟩

def insideCourse : Course (List Entry) where
  Leads _ := Inside
  stay _ _ := ⟨rfl, rfl, rfl, rfl, rfl⟩
  trans before after :=
    ⟨after.depth.trans before.depth, after.definition.trans before.definition,
      after.traced.trans before.traced, after.outer.trans before.outer, after.count.trans before.count⟩
  withHeap _ _ _ _ := ⟨rfl, rfl, rfl, rfl, rfl⟩

section

variable {environment : Environment (List Entry)}
  (hooked : environment.hook = some (.logging .keepAll))

include hooked

theorem reachLine_keeping {machine : Machine (List Entry)} (traced : machine.frame.isTraced = true)
    (line : Nat) :
    ∃ entry, entry.event = .line ∧ entry.view.line = line ∧
      machine.reachLine environment line =
        { machine with
          observer := machine.observer ++ [entry]
          frame := { machine.frame with line := line } } := by
  obtain ⟨activation, running, wanted⟩ := Frame.activation_of_isTraced traced
  let moved : Machine (List Entry) := { machine with frame := { machine.frame with line := line } }
  refine ⟨moved.entry environment .keepAll activation .line, rfl, rfl, ?_⟩
  rw [reachLine_logging hooked machine running wanted line]
  exact congrArg (fun frame => ({ moved with observer := _, frame := frame } : Machine (List Entry)))
    (Frame.setTraced_of_isTraced traced)

theorem reachLine_inside (machine : Machine (List Entry)) (line : Nat) :
    Inside machine (machine.reachLine environment line) := by
  cases traced : machine.frame.isTraced with
  | false =>
      rw [machine.reachLine_of_untraced environment line traced]
      exact ⟨rfl, rfl, rfl, rfl, rfl⟩
  | true =>
      obtain ⟨entry, event, named, reached⟩ := reachLine_keeping hooked traced line
      obtain ⟨outer, count⟩ := Entry.track_line_outer event (openLines machine.observer)
      rw [← openLines_append_singleton] at outer count
      rw [reached]
      exact ⟨rfl, rfl, rfl, outer, count⟩

theorem Stands.reachLine {outer : List (Option Nat)} {started : Nat} {last : Option Nat}
    {machine : Machine (List Entry)} (stands : Stands outer started last machine) (line : Nat) :
    Stands outer line (some line) (machine.reachLine environment line) := by
  obtain ⟨entry, event, named, reached⟩ := reachLine_keeping hooked stands.traced line
  rw [reached]
  refine ⟨stands.traced, rfl, ?_⟩
  rw [openLines_append_singleton, stands.lines, Entry.track_line event, named]

/-- The frame of a function starts on the line of its header, and has reported nothing. -/
theorem activated_stands (definition : Definition) (slots : Array (Option Value))
    (machine : Machine (List Entry)) :
    Stands (openLines machine.observer) definition.firstLine none
      (machine.activated environment definition slots) := by
  rw [activated_logging hooked definition slots machine]
  exact ⟨rfl, rfl, by rw [openLines_append_singleton, Entry.track_call rfl]⟩

def keeping : Discipline environment where
  account := stillAccount
  binding := stillCourse
  statement := insideCourse
  binding_of_expression := by
    rintro failed start finish ⟨frame, depth, lines⟩
    exact ⟨depth, by rw [frame], by rw [frame], by rw [frame], lines⟩
  statement_of_binding still := still.inside
  store globals frame resembles :=
    ⟨rfl, resembles.definition, resembles.traced, resembles.line, rfl⟩
  moveToLine line machine := ⟨rfl, rfl, rfl, rfl, rfl⟩
  reportLine line machine := reachLine_inside hooked machine line
  callFunction := by
    intro fuel function arguments keywords executes machine result after ended
    rcases callFunction_ended ended with
      ⟨error, refused, rfl, rfl⟩ | ⟨definition, slots, flow, inner, admitted, ran, rfl, rfl⟩
    · exact stillAccount.expression.stay _ _
    · -- the lines of the body are those of its own frame, which the closing events take off
      have opened := activated_stands hooked definition slots machine
      have inside := executes _ _ _ _ ran
      obtain ⟨last, lines⟩ := inside.openLines_eq opened.lines
      obtain ⟨closing, events, -, left⟩ :=
        returned_logging hooked (inside.definition.trans (activated_definition? ..)) machine.frame
          (failed flow)
      rw [inside.traced, opened.traced] at events
      rw [left]
      refine ⟨rfl, ?_, ?_⟩
      · show inner.depth - 1 = machine.depth
        rw [inside.depth, activated_depth, Nat.add_sub_cancel]
      · show openLines (inner.observer ++ closing) = openLines machine.observer
        rw [openLines_closing _ events, lines, List.tail_cons]

end

end Stepwise.Run
