import Stepwise.Exchange.Request
import Stepwise.Json.Writer
import Stepwise.Record.Tracer
import Stepwise.Value.Interchange

/-!
Responses to requests.

A request is answered with the result and the steps of the call that it asks for, or with the text of
what went wrong.
-/

namespace Stepwise.Exchange

open Run Record

inductive Failure where
  /-- The text is no request, for the reason given. -/
  | invalid (reason : String)
  /-- The request names no function. -/
  | noFunctionName
  | load (error : LoadError)
  /-- The call ended with an error. -/
  | execution (error : RuntimeError)

def executionText (error : RuntimeError) : String :=
  if error.message.isEmpty then error.kind else error.message

def Failure.text : Failure → String
  | .invalid reason => s!"invalid request: {reason}"
  | .noFunctionName => "function name is required"
  | .load error => error.message
  | .execution error => executionText error

inductive Response where
  | success (result : Snapshot) (steps : Array Step)
  | failure (error : String)

def stepJson (step : Step) : Json :=
  .object [
    ("step", .nat step.index),
    ("line", .nat step.line),
    ("code", .str step.code),
    ("variables", .object (step.bindings.map fun binding => (binding.1, binding.2.toJson)))]

namespace Response

/-- A response as an interchange value. -/
def toJson : Response → Json
  | .success result steps =>
      .object [("result", result.toJson), ("steps", .array (steps.toList.map stepJson))]
  | .failure error => .object [("error", .str error)]

def text (pretty : Bool) (response : Response) : String :=
  if pretty then response.toJson.indented else response.toJson.compact

end Response

def execute? (tracer : Tracer) (request : Request) : Option (Except Failure Report × Tracer) :=
  if (Text.trim request.functionName.toList).isEmpty then some (.error .noFunctionName, tracer)
  else
    match tracer.compile? request.code with
    | none => none
    | some (.error error, tracer) => some (.error (.load error), tracer)
    | some (.ok space, tracer) =>
        match space.callable request.functionName with
        | .error error => some (.error (.load error), tracer)
        | .ok callable =>
            let (argument, heap) := Value.ofJson space.heap request.argument
            match tracer.run? { space with heap := heap } callable argument with
            | none => none
            | some traced => some (traced.result.mapError .execution, traced.tracer)

def Response.ofResult : Except Failure Report → Response
  | .ok report => .success report.result report.steps
  | .error problem => .failure problem.text

def handle? (tracer : Tracer) (request : Request) : Option (Response × Tracer) :=
  (execute? tracer request).map fun (result, tracer) => (.ofResult result, tracer)

/-- Answers the request that a text stands for. -/
def handleText? (tracer : Tracer) (text : String) (wording : Wording := .plain) :
    Option (Response × Tracer) :=
  match Request.ofText text with
  | .ok request => handle? tracer request
  | .error problem => some (.failure (Failure.invalid (wording text problem)).text, tracer)

end Stepwise.Exchange
