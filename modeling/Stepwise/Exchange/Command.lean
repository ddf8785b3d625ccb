import Stepwise.Exchange.Response

/-!
The command line: its options, and the text that it writes for a request.
-/

namespace Stepwise.Exchange

open Record

structure Options where
  /-- The path of the file with the request; without one it is read from standard input. -/
  input : Option String
  pretty : Bool
  callLimit : Option Nat
  snapshotDepth : Option Nat
  deriving Repr, DecidableEq

namespace Options

def none : Options := ⟨Option.none, false, Option.none, Option.none⟩

def attached? (name argument : String) : Option String :=
  let mark := (name ++ "=").toList
  let characters := argument.toList
  if mark.isPrefixOf characters then some (String.ofList (characters.drop mark.length))
  else Option.none

/-- The options with a value for the option of a name, unless there is no such option, the value
makes no sense or the option was given before. -/
def withValue? (options : Options) (name value : String) : Option Options :=
  match name with
  | "--input" =>
      if options.input.isSome || value.isEmpty then Option.none
      else some { options with input := some value }
  | "--max-call-depth" =>
      if options.callLimit.isSome then Option.none
      else (Settings.size? value.toList).map fun size => { options with callLimit := some size }
  | "--snapshot-depth" =>
      if options.snapshotDepth.isSome then Option.none
      else (Settings.size? value.toList).map fun size => { options with snapshotDepth := some size }
  | _ => Option.none

def spellings : List (String × String) :=
  [("--input", "--input"), ("-i", "--input"), ("--max-call-depth", "--max-call-depth"),
    ("--snapshot-depth", "--snapshot-depth")]

def addAlone? (options : Options) (argument : String) : Option Options :=
  if argument == "--pretty" then
    if options.pretty then Option.none else some { options with pretty := true }
  else
    spellings.findSome? fun (spelling, name) =>
      (attached? spelling argument).bind fun value => options.withValue? name value

/-- Options changed by arguments, unless an argument is no option. -/
def addArguments? (options : Options) : List String → Option Options
  | [] => some options
  | [argument] => options.addAlone? argument
  | argument :: next :: rest =>
      match spellings.lookup argument with
      | some name =>
          (options.withValue? name next).bind fun options => options.addArguments? rest
      | Option.none =>
          (options.addAlone? argument).bind fun options => options.addArguments? (next :: rest)

def ofArguments? (arguments : List String) : Option Options := addArguments? none arguments

/-- The settings that variables and options ask for; an option goes before a variable. -/
def settings (options : Options) (lookup : String → Option String) : Settings :=
  let asked := Settings.ofLookup lookup
  ⟨options.callLimit.getD asked.callLimit, options.snapshotDepth.getD asked.snapshotDepth⟩

end Options

/-- The response to the text of a request under some options and variables. -/
def respond? (options : Options) (lookup : String → Option String) (input : String) :
    Option Response :=
  (handleText? (Tracer.ofSettings (options.settings lookup)) input).map Prod.fst

/-- What the command writes for a response. -/
def written (options : Options) (response : Response) : String :=
  response.text options.pretty ++ "\n"

end Stepwise.Exchange
