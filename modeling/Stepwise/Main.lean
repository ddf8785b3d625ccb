import Stepwise.Exchange.Command

/-!
The program: it reads a request from a file or from standard input and writes its response.
-/

open Stepwise Exchange

partial def readAll (stream : IO.FS.Stream) (text : String) : IO String := do
  let line ← stream.getLine
  if line.isEmpty then return text else readAll stream (text ++ line)

def requestText (path : Option String) : IO (Except String String) := do
  try
    let text ← match path with
      | some path => IO.FS.readFile path
      | none => readAll (← IO.getStdin) ""
    return .ok text
  catch problem => return .error (toString problem)

def main (arguments : List String) : IO UInt32 := do
  match Options.ofArguments? arguments with
  | none =>
      IO.eprintln "usage: [--input FILE] [--pretty] [--max-call-depth N] [--snapshot-depth N]"
      return 2
  | some options =>
      let callLimit ← IO.getEnv Record.Settings.callLimitVariable
      let snapshotDepth ← IO.getEnv Record.Settings.snapshotDepthVariable
      let lookup (name : String) : Option String :=
        if name == Record.Settings.callLimitVariable then callLimit
        else if name == Record.Settings.snapshotDepthVariable then snapshotDepth
        else none
      let response ← match ← requestText options.input with
        | .ok text => pure (respond? options lookup text)
        | .error problem => pure (some (.failure problem))
      match response with
      | some response => IO.print (written options response)
      | none => IO.eprintln "the request has no answer"
      return 0
