import GraphemeRope.Command.Run

/-! # The program -/

namespace GraphemeRope

/-- Why an input or output action failed. -/
def FileError.ofIO (error : IO.Error) : FileError :=
  match error with
  | .noFileOrDirectory .. => .notFound
  | failure => .other (toString failure)

/-- The files of the system. -/
def systemFiles : Files IO where
  read path := do
    try
      let bytes ← IO.FS.readBinFile (String.ofList path)
      match String.fromUTF8? bytes with
      | some text => return .ok text.toList
      | none => return .error .notUnicode
    catch error => return .error (.ofIO error)
  write path text := do
    try
      IO.FS.writeFile (String.ofList path) (String.ofList text)
      return .ok ()
    catch error => return .error (.ofIO error)

end GraphemeRope

open GraphemeRope in
/-- Runs the command line, prints its result and reports what failed. -/
def main (arguments : List String) : IO UInt32 := do
  let names := ["TEXT_ROPE_BRANCHING_BITS", "TEXT_ROPE_LEAF_BITS"]
  let values ← names.mapM fun name => return (name, ← IO.getEnv name)
  let environment := fun name => (values.lookup name).join.map String.toList
  let outcome ← runCommandLine systemFiles environment (arguments.map String.toList)
  IO.print (String.ofList outcome.printed)
  if outcome.code = 2 then IO.eprintln "error: the arguments are not in order"
  for cause in outcome.causes do IO.eprintln cause
  return UInt32.ofNat outcome.code
