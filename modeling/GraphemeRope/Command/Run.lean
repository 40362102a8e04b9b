import GraphemeRope.Command.Arguments
import GraphemeRope.Report
import GraphemeRope.Script.Render
import GraphemeRope.Unicode.Table

/-! # Running a command line

A command reads one file, and prints its result or writes it to a file. The files are reached
through an interface, so that the rest says nothing of where they are. -/

namespace GraphemeRope

/-- Why a file cannot be read or written. -/
inductive FileError where
  | notFound
  | notUnicode
  | other (description : String)
  deriving DecidableEq, Repr

/-- The sentence that reports why a file cannot be read or written. -/
def FileError.message : FileError → String
  | .notFound => "No such file or directory (os error 2)"
  | .notUnicode => "stream did not contain valid UTF-8"
  | .other description => description

/-- How a program reaches its files. -/
structure Files (m : Type → Type) where
  read : Text → m (Except FileError Text)
  write : Text → Text → m (Except FileError Unit)

/-- The end of a run: its exit code, what it printed, and why it failed, the outermost cause
first. -/
structure Outcome where
  code : Nat
  printed : Text
  causes : List String
  deriving DecidableEq, Repr

namespace Outcome

/-- A run that printed its result. -/
def success (printed : Text) : Outcome := ⟨0, printed, []⟩

/-- A run that failed. -/
def failure (causes : List String) : Outcome := ⟨1, [], causes⟩

/-- A run whose arguments were not in order. -/
def misuse : Outcome := ⟨2, [], []⟩

end Outcome

namespace Command

/-- The name and version of the program. -/
def version : Text := "text-rope 0.1.0\n".toList

/-- Units as lines of eight numbers. -/
def unitLines (units : List UInt16) : Text :=
  (groups 8 units).flatMap fun line =>
    ((line.map Units.hex).intersperse [' ']).flatten ++ ['\n']

/-- What failed with a file, and why. -/
def fileCauses (activity : String) (path : Text) (error : FileError) : List String :=
  [s!"Failed to {activity} " ++ String.ofList path, error.message]

/-- The file that a command reads. -/
def file : Command → Text
  | .inspect file => file
  | .edit file _ _ => file
  | .units file _ _ => file

variable [CharacterTable]

/-- The printed report of a rope. -/
def inspectRope (rope : Rope) : Outcome :=
  .success ((Report.ofRope rope).render.toList ++ ['\n'])

/-- The rope after some edits, or why one of them is refused. -/
def editRope (rope : Rope) (edits : List Edit) : Except (List String) Rope :=
  match Edit.applyAll rope edits with
  | .ok edited => .ok edited
  | .error (refused, error) =>
      let shown := String.ofList refused.render
      .error [s!"Failed to apply `{shown}`", error.message]

/-- The printed units of a rope in a range. -/
def printUnits (rope : Rope) (start stop : Option Nat) : Outcome :=
  let view := rope.unitView
  let first := start.getD 0
  let last := stop.getD view.length
  match view.slice first last with
  | .ok part => .success (unitLines part.units)
  | .error error => .failure [s!"Invalid unit range {first}..{last}", error.message]

variable {m : Type → Type} [Monad m]

/-- The run of a command on the rope of its file. -/
def runOn (files : Files m) (rope : Rope) : Command → m Outcome
  | .inspect _ => return inspectRope rope
  | .units _ start stop => return printUnits rope start stop
  | .edit _ edits output =>
      match editRope rope edits, output with
      | .error causes, _ => return .failure causes
      | .ok edited, none => return .success edited.text
      | .ok edited, some path => do
          match ← files.write path edited.text with
          | .ok () => return .success []
          | .error error => return .failure (fileCauses "write" path error)

end Command

variable [CharacterTable] {m : Type → Type} [Monad m]

/-- The run of a command. Its geometry is checked before its file is read. -/
def Invocation.run (files : Files m) (invocation : Invocation) : m Outcome :=
  match Geometry.ofBits invocation.branchingBits invocation.leafBits with
  | .error error => return .failure [error.message]
  | .ok geometry => do
      match ← files.read invocation.command.file with
      | .error error =>
          return .failure (Command.fileCauses "read" invocation.command.file error)
      | .ok text => invocation.command.runOn files (Rope.ofText geometry text)

/-- The run of a command line. -/
def runCommandLine (files : Files m) (environment : String → Option Text) (words : List Text) :
    m Outcome :=
  match Request.parse? environment words with
  | none => return .misuse
  | some .version => return .success Command.version
  | some (.invocation invocation) => invocation.run files

end GraphemeRope
