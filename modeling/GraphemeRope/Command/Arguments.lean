import GraphemeRope.Geometry
import GraphemeRope.Script.Parse

/-! # Command-line arguments

The words of a command line name a command, its file and its options. The options of the geometry
may stand before or after the command, and may be given by the environment instead. -/

namespace GraphemeRope

/-- What a command line asks for. -/
inductive Command where
  /-- A report of a file. -/
  | inspect (file : Text)
  /-- The text of a file after some edits, printed or written to a file. -/
  | edit (file : Text) (edits : List Edit) (output : Option Text)
  /-- The UTF-16 units of a file in a range. -/
  | units (file : Text) (start stop : Option Nat)
  deriving DecidableEq, Repr

/-- A command with the bit widths of the geometry to use. -/
structure Invocation where
  branchingBits : Nat
  leafBits : Nat
  command : Command
  deriving DecidableEq, Repr

/-- What a whole command line asks for. -/
inductive Request where
  | version
  | invocation (invocation : Invocation)
  deriving DecidableEq, Repr

/-- The options that take a value. -/
inductive OptionName where
  | branchingBits
  | leafBits
  | edit
  | output
  | start
  | stop
  deriving DecidableEq, Repr

namespace OptionName

/-- The name after two dashes. -/
def long : OptionName → Text
  | .branchingBits => "branching-bits".toList
  | .leafBits => "leaf-bits".toList
  | .edit => "edit".toList
  | .output => "output".toList
  | .start => "start".toList
  | .stop => "end".toList

/-- The letter after one dash, for the options that have one. -/
def short? : OptionName → Option Char
  | .edit => some 'e'
  | .output => some 'o'
  | _ => none

/-- The options that may stand before the command as well as after it. -/
def everywhere : List OptionName := [.branchingBits, .leafBits]

end OptionName

/-- The part that a word plays on a command line. -/
inductive WordRole where
  /-- An option, with its value if that is part of the word. -/
  | option (name : OptionName) (value : Option Text)
  /-- The mark after which no word is an option. -/
  | escape
  /-- An option that is not known here. -/
  | unknown
  /-- Anything else. -/
  | plain
  deriving DecidableEq, Repr

/-- Whether a word is taken for an option. A single dash is not. -/
def looksLikeOption (word : Text) : Bool :=
  match word with
  | '-' :: _ :: _ => true
  | _ => false

/-- The part that a word plays where the given options are known. -/
def WordRole.ofWord (known : List OptionName) (word : Text) : WordRole :=
  match word with
  | ['-', '-'] => .escape
  | '-' :: '-' :: body =>
      let parts := (Edit.cutAt? ['='] body).map fun parts => (parts.1, some parts.2)
      let (written, value) := parts.getD (body, none)
      match known.find? fun name => name.long = written with
      | some name => .option name value
      | none => .unknown
  | '-' :: letter :: rest =>
      match known.find? fun name => name.short? = some letter with
      | none => .unknown
      | some name =>
          match rest with
          | [] => .option name none
          | '=' :: value => .option name (some value)
          | value => .option name (some value)
  | _ => .plain

/-- The values read so far. -/
structure Given where
  branchingBits : Option Nat := none
  leafBits : Option Nat := none
  file : Option Text := none
  edits : List Edit := []
  output : Option Text := none
  start : Option Nat := none
  stop : Option Nat := none

namespace Given

/-- The bit width that a text writes, a number of 32 bits. A minus sign is read, and leaves only
zero in range. -/
def parseBits? (text : Text) : Option Nat :=
  match text with
  | '-' :: digits => (Numeral.digits? digits).filter (· = 0)
  | _ => Numeral.below? (1 <<< 32) text

/-- A value that is set once. -/
def once {β : Type} (slot value : Option β) : Option (Option β) :=
  match slot, value with
  | none, some value => some (some value)
  | _, _ => none

/-- A path, which is not empty. -/
def path? (text : Text) : Option Text := if text.isEmpty then none else some text

/-- The values with an option set. Only edits may be given repeatedly. -/
def set? (given : Given) (name : OptionName) (value : Text) : Option Given :=
  match name with
  | .branchingBits => do
      let slot ← once given.branchingBits (parseBits? value)
      return { given with branchingBits := slot }
  | .leafBits => do
      let slot ← once given.leafBits (parseBits? value)
      return { given with leafBits := slot }
  | .edit => do
      let edit ← (Edit.parse value).toOption
      return { given with edits := given.edits ++ [edit] }
  | .output => do
      let slot ← once given.output (path? value)
      return { given with output := slot }
  | .start => do
      let slot ← once given.start (Numeral.position? value)
      return { given with start := slot }
  | .stop => do
      let slot ← once given.stop (Numeral.position? value)
      return { given with stop := slot }

/-- The values with the file set. -/
def setFile? (given : Given) (word : Text) : Option Given := do
  let slot ← once given.file (path? word)
  return { given with file := slot }

/-- The values read from the words after a command. -/
def ofWords? (known : List OptionName) (given : Given) : List Text → Option Given
  | [] => some given
  | word :: rest =>
      match WordRole.ofWord known word with
      | .unknown => none
      | .escape => rest.foldlM setFile? given
      | .plain => (given.setFile? word).bind fun given => ofWords? known given rest
      | .option name (some value) =>
          (given.set? name value).bind fun given => ofWords? known given rest
      | .option name none =>
          match rest with
          | [] => none
          | value :: rest =>
              if looksLikeOption value then none
              else (given.set? name value).bind fun given => ofWords? known given rest

end Given

/-- The bit width to use, given before and after the command and by the environment. What stands
last wins over what stands first, and both win over the environment. The environment is consulted
at each of the two places that lack the option, so there it has to be a number. -/
def chosenBits? (before after : Option Nat) (setting : Option Text) (standard : Nat) :
    Option Nat :=
  match setting with
  | none => some ((after <|> before).getD standard)
  | some text =>
      match before, after with
      | some _, some value => some value
      | _, _ => (Given.parseBits? text).map (after <|> before).getD

/-- The command that a word names, with the words after it. -/
def Command.ofWords? (name : Text) (words : List Text) : Option (Given × Command) :=
  if name = "inspect".toList then do
    let given ← Given.ofWords? OptionName.everywhere {} words
    let file ← given.file
    return (given, .inspect file)
  else if name = "edit".toList then do
    let given ← Given.ofWords? (OptionName.everywhere ++ [.edit, .output]) {} words
    let file ← given.file
    if given.edits.isEmpty then none else return (given, .edit file given.edits given.output)
  else if name = "utf16".toList then do
    let given ← Given.ofWords? (OptionName.everywhere ++ [.start, .stop]) {} words
    let file ← given.file
    return (given, .units file given.start given.stop)
  else none

namespace Request

/-- Whether a word asks for the version. Letters after the short form are not read. -/
def asksVersion (word : Text) : Bool :=
  word = "--version".toList || "-V".toList.isPrefixOf word

/-- The request of the words from a command's name on, `before` being the values read before it. -/
def ofCommand? (environment : String → Option Text) (before : Given) (name : Text)
    (words : List Text) : Option Request := do
  let (after, command) ← Command.ofWords? name words
  let branchingBits ← chosenBits? before.branchingBits after.branchingBits
    (environment "TEXT_ROPE_BRANCHING_BITS") Geometry.standard.branchingBits
  let leafBits ← chosenBits? before.leafBits after.leafBits
    (environment "TEXT_ROPE_LEAF_BITS") Geometry.standard.leafBits
  return .invocation ⟨branchingBits, leafBits, command⟩

/-- The request of the words that are left after some options. -/
def ofWords? (environment : String → Option Text) (before : Given) : List Text → Option Request
  | [] => none
  | word :: rest =>
      if asksVersion word then some .version
      else
        match WordRole.ofWord OptionName.everywhere word with
        | .unknown | .escape => none
        | .plain => ofCommand? environment before word rest
        | .option name (some value) =>
            (before.set? name value).bind fun before => ofWords? environment before rest
        | .option name none =>
            match rest with
            | [] => none
            | value :: rest =>
                if looksLikeOption value then none
                else (before.set? name value).bind fun before => ofWords? environment before rest

/-- The request of a command line, if its words are in order. -/
def parse? (environment : String → Option Text) (words : List Text) : Option Request :=
  ofWords? environment {} words

end Request
end GraphemeRope
