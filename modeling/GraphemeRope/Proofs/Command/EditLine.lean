import GraphemeRope.Proofs.Command.Words
import GraphemeRope.Proofs.Rope.TextEdit
import Mathlib.Data.List.Forall2

/-! # Edits from a command line

A run that edits a file and prints the result ends as the edits of the text of the file do, one
after another, in the text alone (`GraphemeRope.Invocation.run_edit`). Nothing of its geometry is
seen in how it ends. A command line of an option for each edit asks for such a run
(`GraphemeRope.Request.parse?_editWords`).
-/

namespace GraphemeRope

section Definitions

variable [CharacterTable]

/-- The causes that are reported of an edit that was refused. -/
def Command.refusalCauses (refused : Edit) (error : RopeError) : List String :=
  let shown := String.ofList refused.render
  [s!"Failed to apply `{shown}`", error.message]

/-- The end of a run that prints a text after some edits, as far as the text alone tells. -/
def Command.editOutcome (text : Text) (edits : List Edit) : Outcome :=
  match Edit.applyAllToText text edits with
  | .ok final => .success final
  | .error (refused, error) => .failure (Command.refusalCauses refused error)

end Definitions

/-- The words of a command line that edits a file in a geometry and prints the result. -/
def Command.editWords (geometry : Geometry) (file : Text) (written : List Text) : List Text :=
  geometry.words ++ "edit".toList :: file :: written.flatMap fun edit => ["-e".toList, edit]

/-- No word of a kind starts with a dash. -/
theorem Edit.Kind.ofWord?_dash (rest : Text) : Kind.ofWord? ('-' :: rest) = none := rfl

/-- No edit is written with a dash in front. -/
theorem Edit.parse_dash_ne (rest : Text) (edit : Edit) : Edit.parse ('-' :: rest) ≠ .ok edit := by
  have onward : cutAt? [':'] ('-' :: rest) =
      (cutAt? [':'] rest).map fun parts => ('-' :: parts.1, parts.2) := rfl
  rw [parse, onward]
  cases cutAt? [':'] rest with
  | none => simp only [Option.map_none, Kind.ofWord?_dash, ne_eq, reduceCtorEq, not_false_eq_true]
  | some parts =>
      simp only [Option.map_some, Kind.ofWord?_dash, ne_eq, reduceCtorEq, not_false_eq_true]

/-- No edit is taken for an option. -/
theorem looksLikeOption_of_parse {word : Text} {edit : Edit} (parsed : Edit.parse word = .ok edit) :
    looksLikeOption word = false := by
  unfold looksLikeOption
  split
  · exact absurd parsed (Edit.parse_dash_ne _ edit)
  · rfl

/-- Edits that are given one after another are read in order. -/
theorem Given.ofWords?_edits {written : List Text} {edits : List Edit}
    (parsed : List.Forall₂ (fun word edit => Edit.parse word = .ok edit) written edits)
    (given : Given) :
    Given.ofWords? (OptionName.everywhere ++ [.edit, .output]) given
        (written.flatMap fun edit => ["-e".toList, edit]) =
      some { given with edits := given.edits ++ edits } := by
  induction parsed generalizing given with
  | nil =>
      rw [List.append_nil]
      rfl
  | @cons word edit written edits read _ ih =>
      have role : WordRole.ofWord (OptionName.everywhere ++ [.edit, .output]) "-e".toList =
          .option .edit none := by rfl
      have set : given.set? .edit word = some { given with edits := given.edits ++ [edit] } := by
        simp only [set?, read]
        rfl
      simp only [List.flatMap_cons, List.cons_append, List.nil_append]
      rw [ofWords?_option role (looksLikeOption_of_parse read) set, ih]
      simp only [List.append_assoc, List.singleton_append]

/-- The words after the command make up an edit of its file. -/
theorem Command.ofWords?_edit {file : Text} (plain : looksLikeOption file = false)
    (named : file ≠ []) {written : List Text} {edits : List Edit}
    (parsed : List.Forall₂ (fun word edit => Edit.parse word = .ok edit) written edits)
    (several : edits ≠ []) :
    Command.ofWords? "edit".toList
        (file :: written.flatMap fun edit => ["-e".toList, edit]) =
      some ({ file := some file, edits := edits }, .edit file edits none) := by
  have given : Given.ofWords? (OptionName.everywhere ++ [.edit, .output]) {}
      (file :: written.flatMap fun edit => ["-e".toList, edit]) =
        some { file := some file, edits := edits } := by
    rw [Given.ofWords?_file plain named rfl, Given.ofWords?_edits parsed]
    rfl
  have filled : edits.isEmpty = false := by
    rw [Bool.eq_false_iff]
    exact fun empty => several (List.isEmpty_iff.mp empty)
  rw [Command.ofWords?, if_neg (by decide), if_pos rfl, given]
  simp only [Option.bind_eq_bind, Option.bind_some, filled, Bool.false_eq_true, ↓reduceIte,
    Option.pure_def]

/-- **Reading an edit line.** What the words of an edit in a geometry ask for. -/
theorem Request.parse?_editWords {environment : String → Option Text}
    (readable : ∀ name text, environment name = some text →
      (Given.parseBits? text).isSome = true)
    (geometry : Geometry) {file : Text} (plain : looksLikeOption file = false) (named : file ≠ [])
    {written : List Text} {edits : List Edit}
    (parsed : List.Forall₂ (fun word edit => Edit.parse word = .ok edit) written edits)
    (several : edits ≠ []) :
    parse? environment (Command.editWords geometry file written) =
      some (.invocation ⟨geometry.branchingBits, geometry.leafBits, .edit file edits none⟩) :=
  parse?_command readable geometry (by decide) (by decide)
    (Command.ofWords?_edit plain named parsed several) ⟨rfl, rfl⟩

section Runs

variable [CharacterTable]

/-- A run ends with the first edit that is refused, whatever edits come after it. -/
theorem Command.editOutcome_of_refused {text reached : Text} {before : List Edit} {refused : Edit}
    {error : RopeError} (made : Edit.applyAllToText text before = .ok reached)
    (fails : refused.applyToText reached = .error error) (after : List Edit) :
    Command.editOutcome text (before ++ refused :: after) =
      .failure (Command.refusalCauses refused error) := by
  rw [editOutcome, Edit.applyAllToText_of_refused made fails]

variable {m : Type → Type} [Monad m] (files : Files m)

/-- A rope of a text is edited and printed as the text alone tells. -/
theorem Command.runOn_edit (geometry : Geometry) {text file : Text} {edits : List Edit}
    (representable : text.length + Edit.contentLength edits < 2 ^ Geometry.indexBits) :
    (Command.edit file edits none).runOn files (Rope.ofText geometry text) =
      pure (Command.editOutcome text edits) := by
  have run := (Rope.holds_ofText geometry text).simulatesAll representable
  unfold Command.runOn Command.editRope Command.editOutcome
  cases ended : Edit.applyAllToText text edits with
  | error refusal =>
      rw [ended] at run
      simp only [run]
      rfl
  | ok final =>
      rw [ended] at run
      obtain ⟨changed, applied, holds⟩ := run
      simp only [applied, holds.text_eq]

/-- **Edits of a file.** A run that edits a file in a geometry, and whose file and edits have fewer
characters than there are indices, ends as the text of the file and the edits tell: with the text
after all edits, or with the first edit that is refused and why. No file is written. So ends any
command line that asks for such a run, whatever its words are. -/
theorem Invocation.run_edit [LawfulMonad m] {file text : Text}
    (read : files.read file = pure (.ok text)) {edits : List Edit}
    (representable : text.length + Edit.contentLength edits < 2 ^ Geometry.indexBits) :
    (∀ geometry : Geometry,
      Invocation.run files ⟨geometry.branchingBits, geometry.leafBits, .edit file edits none⟩ =
        pure (Command.editOutcome text edits)) ∧
      (∀ (geometry : Geometry) (environment : String → Option Text) (words : List Text),
        Request.parse? environment words =
            some (.invocation
              ⟨geometry.branchingBits, geometry.leafBits, .edit file edits none⟩) →
          runCommandLine files environment words = pure (Command.editOutcome text edits)) ∧
      ∀ before refused after reached error, edits = before ++ refused :: after →
        Edit.applyAllToText text before = .ok reached →
          refused.applyToText reached = .error error →
            Command.editOutcome text edits =
              .failure (Command.refusalCauses refused error) := by
  have run (geometry : Geometry) :
      Invocation.run files ⟨geometry.branchingBits, geometry.leafBits, .edit file edits none⟩ =
        pure (Command.editOutcome text edits) := by
    simp only [Invocation.run, geometry.ofBits_valid, Command.file, read, pure_bind,
      Command.runOn_edit files geometry representable]
  refine ⟨run, ?_, ?_⟩
  · intro geometry environment words asked
    rw [runCommandLine, asked]
    exact run geometry
  · rintro before refused after reached error rfl made fails
    exact Command.editOutcome_of_refused made fails after

end Runs

/-- A line feed joins the carriage return that it is put in after, so three clusters stay three. The
range past their end is refused, and the text that should be appended next is not. -/
theorem Invocation.run_edit_refused :
    let files : Files Id := ⟨fun _ => .ok ['a', '\r', 'b'], fun _ _ => .error .notFound⟩
    let edits : List Edit := [.insert 2 ['\n'], .remove 2 9, .append ['x']]
    Invocation.run files ⟨1, 1, .edit ['f'] edits none⟩ =
      ⟨1, [], ["Failed to apply `remove:2..9`", "range 2..9 is out of bounds for length 3"]⟩ := by
  intro files edits
  have read : files.read ['f'] = pure (.ok ['a', '\r', 'b']) := rfl
  have representable : ['a', '\r', 'b'].length + Edit.contentLength edits <
      2 ^ Geometry.indexBits := by decide
  have run := (Invocation.run_edit files read representable).1 ⟨1, 1, by decide, by decide⟩
  have ended : Command.editOutcome ['a', '\r', 'b'] edits =
      ⟨1, [], ["Failed to apply `remove:2..9`", "range 2..9 is out of bounds for length 3"]⟩ := by
    decide +kernel
  exact run.trans ended

end GraphemeRope
