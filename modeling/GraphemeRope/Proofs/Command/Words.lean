import GraphemeRope.Command.Run
import GraphemeRope.Proofs.Script.Numeral

/-! # Words of a command line

What the words of a command line are read as: an option with the word after it, a file, and a
command with a geometry in front of it (`GraphemeRope.Request.parse?_command`). A geometry that is
named there wins over the environment. -/

namespace GraphemeRope

/-- The words that name a geometry. -/
def Geometry.words (geometry : Geometry) : List Text :=
  ["--branching-bits".toList, Numeral.render geometry.branchingBits,
    "--leaf-bits".toList, Numeral.render geometry.leafBits]

/-- A word without a dash is not taken for an option. -/
theorem looksLikeOption_of_not_mem {word : Text} (absent : '-' ∉ word) :
    looksLikeOption word = false := by
  unfold looksLikeOption
  split
  · exact absurd List.mem_cons_self absent
  · rfl

/-- Positions are not taken for options. -/
theorem looksLikeOption_render {position : Nat}
    (representable : position < 2 ^ Geometry.indexBits) :
    looksLikeOption (Numeral.render position) = false :=
  looksLikeOption_of_not_mem ((Numeral.writes_render representable).not_mem rfl (by decide))

/-- A word that is not taken for an option is plain, whatever options are known. -/
theorem WordRole.ofWord_of_plain (known : List OptionName) {word : Text}
    (plain : looksLikeOption word = false) : WordRole.ofWord known word = .plain := by
  unfold WordRole.ofWord
  split
  · cases plain
  · cases plain
  · cases plain
  · rfl

/-- A bit width of a geometry is read back, and not taken for an option. -/
theorem parseBits?_render : ∀ bits ≤ 8,
    Given.parseBits? (Numeral.render bits) = some bits ∧
      looksLikeOption (Numeral.render bits) = false := by
  decide

namespace Given

variable {known : List OptionName} {before after : Given}

/-- An option has the next word as its value. -/
theorem ofWords?_option {word value : Text} {name : OptionName}
    (role : WordRole.ofWord known word = .option name none)
    (plain : looksLikeOption value = false) (set : before.set? name value = some after)
    (rest : List Text) :
    ofWords? known before (word :: value :: rest) = ofWords? known after rest := by
  rw [ofWords?, role]
  simp only [plain, Bool.false_eq_true, ↓reduceIte, set, Option.bind_some]

/-- A word that is not an option is the file. -/
theorem ofWords?_file {file : Text} (plain : looksLikeOption file = false) (named : file ≠ [])
    (unset : before.file = none) (rest : List Text) :
    ofWords? known before (file :: rest) =
      ofWords? known { before with file := some file } rest := by
  have path : path? file = some file := if_neg fun empty => named (List.isEmpty_iff.mp empty)
  have set : before.setFile? file = some { before with file := some file } := by
    rw [setFile?, unset, path]
    rfl
  rw [ofWords?, WordRole.ofWord_of_plain _ plain]
  simp only [set, Option.bind_some]

end Given

/-- A bit width before the command is chosen, if the environment can be read. -/
theorem chosenBits?_before {environment : Option Text}
    (readable : ∀ text, environment = some text → (Given.parseBits? text).isSome = true)
    (bits standard : Nat) : chosenBits? (some bits) none environment standard = some bits := by
  cases setting : environment with
  | none => rfl
  | some text =>
      obtain ⟨number, read⟩ := Option.isSome_iff_exists.mp (readable text setting)
      simp only [chosenBits?, read]
      rfl

namespace Request

/-- An option before the command has the next word as its value. -/
theorem ofWords?_option (environment : String → Option Text) {before after : Given}
    {word value : Text} {name : OptionName} (other : asksVersion word = false)
    (role : WordRole.ofWord OptionName.everywhere word = .option name none)
    (plain : looksLikeOption value = false) (set : before.set? name value = some after)
    (rest : List Text) :
    ofWords? environment before (word :: value :: rest) = ofWords? environment after rest := by
  rw [ofWords?, other, role]
  simp only [Bool.false_eq_true, ↓reduceIte, plain, set, Option.bind_some]

/-- The words of a geometry set its bit widths. -/
theorem ofWords?_geometry (environment : String → Option Text) (geometry : Geometry)
    (rest : List Text) :
    ofWords? environment {} (geometry.words ++ rest) =
      ofWords? environment
        { branchingBits := some geometry.branchingBits, leafBits := some geometry.leafBits }
        rest := by
  obtain ⟨branching, branchingPlain⟩ := parseBits?_render _ geometry.branchingBits_valid.2
  obtain ⟨leaf, leafPlain⟩ := parseBits?_render _ geometry.leafBits_valid.2
  have setBranching : ({} : Given).set? .branchingBits (Numeral.render geometry.branchingBits) =
      some { branchingBits := some geometry.branchingBits } := by
    rw [Given.set?, branching]
    rfl
  have setLeaf : ({ branchingBits := some geometry.branchingBits } : Given).set? .leafBits
      (Numeral.render geometry.leafBits) =
        some { branchingBits := some geometry.branchingBits,
               leafBits := some geometry.leafBits } := by
    rw [Given.set?, leaf]
    rfl
  simp only [Geometry.words, List.cons_append, List.nil_append]
  rw [ofWords?_option environment (by decide) rfl branchingPlain setBranching,
    ofWords?_option environment (by decide) rfl leafPlain setLeaf]

/-- **Reading a command line.** A command that is asked for in a geometry. -/
theorem parse?_command {environment : String → Option Text}
    (readable : ∀ name text, environment name = some text →
      (Given.parseBits? text).isSome = true)
    (geometry : Geometry) {name : Text} (other : asksVersion name = false)
    (plain : looksLikeOption name = false) {words : List Text} {after : Given} {command : Command}
    (asked : Command.ofWords? name words = some (after, command))
    (unset : after.branchingBits = none ∧ after.leafBits = none) :
    parse? environment (geometry.words ++ name :: words) =
      some (.invocation ⟨geometry.branchingBits, geometry.leafBits, command⟩) := by
  rw [parse?, ofWords?_geometry, ofWords?, other, WordRole.ofWord_of_plain _ plain]
  simp only [Bool.false_eq_true, ↓reduceIte, ofCommand?, asked, unset.1, unset.2,
    chosenBits?_before (readable _), Option.bind_eq_bind, Option.bind_some, Option.pure_def]

end Request
end GraphemeRope
