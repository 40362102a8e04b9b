import GraphemeRope.Proofs.Command.Listing
import GraphemeRope.Proofs.Command.Words
import GraphemeRope.Proofs.Rope.TextEdit
import GraphemeRope.Proofs.UnitView.Cut

/-! # Units from a command line

A run that asks for the UTF-16 units of a file prints a listing of those in a range, or reports a
range that the units do not have. That is told by the text of the file, and nothing of the geometry
is seen in it (`GraphemeRope.Invocation.run_units`). A command line with an option for each end of
the range asks for such a run (`GraphemeRope.Request.parse?_unitWords`).
-/

namespace GraphemeRope

/-- The end of a run that prints the units of a text in a range, as far as the text alone tells. -/
def Command.unitOutcome (text : Text) (start stop : Option Nat) : Outcome :=
  let units := Units.encode text
  let first := start.getD 0
  let last := stop.getD units.length
  if first ≤ last ∧ last ≤ units.length then
    .success (unitLines ((units.drop first).take (last - first)))
  else
    .failure [s!"Invalid unit range {first}..{last}",
      (RopeError.rangeOutOfBounds first last units.length).message]

/-- The words that set an option to a position, if one is given. -/
def OptionName.words (name : OptionName) : Option Nat → List Text
  | none => []
  | some position => ['-' :: '-' :: name.long, Numeral.render position]

/-- The words of a command line that asks for units of a file in a geometry. -/
def Command.unitWords (geometry : Geometry) (file : Text) (start stop : Option Nat) : List Text :=
  geometry.words ++
    "utf16".toList :: file :: (OptionName.start.words start ++ OptionName.stop.words stop)

/-- The words of an option set it if they are any. -/
theorem Given.ofWords?_position {known : List OptionName} {name : OptionName}
    (role : WordRole.ofWord known ('-' :: '-' :: name.long) = .option name none)
    {position : Option Nat} (fits : ∀ number ∈ position, number < 2 ^ Geometry.indexBits)
    {before after : Given} (unset : position = none → before = after)
    (set : ∀ number ∈ position, before.set? name (Numeral.render number) = some after)
    (rest : List Text) :
    ofWords? known before (name.words position ++ rest) = ofWords? known after rest := by
  cases position with
  | none => rw [OptionName.words, List.nil_append, unset rfl]
  | some number =>
      exact ofWords?_option role (looksLikeOption_render (fits number rfl)) (set number rfl) rest

/-- The words after the command ask for a range of the units of its file. -/
theorem Command.ofWords?_units {file : Text} (plain : looksLikeOption file = false)
    (named : file ≠ []) {start stop : Option Nat}
    (startFits : ∀ position ∈ start, position < 2 ^ Geometry.indexBits)
    (stopFits : ∀ position ∈ stop, position < 2 ^ Geometry.indexBits) :
    Command.ofWords? "utf16".toList
        (file :: (OptionName.start.words start ++ OptionName.stop.words stop)) =
      some ({ file := some file, start, stop }, .units file start stop) := by
  have setStart : ∀ number ∈ start, ({ file := some file } : Given).set? .start
      (Numeral.render number) = some { file := some file, start } := by
    rintro number rfl
    have fits := Numeral.writes_render (startFits number rfl)
    rw [Given.set?, Numeral.position?_eq_some_iff.mpr fits]
    rfl
  have setStop : ∀ number ∈ stop, ({ file := some file, start } : Given).set? .stop
      (Numeral.render number) = some { file := some file, start, stop } := by
    rintro number rfl
    have fits := Numeral.writes_render (stopFits number rfl)
    rw [Given.set?, Numeral.position?_eq_some_iff.mpr fits]
    rfl
  have given : Given.ofWords? (OptionName.everywhere ++ [.start, .stop]) {}
      (file :: (OptionName.start.words start ++ OptionName.stop.words stop)) =
        some { file := some file, start, stop } := by
    rw [Given.ofWords?_file plain named rfl,
      Given.ofWords?_position rfl startFits (fun absent => by rw [absent]) setStart,
      ← List.append_nil (OptionName.stop.words stop),
      Given.ofWords?_position rfl stopFits (fun absent => by rw [absent]) setStop, Given.ofWords?]
  rw [Command.ofWords?, if_neg (by decide), if_neg (by decide), if_pos rfl, given]
  rfl

/-- **Reading a unit line.** What the words for units in a geometry ask for. -/
theorem Request.parse?_unitWords {environment : String → Option Text}
    (readable : ∀ name text, environment name = some text →
      (Given.parseBits? text).isSome = true)
    (geometry : Geometry) {file : Text} (plain : looksLikeOption file = false) (named : file ≠ [])
    {start stop : Option Nat} (startFits : ∀ position ∈ start, position < 2 ^ Geometry.indexBits)
    (stopFits : ∀ position ∈ stop, position < 2 ^ Geometry.indexBits) :
    parse? environment (Command.unitWords geometry file start stop) =
      some (.invocation ⟨geometry.branchingBits, geometry.leafBits, .units file start stop⟩) :=
  parse?_command readable geometry (by decide) (by decide)
    (Command.ofWords?_units plain named startFits stopFits) ⟨rfl, rfl⟩

section Runs

variable [CharacterTable]

/-- What is printed of the units of a rope is told by its text. -/
theorem Command.printUnits_eq (rope : Rope) (start stop : Option Nat) :
    printUnits rope start stop = unitOutcome rope.text start stop := by
  have length_eq : rope.unitView.length = (Units.encode rope.text).length := by
    rw [rope.unitView_eq]
    rfl
  have cut := rope.slice_unitsBetween 0 (Units.encode rope.text).length (start.getD 0)
    (stop.getD (Units.encode rope.text).length)
  rw [← rope.unitView_eq, Nat.zero_add, Nat.zero_add, Nat.sub_zero] at cut
  unfold printUnits unitOutcome
  by_cases fits : start.getD 0 ≤ stop.getD (Units.encode rope.text).length ∧
      stop.getD (Units.encode rope.text).length ≤ (Units.encode rope.text).length
  · have units := (Rope.showsRange_unitsBetween fits.1 fits.2).toList
    rw [if_pos fits] at cut
    simp only [length_eq, cut, if_pos fits, UnitView.units, units]
  · rw [if_neg fits] at cut
    simp only [length_eq, cut, if_neg fits]

variable {m : Type → Type} [Monad m] (files : Files m)

/-- **Units of a file.** A run that asks for units of a file, with or without a start and an end,
ends in the same way in every geometry, and so does any command line that asks for such a run,
whatever its words are. If the range lies in the units of the text, the end is a success that prints
the one listing of the units in it, which is nothing for none. If not, it is a failure that prints
nothing and reports the range and why it is refused. -/
theorem Invocation.run_units [LawfulMonad m] {file text : Text}
    (read : files.read file = pure (.ok text)) (start stop : Option Nat) :
    let units := Units.encode text
    let first := start.getD 0
    let last := stop.getD units.length
    ∃ outcome : Outcome,
      (∀ geometry : Geometry,
        Invocation.run files ⟨geometry.branchingBits, geometry.leafBits, .units file start stop⟩ =
          pure outcome) ∧
      (∀ (geometry : Geometry) (environment : String → Option Text) (words : List Text),
        Request.parse? environment words =
            some (.invocation
              ⟨geometry.branchingBits, geometry.leafBits, .units file start stop⟩) →
          runCommandLine files environment words = pure outcome) ∧
      if first ≤ last ∧ last ≤ units.length then
        outcome.code = 0 ∧ outcome.causes = [] ∧
          (∀ printed, Units.Listing ((units.drop first).take (last - first)) printed ↔
            printed = outcome.printed) ∧
          (first = last → outcome.printed = [])
      else
        outcome = ⟨1, [], [s!"Invalid unit range {first}..{last}",
          (RopeError.rangeOutOfBounds first last units.length).message]⟩ := by
  intro units first last
  have run (geometry : Geometry) :
      Invocation.run files ⟨geometry.branchingBits, geometry.leafBits, .units file start stop⟩ =
        pure (Command.unitOutcome text start stop) := by
    simp only [Invocation.run, geometry.ofBits_valid, Command.file, read, pure_bind, Command.runOn,
      Command.printUnits_eq, (Rope.holds_ofText geometry text).text_eq]
  refine ⟨Command.unitOutcome text start stop, run, ?_, ?_⟩
  · intro geometry environment words asked
    rw [runCommandLine, asked]
    exact run geometry
  · by_cases fits : first ≤ last ∧ last ≤ units.length
    · have ended : Command.unitOutcome text start stop =
          .success (Command.unitLines ((units.drop first).take (last - first))) := if_pos fits
      rw [if_pos fits, ended]
      refine ⟨rfl, rfl, Units.listing_iff _, fun empty => ?_⟩
      rw [empty, Nat.sub_self, List.take_zero]
      exact congrArg (List.flatMap _) (groups_nil 8)
    · rw [if_neg fits]
      exact if_neg fits

end Runs

/-- A range that starts inside a surrogate pair and goes on to the end, and one past the end. -/
theorem Invocation.run_units_of_halves :
    let files : Files Id := ⟨fun _ => .ok "ab😍cdefghij".toList, fun _ _ => .error .notFound⟩
    Invocation.run files ⟨1, 1, .units ['f'] (some 3) none⟩ =
        ⟨0, "de0d 0063 0064 0065 0066 0067 0068 0069\n006a\n".toList, []⟩ ∧
      Invocation.run files ⟨1, 1, .units ['f'] (some 20) none⟩ =
        ⟨1, [], ["Invalid unit range 20..12", "range 20..12 is out of bounds for length 12"]⟩ := by
  intro files
  let small : Geometry := ⟨1, 1, by decide, by decide⟩
  have read : files.read ['f'] = pure (.ok "ab😍cdefghij".toList) := rfl
  constructor
  · obtain ⟨outcome, run, _, ended⟩ := Invocation.run_units files read (some 3) none
    rw [if_pos (by decide)] at ended
    obtain ⟨code, causes, listing, _⟩ := ended
    have printed := (listing "de0d 0063 0064 0065 0066 0067 0068 0069\n006a\n".toList).mp
      ((Units.listing_iff _ _).mpr (by decide +kernel))
    refine (run small).trans ?_
    rw [printed, ← code, ← causes]
    rfl
  · obtain ⟨outcome, run, _, ended⟩ := Invocation.run_units files read (some 20) none
    rw [if_neg (by decide)] at ended
    exact (run small).trans (ended.trans (by decide +kernel))

end GraphemeRope
