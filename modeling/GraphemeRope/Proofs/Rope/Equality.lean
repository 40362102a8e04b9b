import GraphemeRope.Proofs.Rope.TextEdit

/-! # Ropes that are the same

Two reachable ropes are the same if and only if their texts are, whatever their geometries and
however their texts came to lie in chunks, regions and trees. So the same edit of both is refused
for the same reason or makes ropes that are the same again (`GraphemeRope.Rope.same_of_edit`). -/

namespace GraphemeRope
namespace Rope

section Sameness

variable [CharacterTable]

/-- Whether two edits ended in the same way, with ropes that are the same or with one refusal. -/
def SameEnd : Except RopeError Rope → Except RopeError Rope → Prop
  | .ok first, .ok second => (first == second) = true
  | .error first, .error second => first = second
  | _, _ => False

variable {geometry geometry' : Geometry} {text text' : Text} {rope other : Rope}

namespace Holds

/-- Ropes are compared by the texts that they hold. -/
theorem beq_iff (holds : Holds geometry text rope) (others : Holds geometry' text' other) :
    (rope == other) = true ↔ text = text' := by
  rw [Rope.beq_iff holds.shaped.forest_counted others.shaped.forest_counted, holds.elements_eq,
    others.elements_eq]
  refine ⟨fun same => ?_, congrArg Cluster.segment⟩
  rw [← Cluster.flatten_segment text, same, Cluster.flatten_segment]

/-- Edits of ropes that hold one text end in the same way. -/
theorem sameEnd (holds : Holds geometry text rope) (others : Holds geometry' text other)
    (representable : rope.length < 2 ^ Geometry.indexBits)
    (representable' : other.length < 2 ^ Geometry.indexBits) (edit : Edit) :
    SameEnd (edit.apply rope) (edit.apply other) := by
  have first := holds.simulates representable edit
  have second := others.simulates representable' edit
  cases outcome : edit.applyToText text with
  | error error =>
      rw [outcome] at first second
      rw [first, second]
      rfl
  | ok next =>
      rw [outcome] at first second
      obtain ⟨changed, applied, held⟩ := first
      obtain ⟨changed', applied', held'⟩ := second
      rw [applied, applied']
      exact (held.beq_iff held').mpr rfl

end Holds

/-- **Sameness is of texts and is kept by edits.** Two reachable ropes are the same exactly if their
texts are. If they are, the same edit of both ends in the same way. -/
theorem same_of_edit {history history' : List Edit} (reached : Reachable geometry history rope)
    (reached' : Reachable geometry' history' other) :
    ((rope == other) = true ↔ rope.text = other.text) ∧
    ((rope == other) = true → ∀ edit : Edit, SameEnd (edit.apply rope) (edit.apply other)) := by
  have compared := reached.holds.beq_iff reached'.holds
  refine ⟨compared, fun same edit => ?_⟩
  have one : Holds geometry' rope.text other := compared.mp same ▸ reached'.holds
  exact reached.holds.sameEnd one reached.representable reached'.representable edit

end Sameness

/-- A flag in one chunk of a left tree, and the same flag put together in the window between chunks
of small trees, one of them empty. A letter is put in before both. -/
theorem same_of_edit_across_layouts :
    let small : Geometry := ⟨1, 1, by decide, by decide⟩
    let rope := Rope.ofText .standard ['a', '🇩', '🇪', 'b']
    let other := (((Rope.ofText small ['a', '🇩']).append ['🇪']).append []).append ['b']
    (rope == other) = true ∧ (rope.windowStop = 3 ∧ other.windowStop = 2) ∧
      SameEnd ((Edit.insert 1 ['🇫']).apply rope) ((Edit.insert 1 ['🇫']).apply other) ∧
      SameEnd ((Edit.remove 2 4).apply rope) ((Edit.remove 2 4).apply other) := by
  intro small rope other
  have reached : Reachable .standard [] rope := .ofText _ (by decide +kernel)
  have reached' : Reachable small [.append ['b'], .append [], .append ['🇪']] other :=
    .edit (.edit (.edit (.ofText _ (by decide +kernel)) _ rfl (by decide +kernel)) _ rfl
      (by decide +kernel)) _ rfl (by decide +kernel)
  obtain ⟨compared, edited⟩ := same_of_edit reached reached'
  have same : (rope == other) = true := compared.mpr (by decide +kernel)
  exact ⟨same, by decide +kernel, edited same _, edited same _⟩

end Rope
end GraphemeRope
