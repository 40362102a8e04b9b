import GraphemeRope.Proofs.Rope.Frame
import GraphemeRope.Proofs.Tree.Packing

/-! # New ropes

Pushing chunks one by one onto the empty tree makes the tree that is built over all of them at once,
with the same nodes and measures. So it does not matter whether a rope is made of a text, or made
empty and the text put at its end (`GraphemeRope.Rope.pushed_eq_built`).
-/

namespace GraphemeRope

/-- Chunks pushed onto the empty tree give the tree over them. -/
theorem Tree.pushAll_empty {α ε : Type} [Chunk α ε] (geometry : Geometry) (chunks : List α) :
    (empty : Tree α).pushAll geometry chunks = ofChunks geometry chunks := by
  rw [← ofChunks_nil geometry, pushAll_ofChunks, List.nil_append]

namespace Rope

variable [CharacterTable] {text : Text}

/-- Text put at the end of a rope of no text makes the rope of the text. -/
theorem append_empty (geometry : Geometry) (filled : text ≠ []) :
    (empty geometry).append text = ofText geometry text := by
  have aligned : (empty geometry).isAligned ⟨0, 0, text⟩ = true := rfl
  rw [append_of_isAligned aligned, if_pos ⟨rfl, rfl⟩, appendedChunks_eq_ite, if_neg filled, ofText]
  congr 1
  exact Tree.pushAll_empty geometry _

/-- **Pushing and building agree.** Whatever a row of chunks is, pushing them one by one onto the
empty tree makes the tree that is built over them. A rope to whose end a text is put when there is
no text yet is the rope of that text. -/
theorem pushed_eq_built (geometry : Geometry) :
    (∀ {α ε : Type} [Chunk α ε] (chunks : List α),
      chunks.foldl (Tree.push geometry) Tree.empty = Tree.ofChunks geometry chunks) ∧
    ∀ text : Text, text ≠ [] →
      ((empty geometry).append text).left = (ofText geometry text).left ∧
      ((empty geometry).append text).window = (ofText geometry text).window ∧
      ((empty geometry).append text).right = (ofText geometry text).right := by
  refine ⟨fun chunks => Tree.pushAll_empty geometry chunks, fun text filled => ?_⟩
  rw [append_empty geometry filled]
  exact ⟨rfl, rfl, rfl⟩

/-- Five clusters in chunks of two, in nodes of two: pushing the third chunk adds a node above. -/
theorem pushed_eq_built_of_five :
    let small : Geometry := ⟨1, 1, by decide, by decide⟩
    let rope := (empty small).append ['a', 'b', 'c', 'd', 'e']
    rope.left = Tree.ofChunks small (GraphemeChunk.split ['a', 'b', 'c', 'd', 'e'] 2) ∧
      Chunk.length rope.window = 0 ∧ rope.right = Tree.empty := by
  intro small rope
  obtain ⟨left, window, right⟩ := (pushed_eq_built small).2 _ (List.cons_ne_nil 'a' _)
  exact ⟨left, congrArg Chunk.length window, right⟩

end Rope
end GraphemeRope
