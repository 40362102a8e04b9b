import GraphemeRope.Proofs.Rope.TextEdit
import GraphemeRope.Proofs.Tree.Growth

/-! # How high the trees of a rope grow

A letter that is put in at the start of a text of that letter goes into the first chunk of the left
tree. If that tree began as a full leaf, each letter makes its whole left edge overflow, so that the
tree is one higher for every few letters (`GraphemeRope.Rope.height_of_insertions`). The height of a
tree is therefore not bounded by the logarithm of what was put in
(`GraphemeRope.Rope.not_logarithmic_height`).
-/

namespace GraphemeRope

section Letters

variable [CharacterTable] {geometry : Geometry} {letter : Char}

namespace Cluster

/-- Letters that are each a cluster beside another are so in a row. -/
theorem segmented_replicate (apart : starts [letter] letter = true) (count : Nat) :
    Segmented (List.replicate count [letter]) := by
  induction count with
  | zero => rfl
  | succ count ih =>
      have single : Segmented [[letter]] := rfl
      rw [List.replicate_succ', segmented_append_iff]
      refine ⟨ih, single, ?_⟩
      cases count with
      | zero => rfl
      | succ count =>
          rw [List.replicate_succ'] at ih ⊢
          have near := isBoundary_append_of_segmented ih [] [[letter]].flatten
          rw [List.append_nil, List.append_nil] at near
          exact near.trans apart

/-- A letter that holds together with no other is a cluster each time. -/
theorem segment_replicate (apart : starts [letter] letter = true) (count : Nat) :
    segment (List.replicate count letter) = List.replicate count [letter] := by
  have segmented := segmented_replicate apart count
  rw [Segmented, List.flatten_replicate_singleton] at segmented
  exact segmented

end Cluster

namespace GraphemeChunk

/-- The chunk of a letter that fills it. -/
def ofLetter (letter : Char) (limit : Nat) : GraphemeChunk := ⟨List.replicate limit [letter]⟩

/-- Letters fill one chunk after another. -/
theorem split_replicate (apart : Cluster.starts [letter] letter = true) {limit : Nat}
    (positive : 0 < limit) (count extra : Nat) :
    split (List.replicate (count * limit + extra) letter) limit =
      List.replicate count (ofLetter letter limit) ++
        split (List.replicate extra letter) limit := by
  have full : ∀ block ∈ List.replicate count (List.replicate limit [letter]),
      block.length = limit := by
    intro block member
    rw [List.eq_of_mem_replicate member, List.length_replicate]
  have chunk : ofText (List.replicate limit [letter]).flatten = ofLetter letter limit :=
    congrArg mk (Cluster.segmented_replicate apart limit)
  rw [split, split, Cluster.segment_replicate apart, Cluster.segment_replicate apart,
    ← List.replicate_append_replicate, ← List.flatten_replicate_replicate,
    groups_flatten_append positive full, List.map_append, List.map_replicate, chunk]

/-- A letter is one piece. -/
theorem split_letter (letter : Char) {limit : Nat} (positive : 0 < limit) :
    split [letter] limit = [ofText [letter]] := by
  rw [split]
  exact congrArg (List.map _) (groups_of_length_le (List.cons_ne_nil _ _) positive)

/-- A letter that is put in before a chunk full of it makes the chunk overflow. -/
theorem overflows_ofLetter (geometry : Geometry) (apart : Cluster.starts [letter] letter = true) :
    Tree.Overflows geometry (ofLetter letter geometry.leafLength) (ofText [letter]) := by
  have joined : [Chunk.take (ofLetter letter geometry.leafLength) 0, ofText [letter],
      Chunk.drop (ofLetter letter geometry.leafLength) 0].flatMap text =
        List.replicate (1 * geometry.leafLength + 1) letter := by
    rw [flatMap_text, flatten_between]
    simp only [Chunk.take, Chunk.drop, ofLetter, List.take_zero, List.drop_zero, List.flatten_nil,
      List.nil_append, List.flatten_replicate_singleton, Nat.one_mul]
    rfl
  refine ⟨ofText [letter], ?_⟩
  have cut := split_replicate apart geometry.leafLength_pos 1 1
  rw [← joined, List.replicate_one, List.replicate_one,
    split_letter letter geometry.leafLength_pos] at cut
  exact cut

end GraphemeChunk

namespace Rope

/-- Whether a rope holds a leaf full of a letter and so many more, all of them put into the first
chunk of its left tree. -/
structure Piled (geometry : Geometry) (letter : Char) (count : Nat) (rope : Rope) : Prop where
  holds : Holds geometry
    (List.replicate (geometry.branching * geometry.leafLength + count) letter) rope
  window : rope.window = Chunk.empty
  right : rope.right = Tree.empty
  towering : Tree.Towering geometry (GraphemeChunk.ofLetter letter geometry.leafLength) count
    rope.left

variable {count : Nat} {rope : Rope} (apart : Cluster.starts [letter] letter = true)
include apart

/-- The left tree of a text that fills a leaf is that leaf. -/
theorem piled_ofText (geometry : Geometry) :
    Piled geometry letter 0
      (ofText geometry (List.replicate (geometry.branching * geometry.leafLength) letter)) where
  holds := holds_ofText geometry _
  window := rfl
  right := rfl
  towering := by
    have cut := GraphemeChunk.split_replicate apart geometry.leafLength_pos geometry.branching 0
    rw [Nat.add_zero, List.replicate_zero, GraphemeChunk.split_nil, List.append_nil] at cut
    have filled : List.replicate geometry.branching
        (GraphemeChunk.ofLetter letter geometry.leafLength) ≠ [] := by
      rw [ne_eq, List.replicate_eq_nil_iff]
      exact Nat.ne_of_gt geometry.branching_pos
    have fits : (List.replicate geometry.branching
        (GraphemeChunk.ofLetter letter geometry.leafLength)).length = geometry.branching :=
      List.length_replicate
    rw [ofText, cut, Tree.ofChunks_of_length_le filled (Nat.le_of_eq fits)]
    refine Tree.Towering.makeLeaf ?_ fits
    rw [List.head?_replicate, if_neg (Nat.ne_of_gt geometry.branching_pos)]

/-- There is a boundary between letters of a text that are each a cluster. -/
theorem Holds.isAligned_letter {total : Nat}
    (holds : Holds geometry (List.replicate total letter) rope)
    (representable : rope.length < 2 ^ Geometry.indexBits) (nonzero : total ≠ 0) :
    rope.isAligned ⟨0, 0, [letter]⟩ = true := by
  obtain ⟨others, rfl⟩ := Nat.exists_eq_succ_of_ne_zero nonzero
  have measured := holds.shaped.measured representable
  rw [isAligned_iff measured holds.segmented (Nat.zero_le _), List.take_zero, List.drop_zero,
    List.flatten_nil, ← text_eq_flatten, holds.text_eq]
  exact ⟨Cluster.isBoundary_nil_left _, apart⟩

/-- **A letter more.** -/
theorem Piled.insert (piled : Piled geometry letter count rope)
    (representable : geometry.branching * geometry.leafLength + count < 2 ^ Geometry.indexBits) :
    ∃ next, (Edit.insert 0 [letter]).apply rope = .ok next ∧
      Piled geometry letter (count + 1) next := by
  obtain ⟨holds, window, right, towering⟩ := piled
  obtain rfl := holds.shaped.geometry_eq
  have length := holds.length_eq
  rw [Cluster.segment_replicate apart, List.length_replicate] at length
  have start : rope.windowStart = rope.length := by
    rw [Rope.length, windowStop, window, right]
    rfl
  have positive := Nat.mul_pos rope.geometry.branching_pos rope.geometry.leafLength_pos
  have aligned := holds.isAligned_letter apart (length ▸ representable) (by omega)
  have put := insert_of_lt_windowStart (by omega) (List.cons_ne_nil letter []) aligned
  have step := holds.simulates (length ▸ representable) (.insert 0 [letter])
  rw [Edit.applyToText_insert_zero] at step
  obtain ⟨next, applied, held⟩ := step
  obtain rfl := Except.ok.inj (put.symm.trans applied)
  exact ⟨_, applied, held, window, right,
    towering.insert (GraphemeChunk.overflows_ofLetter rope.geometry apart)⟩

/-- Letters more and more. -/
theorem Piled.applyAll (piled : Piled geometry letter count rope) {more : Nat}
    (representable : geometry.branching * geometry.leafLength + (count + more) <
      2 ^ Geometry.indexBits) :
    ∃ final, Edit.applyAll rope (List.replicate more (.insert 0 [letter])) = .ok final ∧
      Piled geometry letter (count + more) final := by
  induction more generalizing count rope with
  | zero => exact ⟨rope, rfl, piled⟩
  | succ more ih =>
      obtain ⟨next, put, higher⟩ := piled.insert apart (by omega)
      have total : count + (more + 1) = count + 1 + more := by omega
      rw [total] at representable ⊢
      rw [List.replicate_succ, Edit.applyAll, put]
      exact ih higher representable

/-- **Heights grow with the number of edits.** Whatever the geometry, letters that are put in one
after another at the start of a text of that letter which fills a leaf make the left tree one higher
for each run of insertions that is one shorter than a node has slots. -/
theorem height_of_insertions (geometry : Geometry) {count : Nat}
    (representable : geometry.branching * geometry.leafLength + count < 2 ^ Geometry.indexBits) :
    ∃ rope, Edit.applyAll
        (ofText geometry (List.replicate (geometry.branching * geometry.leafLength) letter))
        (List.replicate count (.insert 0 [letter])) = .ok rope ∧
      count ≤ rope.left.height * (geometry.branching - 1) ∧
      rope.left.height * (geometry.branching - 1) < count + (geometry.branching - 1) := by
  obtain ⟨rope, applied, piled⟩ := (piled_ofText apart geometry).applyAll apart
    (by rw [Nat.zero_add]; exact representable)
  rw [Nat.zero_add] at piled
  exact ⟨rope, applied, piled.towering.height_bounds⟩

end Rope

end Letters

namespace Rope

/-- Where a node has two slots and a chunk two clusters, every letter makes the tree one higher. -/
theorem height_of_insertions_of_seven :
    let small : Geometry := ⟨1, 1, by decide, by decide⟩
    ∃ rope, Edit.applyAll (ofText small (List.replicate 4 'a'))
        (List.replicate 7 (.insert 0 ['a'])) = .ok rope ∧ rope.left.height = 7 := by
  intro small
  have apart : Cluster.starts ['a'] 'a' = true := by decide +kernel
  obtain ⟨rope, applied, least, most⟩ := height_of_insertions apart small
    (show small.branching * small.leafLength + 7 < 2 ^ Geometry.indexBits by decide)
  have slots : small.branching - 1 = 1 := rfl
  rw [slots, Nat.mul_one] at least most
  exact ⟨rope, applied, Nat.le_antisymm (Nat.le_of_lt_succ most) least⟩

/-- **Heights are not logarithmic.** There is no bound on the heights of the trees of a rope by the
logarithm of four times all clusters and edits that went into it: seven letters put in at the start
of four make a tree of height seven. -/
theorem not_logarithmic_height :
    ¬∀ (geometry : Geometry) (text : Text) (edits : List Edit) (rope : Rope),
      Edit.applyAll (ofText geometry text) edits = .ok rope →
        ∀ tree ∈ rope.forest,
          2 ^ tree.height ≤ 4 * ((Cluster.segment text).length +
            total (edits.map fun edit => (Cluster.segment edit.content).length) +
              edits.length + 1) := by
  intro bounded
  have high : (Edit.applyAll (ofText ⟨1, 1, by decide, by decide⟩ ['a', 'a', 'a', 'a'])
      (List.replicate 7 (.insert 0 ['a']))).toOption.map (·.left.height) = some 7 := by
    decide +kernel
  obtain ⟨rope, applied, height⟩ := Option.map_eq_some_iff.mp high
  cases ended : Edit.applyAll (ofText ⟨1, 1, by decide, by decide⟩ ['a', 'a', 'a', 'a'])
      (List.replicate 7 (.insert 0 ['a'])) with
  | error refusal =>
      rw [ended] at applied
      cases applied
  | ok final =>
      rw [ended] at applied
      cases applied
      have small := bounded _ _ _ _ ended rope.left List.mem_cons_self
      rw [height] at small
      exact absurd small (by decide +kernel)

end Rope
end GraphemeRope
