import GraphemeRope.Proofs.Rope.Reachable
import GraphemeRope.Proofs.Tree.Region
import GraphemeRope.Unicode.Table
import Mathlib.Tactic.ByContra

/-! # The shape of a rope

Every edit keeps the trees of a rope well-formed and the chunks of all regions bounded, whether or
not it is aligned (`GraphemeRope.Rope.Shaped`). Of the edits only an append of no text makes a chunk
without elements that a tree keeps.
-/

namespace GraphemeRope
namespace Rope

/-- The least number of clusters in a chunk of a tree, given the edits of a rope. -/
def leastLength (history : List Edit) : Nat := if Edit.append [] ∈ history then 0 else 1

/-- No history asks more of a chunk than that it is not empty. -/
theorem leastLength_le_one (history : List Edit) : leastLength history ≤ 1 := by
  unfold leastLength
  split
  · exact Nat.zero_le 1
  · exact Nat.le_refl 1

theorem leastLength_cons_le (edit : Edit) (history : List Edit) :
    leastLength (edit :: history) ≤ leastLength history := by
  by_cases named : Edit.append [] ∈ history
  · rw [leastLength, if_pos (List.mem_cons_of_mem _ named)]
    exact Nat.zero_le _
  · rw [leastLength.eq_def history, if_neg named]
    exact leastLength_le_one _

section Shape

variable [CharacterTable]

/-- What holds of the regions of a rope. No chunk of a tree has fewer than `least` clusters. -/
structure Shaped (geometry : Geometry) (least : Nat) (rope : Rope) : Prop where
  geometry_eq : rope.geometry = geometry
  left : Tree.Region geometry least rope.left
  right : Tree.Region geometry least rope.right
  window : Chunk.length rope.window ≤ geometry.leafLength

variable {geometry : Geometry} {least : Nat} {rope : Rope}

/-- A rope without small chunks is one without smaller chunks. -/
theorem Shaped.weaken {fewer : Nat} (shaped : Shaped geometry least rope)
    (weaker : fewer ≤ least) : Shaped geometry fewer rope :=
  ⟨shaped.geometry_eq, shaped.left.weaken weaker, shaped.right.weaken weaker, shaped.window⟩

theorem shaped_empty : Shaped geometry least (empty geometry) :=
  ⟨rfl, .empty, .empty, Nat.zero_le _⟩

theorem shaped_ofText (cuttable : least ≤ 1) (text : Text) :
    Shaped geometry least (ofText geometry text) where
  geometry_eq := rfl
  left := .ofChunks (GraphemeChunk.within_split cuttable geometry.leafLength_pos text)
  right := .empty
  window := Nat.zero_le _

/-- All pieces of the parts but the last go onto the left tree. -/
theorem left_withWindow (geometry : Geometry) (left right : Tree GraphemeChunk)
    (parts : List GraphemeChunk) :
    (withWindow geometry left parts right).left =
      if (Chunk.rechunk parts geometry.leafLength).dropLast.isEmpty then left
      else left.append geometry
        (Tree.ofChunks geometry (Chunk.rechunk parts geometry.leafLength).dropLast) := rfl

/-- The last piece of the parts is the window. -/
theorem window_withWindow (geometry : Geometry) (left right : Tree GraphemeChunk)
    (parts : List GraphemeChunk) :
    (withWindow geometry left parts right).window =
      (Chunk.rechunk parts geometry.leafLength).getLast?.getD Chunk.empty := rfl

/-- The pieces that spill out of the window are cut as any others. -/
theorem shaped_withWindow (cuttable : least ≤ 1) {left right : Tree GraphemeChunk}
    (first : Tree.Region geometry least left) (second : Tree.Region geometry least right)
    (parts : List GraphemeChunk) :
    Shaped geometry least (withWindow geometry left parts right) := by
  have pieces := Chunk.within_rechunk cuttable geometry.leafLength_pos parts
  refine ⟨rfl, ?_, second, ?_⟩
  · rw [left_withWindow]
    split
    · exact first
    · refine first.append (.ofChunks ?_)
      intro piece member
      exact pieces piece (List.dropLast_subset _ member)
  · rw [window_withWindow]
    cases final : (Chunk.rechunk parts geometry.leafLength).getLast? with
    | none => exact Nat.zero_le _
    | some piece => exact (pieces piece (List.mem_of_getLast? final)).2

/-- A rope keeps its shape when a change is carried out. -/
theorem Shaped.splice (cuttable : least ≤ 1) (shaped : Shaped geometry least rope)
    (change : Change) : Shaped geometry least (rope.splice change) := by
  obtain ⟨rfl, left, right, window⟩ := shaped
  unfold Rope.splice
  cases rope.placement change.start change.stop with
  | inWindow => exact shaped_withWindow cuttable left right _
  | afterWindow => exact ⟨rfl, left, right.replace cuttable _ _ _, window⟩
  | beforeWindow =>
      refine shaped_withWindow cuttable (left.take cuttable _)
        ((left.drop cuttable _).append ?_) _
      split
      · exact right
      · next filled =>
          rw [Chunk.isEmpty, decide_eq_true_eq] at filled
          refine (Tree.Region.ofChunks ?_).append right
          rw [List.forall_mem_singleton, Chunk.Within]
          omega
  | acrossWindow =>
      exact shaped_withWindow cuttable (left.take cuttable _) (right.drop cuttable _) _

/-- Appended text makes an empty chunk only if it is empty. -/
theorem within_appendedChunks (cuttable : least ≤ 1) {content : Text}
    (named : content = [] → least = 0) :
    ∀ chunk ∈ rope.appendedChunks content, Chunk.Within least rope.geometry.leafLength chunk := by
  unfold appendedChunks
  split
  · next nothing =>
      rw [List.forall_mem_singleton, named (GraphemeChunk.split_eq_nil_iff.mp nothing)]
      exact ⟨Nat.zero_le _, Nat.zero_le _⟩
  · exact GraphemeChunk.within_split cuttable rope.geometry.leafLength_pos content

/-- Every edit keeps the shape, and an append of no text may add chunks without elements. -/
theorem Shaped.of_effect {edit : Edit} {change : Change} {changed : Rope} (cuttable : least ≤ 1)
    (shaped : Shaped geometry least rope) (effect : edit.Effect rope change changed)
    (named : edit = .append [] → least = 0) : Shaped geometry least changed := by
  have spliced := shaped.splice cuttable (rope.align change)
  obtain ⟨rfl, left, right, window⟩ := shaped
  have chunks (appended : edit = .append change.content) :
      ∀ chunk ∈ rope.appendedChunks change.content,
        Chunk.Within least rope.geometry.leafLength chunk := by
    apply within_appendedChunks cuttable
    intro vacant
    exact named (vacant ▸ appended)
  cases effect with
  | unchanged _ _ => exact ⟨rfl, left, right, window⟩
  | spliced => exact spliced
  | pushedLeft appended _ _ _ => exact ⟨rfl, left.pushAll (chunks appended), right, window⟩
  | pushedRight appended _ _ => exact ⟨rfl, left, right.pushAll (chunks appended), window⟩
  | insertedLeft _ filled _ inside =>
      exact ⟨rfl, left.inserted cuttable inside (GraphemeChunk.rechunk_ofText_ne_nil filled), right,
        window⟩
  | insertedRight _ filled _ _ inside =>
      exact ⟨rfl, left, right.inserted cuttable inside (GraphemeChunk.rechunk_ofText_ne_nil filled),
        window⟩

/-- **The shape of reachable ropes.** The regions of a reachable rope are in shape, and if no edit
of it was an append of no text, its trees hold no empty chunk. -/
theorem Reachable.shaped {history : List Edit} (reached : Reachable geometry history rope) :
    Shaped geometry (leastLength history) rope := by
  induction reached with
  | empty => exact shaped_empty
  | ofText text _ => exact shaped_ofText (leastLength_le_one []) text
  | @edit history rope changed reached edit applied _ ih =>
      obtain ⟨change, _, effect⟩ := Edit.effect_of_apply applied
      have before := ih.weaken (leastLength_cons_le edit history)
      refine before.of_effect (leastLength_le_one _) effect ?_
      rintro rfl
      exact if_pos List.mem_cons_self

/-- **Reachable trees are well-formed.** Each region of a reachable rope, the window included, is a
well-formed tree whose chunks are not too long. Its two trees hold an empty chunk only if one of its
edits was an append of no text. -/
theorem wellFormed_of_reachable {history : List Edit} (reached : Reachable geometry history rope) :
    (∀ tree ∈ rope.forest, Tree.WellFormed geometry tree ∧
      ∀ chunk ∈ tree.chunks, Chunk.length chunk ≤ geometry.leafLength) ∧
    ∀ chunk ∈ rope.left.chunks ++ rope.right.chunks, Chunk.length chunk = 0 →
      Edit.append [] ∈ history := by
  obtain ⟨rfl, left, right, window⟩ := reached.shaped
  constructor
  · intro tree member
    rw [forest, List.mem_cons, List.mem_cons, List.mem_singleton] at member
    rcases member with rfl | rfl | rfl
    · exact ⟨left.wellFormed, fun chunk member => (left.within chunk member).2⟩
    · refine ⟨.uniform (.makeLeaf (List.cons_ne_nil _ _) rope.geometry.branching_pos)
        Nat.zero_ne_one, ?_⟩
      simp only [Tree.chunks_makeLeaf, List.forall_mem_singleton]
      exact window
    · exact ⟨right.wellFormed, fun chunk member => (right.within chunk member).2⟩
  · intro chunk member vacant
    have least : leastLength history ≤ Chunk.length chunk := by
      rcases List.mem_append.mp member with inLeft | inRight
      · exact (left.within chunk inLeft).1
      · exact (right.within chunk inRight).1
    by_contra named
    rw [leastLength, if_neg named, vacant] at least
    exact absurd least (Nat.not_succ_le_zero 0)

end Shape

/-- A letter, a mark that joins it and no text, appended one after another. -/
theorem wellFormed_after_appends :
    let rope := (((Rope.empty .standard).append ['e']).append ['\u0301']).append []
    rope.length = 1 ∧
      ∀ tree ∈ rope.forest, Tree.WellFormed .standard tree ∧
        ∀ chunk ∈ tree.chunks, Chunk.length chunk ≤ Geometry.standard.leafLength := by
  intro rope
  have reached : Reachable .standard [.append [], .append ['\u0301'], .append ['e']] rope :=
    .edit (.edit (.edit .empty _ rfl (by decide +kernel)) _ rfl (by decide +kernel)) _ rfl
      (by decide +kernel)
  exact ⟨by decide +kernel, (wellFormed_of_reachable reached).1⟩

end Rope
end GraphemeRope
