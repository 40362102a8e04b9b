import GraphemeRope.Proofs.Tree.Insert
import GraphemeRope.Proofs.Tree.Join
import GraphemeRope.Proofs.Tree.Partition

/-! # Trees that a rope may hold

The trees of a rope have right measures, are well-formed, and hold chunks of bounded length. All
operations that a rope uses keep them so.
-/

namespace GraphemeRope
namespace Tree

variable {α ε : Type} [Chunk α ε]

/-- What holds of a tree of a rope. No chunk of it has fewer than `least` elements. -/
structure Region (geometry : Geometry) (least : Nat) (tree : Tree α) : Prop where
  made : Made geometry tree
  wellFormed : WellFormed geometry tree
  within : ∀ chunk ∈ tree.chunks, Chunk.Within least geometry.leafLength chunk

variable {geometry : Geometry} {least : Nat} {tree left right : Tree α}

namespace Region

/-- The empty tree can be a tree of any rope. -/
theorem empty : Region geometry least (empty : Tree α) :=
  ⟨made_empty, .empty, List.forall_mem_nil _⟩

/-- A tree without small chunks is one without smaller chunks. -/
theorem weaken {fewer : Nat} (region : Region geometry least tree) (weaker : fewer ≤ least) :
    Region geometry fewer tree :=
  ⟨region.made, region.wellFormed,
    fun chunk member => ⟨Nat.le_trans weaker (region.within chunk member).1,
      (region.within chunk member).2⟩⟩

/-- The tree over chunks of proper lengths can be a tree of a rope. -/
theorem ofChunks {chunks : List α}
    (within : ∀ chunk ∈ chunks, Chunk.Within least geometry.leafLength chunk) :
    Region geometry least (ofChunks geometry chunks) where
  made := made_ofChunks geometry chunks
  wellFormed := wellFormed_ofChunks geometry chunks
  within := by
    rw [chunks_ofChunks]
    exact within

theorem pushAll (region : Region geometry least tree) {chunks : List α}
    (within : ∀ chunk ∈ chunks, Chunk.Within least geometry.leafLength chunk) :
    Region geometry least (tree.pushAll geometry chunks) where
  made := made_pushAll chunks region.made
  wellFormed := wellFormed_pushAll chunks region.wellFormed
  within := by
    simp only [chunks_pushAll, List.forall_mem_append]
    exact ⟨region.within, within⟩

/-- Two trees of a rope may be joined. -/
theorem append (first : Region geometry least left) (second : Region geometry least right) :
    Region geometry least (append geometry left right) where
  made := made_append first.made second.made
  wellFormed := wellFormed_append first.made second.made first.wellFormed second.wellFormed
  within := forall_chunks_append first.made second.made first.within second.within

theorem collapse (region : Region geometry least tree) : Region geometry least tree.collapse where
  made := made_collapse region.made
  wellFormed := region.wellFormed.collapse
  within := by
    rw [chunks_collapse]
    exact region.within

variable [LawfulChunk α] (cuttable : least ≤ 1)
include cuttable

theorem take (region : Region geometry least tree) (count : Nat) :
    Region geometry least (tree.take geometry count) where
  made := made_take region.made count
  wellFormed := wellFormed_take region.wellFormed count
  within := within_take cuttable region.within count

theorem drop (region : Region geometry least tree) (start : Nat) :
    Region geometry least (tree.drop geometry start) where
  made := made_drop region.made start
  wellFormed := wellFormed_drop region.wellFormed start
  within := within_drop cuttable region.within start

theorem replace (region : Region geometry least tree) (start stop : Nat) (content : α) :
    Region geometry least (tree.replace geometry start stop content) := by
  have middle : Region geometry least
      (Tree.ofChunks geometry (Chunk.rechunk [content] geometry.leafLength)) :=
    ofChunks (Chunk.within_rechunk cuttable geometry.leafLength_pos [content])
  exact (((region.take cuttable start).append middle).append
    (region.drop cuttable stop)).collapse

theorem inserted (region : Region geometry least tree) {index : Nat} (inside : index ≤ tree.length)
    {content : α} (filled : Chunk.rechunk [content] geometry.leafLength ≠ []) :
    Region geometry least (ofSiblings geometry (tree.inserted geometry content index)) where
  made := made_ofSiblings (made_inserted content region.made index)
  wellFormed := wellFormed_inserted region.wellFormed filled index
  within := by
    rw [chunks_ofSiblings]
    exact (placed_inserted content region.made.counted inside).forall_within cuttable
      geometry.leafLength_pos region.within

end Region

/-- Content that is not empty can be put in anywhere up to the end of a tree. -/
theorem insert_ok {index : Nat} (inside : index ≤ tree.length) {content : α}
    (filled : ¬Chunk.isEmpty content = true) :
    tree.insert geometry index content =
      .ok (ofSiblings geometry (tree.inserted geometry content index)) := by
  rw [insert, if_neg (Nat.not_lt_of_le inside), if_neg filled]

variable [LawfulChunk α]

/-- The elements of a tree with a run of them replaced. -/
theorem elements_replace (made : Made geometry tree) (start stop : Nat) (content : α) :
    (tree.replace geometry start stop content).elements =
      tree.elements.take start ++
        Chunk.elementsOf (Chunk.rechunk [content] geometry.leafLength) ++
          tree.elements.drop stop := by
  have middle := made_ofChunks geometry (Chunk.rechunk [content] geometry.leafLength)
  have front := made_take made start
  rw [replace, elements_collapse, elements_append (made_append front middle) (made_drop made stop),
    elements_append front middle, elements_take made, elements_drop made,
    elements_eq_elementsOf (ofChunks geometry _), chunks_ofChunks]

end Tree
end GraphemeRope
