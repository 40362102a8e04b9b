import GraphemeRope.Proofs.Guarded.Tree
import GraphemeRope.Proofs.Tree.Insert
import GraphemeRope.Rope.Basic
import GraphemeRope.Unicode.Table

/-! # Content put into a tree

An insertion is refused past the end of a tree and meets no fault before that, if every node has
trees below it. The leaf that owns the position may have no chunk; then the content is cut into
chunks as if the leaf had an empty one. Of a tree of units the elements are those before the
position, those of the content and those after it. Of a tree of text this can be said of its text
only, since clusters may join across the ends of the content (`GraphemeRope.Tree.insert_exact`).
-/

namespace GraphemeRope

namespace Chunk

variable {α ε γ : Type} [Chunk α ε]

/-- What is seen of elements, if it is seen of parts of a row one after the other, and is the same
when chunks are cut anew. -/
structure Preserved (α : Type) {ε γ : Type} [Chunk α ε] (shown : List ε → List γ) : Prop where
  append (front rear : List ε) : shown (front ++ rear) = shown front ++ shown rear
  rechunk (parts : List α) (limit : Nat) :
    shown (elementsOf (rechunk parts limit)) = shown (elementsOf parts)

/-- What is seen of a row with content put in is what is seen of the parts of the row and of the
content. -/
theorem Placed.shown_elementsOf [LawfulChunk α] {shown : List ε → List γ}
    (preserved : Preserved α shown) {limit index : Nat} {content : α} {row changed : List α}
    (placed : Placed limit content row index changed) :
    shown (elementsOf changed) =
      shown ((elementsOf row).take index) ++ shown (elements content) ++
        shown ((elementsOf row).drop index) := by
  cases placed with
  | between front rear row_eq index_eq changed_eq =>
      rw [row_eq, index_eq, changed_eq, elementsOf_append, elementsOf_append, elementsOf_append,
        List.take_left, List.drop_left, preserved.append, preserved.append, preserved.rechunk,
        elementsOf_cons, elementsOf_nil, List.append_nil]
  | within front rear owner offset row_eq index_eq inside changed_eq =>
      rw [row_eq, index_eq, changed_eq, take_elementsOf_owner front rear inside,
        drop_elementsOf_owner front rear inside, elementsOf_append, elementsOf_append]
      simp only [preserved.append, preserved.rechunk, elementsOf_cons, elementsOf_nil,
        List.append_nil, LawfulChunk.elements_take, LawfulChunk.elements_drop, List.append_assoc]

end Chunk

namespace UnitChunk

/-- All units are kept. -/
theorem preserved_units : Chunk.Preserved UnitChunk fun units => units where
  append _ _ := rfl
  rechunk := elementsOf_rechunk

/-- Units put into an empty chunk are cut as they are alone. -/
theorem rechunk_around_empty (content : UnitChunk) (limit : Nat) :
    Chunk.rechunk [Chunk.take Chunk.empty 0, content, Chunk.drop Chunk.empty 0] limit =
      Chunk.rechunk [content] limit := rfl

end UnitChunk

namespace GraphemeChunk

variable [CharacterTable]

/-- Clusters may join, but the text is kept. -/
theorem preserved_text : Chunk.Preserved GraphemeChunk List.flatten where
  append _ _ := List.flatten_append
  rechunk parts limit := by rw [elementsOf_rechunk, Cluster.flatten_segment]

/-- A text put into an empty chunk is cut as it is alone. -/
theorem rechunk_around_empty (content : GraphemeChunk) (limit : Nat) :
    Chunk.rechunk [Chunk.take Chunk.empty 0, content, Chunk.drop Chunk.empty 0] limit =
      Chunk.rechunk [content] limit := rfl

end GraphemeChunk

namespace Tree

section Insertion

variable {α ε : Type} [Chunk α ε] {geometry : Geometry} {content : α} {tree : Tree α} {index : Nat}

/-- Whether a tree is another one with content put in at a position of it: only the chunk that owns
the position was cut anew, together with the content, or an empty one in its stead. Leaves at one
depth stay so. -/
structure Insertion (geometry : Geometry) (content : α) (tree : Tree α) (index : Nat)
    (changed : Tree α) : Prop where
  recut (owned : tree.owningLeaf index ≠ []) :
    Chunk.Recut geometry.leafLength content tree.chunks index changed.chunks
  between (vacant : tree.owningLeaf index = []) :
    ∃ front rear, tree.chunks = front ++ rear ∧ index = (Chunk.elementsOf front).length ∧
      changed.chunks = front ++ Chunk.rechunk
        [Chunk.take Chunk.empty 0, content, Chunk.drop Chunk.empty 0] geometry.leafLength ++ rear
  leveled {depth : Nat} (leveled : Leveled geometry depth tree) :
    ∃ top, Leveled geometry top changed

/-- The tree over what replaces a counted tree is one with the content put in. -/
theorem insertion_inserted (counted : Counted tree) (inside : index ≤ tree.length)
    (around : Chunk.rechunk [Chunk.take Chunk.empty 0, content, Chunk.drop Chunk.empty 0]
      geometry.leafLength = Chunk.rechunk [content] geometry.leafLength) :
    Insertion geometry content tree index
      (ofSiblings geometry (tree.inserted geometry content index)) where
  recut owned := by
    rw [chunks_ofSiblings]
    apply (putInto_inserted content counted inside).of_spreads (Chunk.spreads_recut _ _)
    exact fun vacant => absurd vacant owned
  between vacant := by
    have put : PutInto geometry content _ _ _ _ := putInto_inserted content counted inside
    rw [vacant] at put
    obtain ⟨front, rear, inner, row_eq, index_eq, start, changed_eq⟩ := put
    obtain rfl := Nat.le_zero.mp start
    rw [List.append_nil] at row_eq
    refine ⟨front, rear, row_eq, index_eq, ?_⟩
    rw [chunks_ofSiblings, changed_eq, around]
    rfl
  leveled leveled :=
    exists_leveled_ofSiblings ((graded_leveled geometry).inserted content leveled index)

/-- Content that is not empty is put in anywhere up to the end of a tree. -/
theorem exists_insert [LawfulChunk α] {γ : Type} {shown : List ε → List γ}
    (preserved : Chunk.Preserved α shown)
    (around : Chunk.rechunk [Chunk.take Chunk.empty 0, content, Chunk.drop Chunk.empty 0]
      geometry.leafLength = Chunk.rechunk [content] geometry.leafLength)
    (counted : Counted tree) (filled : Chunk.isEmpty content = false)
    (inside : ¬tree.length < index) :
    ∃ changed, tree.insert geometry index content = .ok changed ∧
      Insertion geometry content tree index changed ∧
      shown changed.elements = shown (tree.elements.take index) ++
        shown (Chunk.elements content) ++ shown (tree.elements.drop index) := by
  have within := Nat.le_of_not_lt inside
  refine ⟨ofSiblings geometry (tree.inserted geometry content index), ?_,
    insertion_inserted counted within around, ?_⟩
  · rw [insert, if_neg inside, filled]
    rfl
  · rw [elements_eq_elementsOf, chunks_ofSiblings]
    exact (placed_inserted content counted within).shown_elementsOf preserved

end Insertion

/-- **Insertion is exact.** Content that is not empty is refused past the end of a tree and put in
anywhere else, without a fault. It is cut anew together with the chunk that owns the position. Of a
tree of units the elements, and of a tree of text the text, are then what was before the position,
the content, and what was after it. -/
theorem insert_exact [CharacterTable] (geometry : Geometry) (index : Nat) :
    (∀ (tree : Tree UnitChunk) (content : UnitChunk), Counted tree → Grounded tree →
      Chunk.isEmpty content = false →
        Guarded.insertTree geometry tree index content = .ok (tree.insert geometry index content) ∧
        if tree.length < index then
          tree.insert geometry index content = .error (.indexOutOfRange index tree.length)
        else
          ∃ changed, tree.insert geometry index content = .ok changed ∧
            Insertion geometry content tree index changed ∧
            changed.elements =
              tree.elements.take index ++ content.units ++ tree.elements.drop index) ∧
    (∀ (tree : Tree GraphemeChunk) (content : GraphemeChunk), Counted tree → Grounded tree →
      Chunk.isEmpty content = false →
        Guarded.insertTree geometry tree index content = .ok (tree.insert geometry index content) ∧
        if tree.length < index then
          tree.insert geometry index content = .error (.indexOutOfRange index tree.length)
        else
          ∃ changed, tree.insert geometry index content = .ok changed ∧
            Insertion geometry content tree index changed ∧
            changed.text = (tree.elements.take index).flatten ++ content.text ++
              (tree.elements.drop index).flatten) := by
  constructor
  · intro tree content counted grounded filled
    refine ⟨Guarded.insertTree_eq counted grounded index content, ?_⟩
    split
    · next outside => exact if_pos outside
    · next inside =>
        exact exists_insert UnitChunk.preserved_units
          (UnitChunk.rechunk_around_empty content _) counted filled inside
  · intro tree content counted grounded filled
    refine ⟨Guarded.insertTree_eq counted grounded index content, ?_⟩
    split
    · next outside => exact if_pos outside
    · next inside =>
        obtain ⟨changed, done, insertion, shown⟩ := exists_insert GraphemeChunk.preserved_text
          (GraphemeChunk.rechunk_around_empty content _) counted filled inside
        rw [elements_eq_elementsOf, ← GraphemeChunk.flatMap_text] at shown
        exact ⟨changed, done, insertion, shown⟩

/-- Content put past the end of a tree, into a leaf without chunks, and inside a chunk of text. -/
theorem insert_exact_of_empty_leaf :
    let small : Geometry := ⟨1, 1, by decide, by decide⟩
    let tree : Tree UnitChunk := makeNode small [makeLeaf small [], makeLeaf small [⟨[1, 2]⟩]]
    let poem : Tree GraphemeChunk := makeLeaf small [⟨[['a'], ['b']]⟩]
    tree.insert small 3 ⟨[7]⟩ = .error (.indexOutOfRange 3 2) ∧
      (∃ changed, tree.insert small 0 ⟨[7, 8, 9]⟩ = .ok changed ∧
        Insertion small ⟨[7, 8, 9]⟩ tree 0 changed ∧ changed.elements = [7, 8, 9, 1, 2]) ∧
      ∃ changed, poem.insert small 1 ⟨[['x']]⟩ = .ok changed ∧
        Insertion small ⟨[['x']]⟩ poem 1 changed ∧ changed.text = ['a', 'x', 'b'] := by
  intro small tree poem
  have counted : Counted tree := by
    refine .node rfl (List.forall_mem_cons.mpr ⟨.leaf rfl, ?_⟩)
    exact List.forall_mem_singleton.mpr (.leaf rfl)
  have grounded : Grounded tree := by
    refine .node (by decide) (List.forall_mem_cons.mpr ⟨.leaf, ?_⟩)
    exact List.forall_mem_singleton.mpr .leaf
  have refused := ((insert_exact small 3).1 tree ⟨[7]⟩ counted grounded rfl).2
  have units := ((insert_exact small 0).1 tree ⟨[7, 8, 9]⟩ counted grounded rfl).2
  have text := ((insert_exact small 1).2 poem ⟨[['x']]⟩ (.leaf rfl) .leaf rfl).2
  rw [if_pos (by decide)] at refused
  rw [if_neg (by decide)] at units text
  exact ⟨refused, units, text⟩

end Tree
end GraphemeRope
