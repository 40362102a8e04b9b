import GraphemeRope.Guarded.Chunk
import GraphemeRope.Proofs.Chunk

/-! # Guarded access to chunks is safe

Reading, cutting and joining chunks never leaves their bounds and never splits a character, since
the bounds of clusters are bytes at which characters start (`GraphemeRope.Guarded.LawfulAccess`). -/

namespace GraphemeRope
namespace Guarded

section Bytes

theorem byteCount_cons (c : Char) (rest : Text) :
    byteCount (c :: rest) = c.utf8Size + byteCount rest := rfl

theorem byteCount_append (front rear : Text) :
    byteCount (front ++ rear) = byteCount front + byteCount rear := by
  induction front with
  | nil => exact (Nat.zero_add _).symm
  | cons c front ih => rw [List.cons_append, byteCount_cons, byteCount_cons, ih, Nat.add_assoc]

theorem byteCount_pos {text : Text} (filled : text ≠ []) : 0 < byteCount text := by
  obtain ⟨c, rest, rfl⟩ := List.exists_cons_of_ne_nil filled
  exact Nat.add_pos_left c.utf8Size_pos _

/-- The bytes of a text are those of it as a string. -/
theorem byteCount_eq_utf8ByteSize (text : Text) :
    byteCount text = (String.ofList text).utf8ByteSize := by
  induction text with
  | nil => rfl
  | cons c rest ih =>
      rw [byteCount_cons, ih, ← List.singleton_append, String.ofList_append,
        String.utf8ByteSize_append, ← String.singleton_eq_ofList, String.utf8ByteSize_singleton]

/-- The bytes of the first character fit, and those of the others are left. -/
theorem exists_byteCount_cons (c : Char) (rest : Text) :
    ∃ count, byteCount (c :: rest) = count + 1 ∧ c.utf8Size ≤ count + 1 ∧
      count + 1 - c.utf8Size = byteCount rest := by
  obtain ⟨count, size⟩ : ∃ count, byteCount (c :: rest) = count + 1 :=
    Nat.exists_eq_succ_of_ne_zero (Nat.ne_of_gt (byteCount_pos (List.cons_ne_nil c rest)))
  refine ⟨count, size, ?_⟩
  rw [← size, byteCount_cons]
  exact ⟨Nat.le_add_right _ _, Nat.add_sub_cancel_left _ _⟩

/-- The text before the bound of two parts is the first. -/
theorem takeBytes_append (front rear : Text) :
    takeBytes (front ++ rear) (byteCount front) = .ok front := by
  induction front with
  | nil => exact takeBytes.eq_1 _
  | cons c front ih =>
      obtain ⟨count, size, fits, left⟩ := exists_byteCount_cons c front
      rw [List.cons_append, size, takeBytes, if_pos fits, left, ih]
      rfl

/-- The text from the bound of two parts on is the second. -/
theorem dropBytes_append (front rear : Text) :
    dropBytes (front ++ rear) (byteCount front) = .ok rear := by
  induction front with
  | nil => exact dropBytes.eq_1 _
  | cons c front ih =>
      obtain ⟨count, size, fits, left⟩ := exists_byteCount_cons c front
      rw [List.cons_append, size, dropBytes, if_pos fits, left, ih]

/-- The part of a text that lies between two others is cut out between its bytes. -/
theorem byteRange_between (front middle rear : Text) :
    byteRange (front ++ (middle ++ rear)) (byteCount front)
      (byteCount front + byteCount middle) = .ok middle := by
  rw [byteRange, if_neg (Nat.not_lt_of_le (Nat.le_add_right _ _)), dropBytes_append,
    Nat.add_sub_cancel_left]
  exact takeBytes_append middle rear

end Bytes

section Bounds

/-- There is one bound more than clusters. -/
theorem length_bounds (start : Nat) (clusters : List Grapheme) :
    (bounds start clusters).length = clusters.length + 1 := by
  induction clusters generalizing start with
  | nil => rfl
  | cons cluster rest ih => rw [bounds, List.length_cons, ih, List.length_cons]

/-- The first bound is where the clusters start. -/
theorem getElem?_bounds_zero (start : Nat) (clusters : List Grapheme) :
    (bounds start clusters)[0]? = some start := by
  cases clusters with
  | nil => rfl
  | cons cluster rest => rfl

/-- After some clusters there is the byte that follows them. -/
theorem drop_bounds (start : Nat) (front rear : List Grapheme) :
    (bounds start (front ++ rear)).drop front.length =
      bounds (start + byteCount front.flatten) rear := by
  induction front generalizing start with
  | nil => rfl
  | cons cluster front ih =>
      rw [List.cons_append, bounds, List.length_cons, List.drop_succ_cons, ih, List.flatten_cons,
        byteCount_append, Nat.add_assoc]

/-- The first bounds of a row of clusters are those of its front. -/
theorem take_bounds (start : Nat) (front rear : List Grapheme) :
    (bounds start (front ++ rear)).take (front.length + 1) = bounds start front := by
  induction front generalizing start with
  | nil =>
      cases rear with
      | nil => rfl
      | cons cluster rest => rfl
  | cons cluster front ih =>
      rw [List.cons_append, bounds, List.length_cons, List.take_succ_cons, ih, bounds]

/-- The bound after a front lies behind its bytes. -/
theorem getElem?_bounds (start : Nat) (front rear : List Grapheme) :
    (bounds start (front ++ rear))[front.length]? = some (start + byteCount front.flatten) := by
  rw [← Nat.add_zero front.length, ← List.getElem?_drop, drop_bounds, getElem?_bounds_zero]

/-- Bounds counted from a base are those of clusters that start so much earlier. -/
theorem rebase_bounds {base start : Nat} (below : base ≤ start) (clusters : List Grapheme) :
    rebase base (bounds start clusters) = .ok (bounds (start - base) clusters) := by
  induction clusters generalizing start with
  | nil =>
      rw [bounds, rebase, sub_of_le below]
      rfl
  | cons cluster rest ih =>
      rw [bounds, rebase, sub_of_le below, ok_bind,
        ih (Nat.le_add_right_of_le below), ok_bind, bounds, Nat.sub_add_comm below]
      rfl

/-- The first cluster lies between the first two bounds. -/
theorem clustersBetween_cons (text : Text) (start stop : Nat) (clusters : List Grapheme) :
    clustersBetween text (start :: bounds stop clusters) = (do
      let cluster ← byteRange text start stop
      let rest ← clustersBetween text (bounds stop clusters)
      return cluster :: rest) := by
  cases clusters with
  | nil => rfl
  | cons cluster rest => rfl

/-- Between their bounds lie the clusters. -/
theorem clustersBetween_bounds (front : Text) (clusters : List Grapheme) (rear : Text) :
    clustersBetween (front ++ (clusters.flatten ++ rear)) (bounds (byteCount front) clusters) =
      .ok clusters := by
  induction clusters generalizing front with
  | nil => rfl
  | cons cluster rest ih =>
      have later := ih (front ++ cluster)
      rw [byteCount_append, List.append_assoc] at later
      rw [bounds, clustersBetween_cons, List.flatten_cons, List.append_assoc, byteRange_between,
        ok_bind, later]
      rfl

end Bounds

/-- A range of a row is there if its ends are in order and inside. -/
theorem range_of_le {β : Type} {row : List β} {start stop : Nat} (ordered : start ≤ stop)
    (inside : stop ≤ row.length) : range row start stop = .ok ((row.take stop).drop start) :=
  if_pos ⟨ordered, inside⟩

theorem get_of_getElem? {β : Type} {row : List β} {slot : Nat} {entry : β}
    (present : row[slot]? = some entry) : get row slot = .ok entry := by
  rw [get, present]

/-- Chunks of which every access inside their bounds succeeds and gives what it should. -/
class LawfulAccess (α : Type) {ε : outParam Type} [Chunk α ε] [Access α ε] : Prop where
  length_eq (chunk : α) : Access.length chunk = .ok (Chunk.length chunk)
  read_eq {chunk : α} {offset : Nat} {element : ε}
    (present : Chunk.element? chunk offset = some element) : Access.read chunk offset = .ok element
  slice_eq {chunk : α} {start stop : Nat} (ordered : start ≤ stop)
    (inside : stop ≤ Chunk.length chunk) :
    Access.slice chunk start stop = .ok (Chunk.slice chunk start stop)
  rechunk_eq (parts : List α) (limit : Nat) :
    Access.rechunk parts limit = .ok (Chunk.rechunk parts limit)
  slice_zero (chunk : α) (stop : Nat) : Chunk.slice chunk 0 stop = Chunk.take chunk stop
  slice_length (chunk : α) (start : Nat) :
    Chunk.slice chunk start (Chunk.length chunk) = Chunk.drop chunk start

section Slices

variable {α ε : Type} [Chunk α ε] [Access α ε] [LawfulAccess α] {chunk : α}

/-- The slice up to an offset is the front of the chunk. -/
theorem slice_front {stop : Nat} (inside : stop ≤ Chunk.length chunk) :
    Access.slice chunk 0 stop = .ok (Chunk.take chunk stop) := by
  rw [LawfulAccess.slice_eq (Nat.zero_le stop) inside, LawfulAccess.slice_zero]

/-- The slice from an offset on is the rear of the chunk. -/
theorem slice_rear {start : Nat} (inside : start ≤ Chunk.length chunk) :
    Access.slice chunk start (Chunk.length chunk) = .ok (Chunk.drop chunk start) := by
  rw [LawfulAccess.slice_eq inside (Nat.le_refl _), LawfulAccess.slice_length]

end Slices

instance : LawfulAccess UnitChunk where
  length_eq _ := rfl
  read_eq present := get_of_getElem? present
  slice_eq {chunk start stop} ordered inside := by
    have units : range chunk.units start stop = .ok ((chunk.units.take stop).drop start) :=
      range_of_le ordered inside
    simp only [Access.slice, units, ok_bind]
    rfl
  rechunk_eq _ _ := rfl
  slice_zero _ _ := rfl
  slice_length chunk start :=
    congrArg (fun units => UnitChunk.mk (units.drop start)) List.take_length

section Texts

variable [CharacterTable]

omit [CharacterTable] in
theorem flatten_ne_nil {clusters : List Grapheme} (filled : clusters ≠ [])
    (proper : [] ∉ clusters) : clusters.flatten ≠ [] := by
  obtain ⟨cluster, rest, rfl⟩ := List.exists_cons_of_ne_nil filled
  intro blank
  rw [List.flatten_cons, List.append_eq_nil_iff] at blank
  exact proper (blank.1 ▸ List.mem_cons_self)

/-- A text is split as its clusters are grouped. Of the text, `done` is split already, `pending` are
the clusters since then, and `rest` are still to come. -/
theorem splitFrom_eq {limit : Nat} (positive : 0 < limit) (done : Text)
    {pending rest : List Grapheme} {count : Nat} (short : pending.length ≤ limit)
    (phase : count % limit = pending.length % limit) (first : count = 0 ↔ pending = [])
    (proper : [] ∉ pending ++ rest) :
    splitFrom (done ++ (pending.flatten ++ rest.flatten)) limit count
        (byteCount done + byteCount pending.flatten) (byteCount done) rest =
      .ok ((groups limit (pending ++ rest)).map fun clusters =>
        GraphemeChunk.ofText clusters.flatten) := by
  -- The induction is on the clusters still to come; a piece is done once `pending` is full.
  induction rest generalizing done pending count with
  | nil =>
      rw [List.append_nil] at proper
      rw [splitFrom, List.append_nil]
      by_cases vacant : pending = []
      · subst vacant
        rw [if_neg]
        · rw [groups_nil]
          rfl
        · simp only [List.flatten_nil, List.append_nil]
          exact Nat.lt_irrefl _
      · have filled := byteCount_pos (flatten_ne_nil vacant proper)
        have last := byteRange_between done pending.flatten []
        rw [← byteCount_append, List.append_nil] at last
        rw [List.flatten_nil, List.append_nil, if_pos, last, groups_of_length_le vacant short]
        · rfl
        · rw [byteCount_append]
          exact Nat.lt_add_of_pos_right filled
  | cons cluster rest ih =>
      rw [List.flatten_cons, splitFrom]
      by_cases cut : 0 < count ∧ count % limit = 0
      · have filled : pending ≠ [] := fun vacant => Nat.ne_of_gt cut.1 (first.mpr vacant)
        -- A positive multiple of the limit was counted, so what is pending fills a piece.
        have full : pending.length = limit := by
          rcases Nat.eq_or_lt_of_le short with full | shorter
          · exact full
          · rw [Nat.mod_eq_of_lt shorter, cut.2] at phase
            exact absurd (List.eq_nil_of_length_eq_zero phase.symm) filled
        have piece := byteRange_between done pending.flatten (cluster ++ rest.flatten)
        have again : (count + 1) % limit = [cluster].length % limit := by
          rw [Nat.add_mod, cut.2, Nat.zero_add, Nat.mod_mod]
          rfl
        have started : count + 1 = 0 ↔ [cluster] = [] :=
          iff_of_false (Nat.succ_ne_zero _) (List.cons_ne_nil _ _)
        have single : [cluster].length ≤ limit := positive
        have later := ih (done ++ pending.flatten) single again started
          fun member => proper (List.mem_append_right _ member)
        rw [List.flatten_singleton, byteCount_append, List.append_assoc] at later
        rw [if_pos cut, piece, ok_bind, later, groups_append filled full]
        rfl
      · have room : pending.length < limit := by
          refine Nat.lt_of_le_of_ne short fun full => cut ?_
          have filled : pending ≠ [] := List.ne_nil_of_length_pos (full ▸ positive)
          rw [phase, full, Nat.mod_self]
          exact ⟨Nat.pos_of_ne_zero fun zero => filled (first.mp zero), rfl⟩
        have longer : (pending ++ [cluster]).length = pending.length + 1 := List.length_append
        have again : (count + 1) % limit = (pending ++ [cluster]).length % limit := by
          rw [longer, Nat.add_mod, phase, ← Nat.add_mod]
        have started : count + 1 = 0 ↔ pending ++ [cluster] = [] :=
          iff_of_false (Nat.succ_ne_zero _) (List.concat_ne_nil _ _)
        have later := ih done (longer ▸ room) again started
          (by rw [List.append_assoc]; exact proper)
        rw [List.flatten_append, List.flatten_singleton, byteCount_append, List.append_assoc,
          List.append_assoc, ← Nat.add_assoc] at later
        rw [if_neg cut, later]
        rfl

/-- A guarded split never faults and gives the pieces of the unguarded one. -/
theorem split_eq (text : Text) (limit : Nat) :
    split text limit = .ok (GraphemeChunk.split text limit) := by
  have short : ([] : List Grapheme).length ≤ max limit 1 := Nat.zero_le _
  have proper : [] ∉ [] ++ Cluster.segment text := Cluster.nil_not_mem_segment text
  have pieces := splitFrom_eq (max_one_pos limit) [] short rfl (iff_of_true rfl rfl) proper
  rw [List.flatten_nil, List.nil_append, List.nil_append, Cluster.flatten_segment, List.nil_append,
    groups_max_one] at pieces
  exact pieces

/-- The cluster at an offset is read between its bounds. -/
theorem read_between (front : List Grapheme) (cluster : Grapheme) (rear : List Grapheme) :
    Access.read (GraphemeChunk.mk (front ++ cluster :: rear)) front.length = .ok cluster := by
  have start : get (bounds 0 (front ++ cluster :: rear)) front.length =
      .ok (byteCount front.flatten) := by
    rw [get_of_getElem? (getElem?_bounds 0 front _), Nat.zero_add]
  have stop : get (bounds 0 (front ++ cluster :: rear)) (front.length + 1) =
      .ok (byteCount front.flatten + byteCount cluster) := by
    have bound := getElem?_bounds 0 (front ++ [cluster]) rear
    rw [List.append_assoc, List.length_append, List.flatten_append, byteCount_append,
      List.flatten_singleton, Nat.zero_add] at bound
    exact get_of_getElem? bound
  have whole : (GraphemeChunk.mk (front ++ cluster :: rear)).text =
      front.flatten ++ (cluster ++ rear.flatten) := by
    rw [GraphemeChunk.text_eq, List.flatten_append, List.flatten_cons]
  simp only [Access.read, start, stop, ok_bind, whole, byteRange_between]

omit [CharacterTable] in
/-- The bounds that a slice keeps. -/
theorem range_bounds_between (front middle rear : List Grapheme) :
    range (bounds 0 (front ++ (middle ++ rear))) front.length (front.length + middle.length + 1) =
      .ok (bounds (byteCount front.flatten) middle) := by
  have inside : front.length + middle.length + 1 ≤
      (bounds 0 (front ++ (middle ++ rear))).length := by
    rw [length_bounds, List.length_append, List.length_append]
    omega
  rw [range_of_le (by omega) inside, List.drop_take, drop_bounds, Nat.zero_add, Nat.add_assoc,
    Nat.add_sub_cancel_left, take_bounds]

omit [CharacterTable] in
/-- Counted from the first of them, the bounds that a slice keeps are those of its clusters. -/
theorem rebase_bounds_self (base : Nat) (clusters : List Grapheme) :
    rebase base (bounds base clusters) = .ok (bounds 0 clusters) := by
  rw [rebase_bounds (Nat.le_refl _), Nat.sub_self]

omit [CharacterTable] in
/-- The bounds that a slice keeps, counted from the first of them, are the bounds of its
clusters. -/
theorem rebased_range_between (front middle rear : List Grapheme) :
    (do
      let kept ← range (bounds 0 (front ++ (middle ++ rear))) front.length
        (front.length + middle.length + 1)
      let base ← get kept 0
      rebase base kept) = .ok (bounds 0 middle) := by
  have base := get_of_getElem? (getElem?_bounds_zero (byteCount front.flatten) middle)
  rw [range_bounds_between, ok_bind, base, ok_bind, rebase_bounds_self]

/-- The slice between two offsets has the clusters between them. -/
theorem slice_between (front middle rear : List Grapheme) :
    Access.slice (GraphemeChunk.mk (front ++ (middle ++ rear))) front.length
      (front.length + middle.length) = .ok ⟨middle⟩ := by
  have kept := range_bounds_between front middle rear
  have base := get_of_getElem? (getElem?_bounds_zero (byteCount front.flatten) middle)
  have width : sub (bounds (byteCount front.flatten) middle).length 1 = .ok middle.length := by
    rw [length_bounds]
    exact sub_of_le (Nat.le_add_left 1 _)
  have final : get (bounds (byteCount front.flatten) middle) middle.length =
      .ok (byteCount front.flatten + byteCount middle.flatten) := by
    have bound := getElem?_bounds (byteCount front.flatten) middle []
    rw [List.append_nil] at bound
    exact get_of_getElem? bound
  have whole : (GraphemeChunk.mk (front ++ (middle ++ rear))).text =
      front.flatten ++ (middle.flatten ++ rear.flatten) := by
    rw [GraphemeChunk.text_eq, List.flatten_append, List.flatten_append]
  have clusters := clustersBetween_bounds [] middle []
  rw [List.nil_append, List.append_nil] at clusters
  have rebased := rebase_bounds_self (byteCount front.flatten) middle
  simp only [Access.slice, kept, base, width, final, ok_bind, whole, byteRange_between, rebased]
  exact congrArg (Except.map GraphemeChunk.mk) clusters

instance : LawfulAccess GraphemeChunk where
  length_eq chunk := by
    have width := length_bounds 0 chunk.clusters
    simp only [Access.length, width]
    exact sub_of_le (Nat.le_add_left 1 _)
  read_eq {chunk offset cluster} present := by
    obtain ⟨front, rear, cut, rfl⟩ := exists_append_of_getElem? present
    obtain ⟨clusters⟩ := chunk
    cases cut
    exact read_between front cluster rear
  slice_eq {chunk start stop} ordered inside := by
    obtain ⟨clusters⟩ := chunk
    have front : (clusters.take start).length = start :=
      List.length_take_of_le (Nat.le_trans ordered inside)
    have middle : ((clusters.take stop).drop start).length = stop - start := by
      have short : stop ≤ clusters.length := inside
      rw [List.length_drop, List.length_take_of_le short]
    have sliced := slice_between (clusters.take start) ((clusters.take stop).drop start)
      (clusters.drop stop)
    rw [append_between ordered, front, middle, Nat.add_sub_cancel' ordered] at sliced
    exact sliced
  rechunk_eq parts limit := split_eq _ limit
  slice_zero _ _ := rfl
  slice_length chunk start :=
    congrArg (fun clusters => GraphemeChunk.mk (clusters.drop start)) List.take_length

end Texts
end Guarded
end GraphemeRope
