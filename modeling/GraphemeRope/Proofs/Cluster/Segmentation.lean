import GraphemeRope.Proofs.Cluster.Boundary

/-! # Segmenting a text in parts

The clusters of a text are not empty and make up the text. A row of clusters is *segmented* if it is
what its own text is cut into. Two segmented rows make a segmented row if and only if there is a
boundary between their texts (`GraphemeRope.Cluster.segmented_append_iff`), so an edit keeps a row
segmented if it leaves boundaries at both its ends
(`GraphemeRope.Cluster.segmented_replaced`).
-/

namespace GraphemeRope
namespace Cluster

variable [CharacterTable] {past : List Char} {c next : Char} {rest : Text}

/-- A character before the start of a cluster ends its own. -/
theorem segmentAfter_of_start (starting : starts (c :: past) next = true) :
    segmentAfter past (c :: next :: rest) = [c] :: segmentAfter (c :: past) (next :: rest) := by
  simp only [segmentAfter, starting, ↓reduceIte]

/-- A character before one that continues its cluster joins the first cluster of the rest. -/
theorem segmentAfter_of_continuation (continued : starts (c :: past) next = false)
    {cluster : Grapheme} {clusters : List Grapheme}
    (later : segmentAfter (c :: past) (next :: rest) = cluster :: clusters) :
    segmentAfter past (c :: next :: rest) = (c :: cluster) :: clusters := by
  simp only [segmentAfter, continued, later, Bool.false_eq_true, ↓reduceIte]

/-- The first cluster begins with the first character. -/
theorem exists_segmentAfter_cons (past : List Char) (c : Char) (rest : Text) :
    ∃ cluster clusters, segmentAfter past (c :: rest) = (c :: cluster) :: clusters := by
  induction rest generalizing past c with
  | nil => exact ⟨[], [], rfl⟩
  | cons next rest ih =>
      cases starting : starts (c :: past) next with
      | true => exact ⟨[], _, segmentAfter_of_start starting⟩
      | false =>
          obtain ⟨cluster, clusters, later⟩ := ih (c :: past) next
          exact ⟨_, clusters, segmentAfter_of_continuation starting later⟩

/-- The clusters make up the text. -/
theorem flatten_segmentAfter (past : List Char) (text : Text) :
    (segmentAfter past text).flatten = text := by
  induction text generalizing past with
  | nil => rfl
  | cons c rest ih =>
      cases rest with
      | nil => rfl
      | cons next rest =>
          cases starting : starts (c :: past) next with
          | true =>
              rw [segmentAfter_of_start starting, List.flatten_cons, ih]
              rfl
          | false =>
              obtain ⟨cluster, clusters, later⟩ := exists_segmentAfter_cons (c :: past) next rest
              have made := ih (c :: past)
              rw [segmentAfter_of_continuation starting later, List.flatten_cons, List.cons_append,
                ← List.flatten_cons, ← later, made]

/-- No cluster is empty, whatever the past was. -/
theorem nil_not_mem_segmentAfter (past : List Char) (text : Text) :
    [] ∉ segmentAfter past text := by
  induction text generalizing past with
  | nil => exact List.not_mem_nil
  | cons c rest ih =>
      cases rest with
      | nil => simp only [segmentAfter, List.mem_singleton, reduceCtorEq, not_false_eq_true]
      | cons next rest =>
          cases starting : starts (c :: past) next with
          | true =>
              rw [segmentAfter_of_start starting, List.mem_cons, not_or]
              exact ⟨(List.cons_ne_nil _ _).symm, ih (c :: past)⟩
          | false =>
              obtain ⟨cluster, clusters, later⟩ := exists_segmentAfter_cons (c :: past) next rest
              have absent := ih (c :: past)
              rw [later, List.mem_cons, not_or] at absent
              rw [segmentAfter_of_continuation starting later, List.mem_cons, not_or]
              exact ⟨(List.cons_ne_nil _ _).symm, absent.2⟩

@[simp]
theorem flatten_segment (text : Text) : (segment text).flatten = text :=
  flatten_segmentAfter [] text

theorem nil_not_mem_segment (text : Text) : [] ∉ segment text := nil_not_mem_segmentAfter [] text

theorem segment_nil : segment [] = [] := rfl

/-- What follows the start of a cluster is segmented as if nothing stood before it. -/
theorem segmentAfter_append_of_starts (starting : starts past c = true) (between : List Char)
    (text : Text) :
    segmentAfter (between ++ c :: past) text = segmentAfter (between ++ [c]) text := by
  induction text generalizing between with
  | nil => rfl
  | cons d rest ih =>
      cases rest with
      | nil => rfl
      | cons next rest =>
          have same := ih (d :: between)
          have decided := starts_of_starts starting (d :: between) next
          simp only [List.cons_append] at same decided
          simp only [segmentAfter, decided, same]

/-- Where a cluster starts anyway the past makes no difference. -/
theorem segmentAfter_of_starts (starting : starts past c = true) :
    segmentAfter past (c :: rest) = segment (c :: rest) := by
  cases rest with
  | nil => rfl
  | cons next rest =>
      have same := segmentAfter_append_of_starts starting [] (next :: rest)
      have decided := starts_of_starts starting [] next
      simp only [List.nil_append] at same decided
      simp only [segment, segmentAfter, decided, same]

/-- A boundary cuts the row of clusters in two. -/
theorem segmentAfter_append (past : List Char) (front rear : Text)
    (boundary : ∀ next ∈ rear.head?, front ≠ [] → starts (front.reverse ++ past) next = true) :
    segmentAfter past (front ++ rear) =
      segmentAfter past front ++ segmentAfter (front.reverse ++ past) rear := by
  induction front generalizing past with
  | nil => rfl
  | cons c front ih =>
      simp only [List.reverse_cons, List.append_assoc] at boundary ⊢
      simp only [List.singleton_append] at boundary ⊢
      cases front with
      | nil =>
          cases rear with
          | nil => rfl
          | cons next rear =>
              have starting := boundary next rfl (List.cons_ne_nil _ _)
              exact segmentAfter_of_start starting
      | cons next front =>
          have later := ih (c :: past) fun start member _ =>
            boundary start member (List.cons_ne_nil _ _)
          rw [List.cons_append] at later
          simp only [List.cons_append]
          cases starting : starts (c :: past) next with
          | true =>
              rw [segmentAfter_of_start starting, segmentAfter_of_start starting, later,
                List.cons_append]
          | false =>
              obtain ⟨cluster, clusters, first⟩ := exists_segmentAfter_cons (c :: past) next front
              rw [first, List.cons_append] at later
              rw [segmentAfter_of_continuation starting first,
                segmentAfter_of_continuation starting later, List.cons_append]

/-- **Segmenting in parts.** At a boundary a text can be cut and its parts segmented on their
own. -/
theorem segment_append {front rear : Text} (boundary : isBoundary front rear = true) :
    segment (front ++ rear) = segment front ++ segment rear := by
  cases rear with
  | nil => simp only [List.append_nil, segment_nil]
  | cons next rear =>
      have starting : starts front.reverse next = true := boundary
      have cut := segmentAfter_append [] front (next :: rear) (by
        intro start member _
        cases member
        rw [List.append_nil]
        exact starting)
      rw [List.append_nil, segmentAfter_of_starts starting] at cut
      exact cut

/-- Between two clusters there is a boundary. -/
theorem starts_of_segmentAfter_eq_append {text : Text} {front rear : List Grapheme}
    (cut : segmentAfter past text = front ++ rear) (nonempty : front ≠ []) :
    ∀ next ∈ rear.flatten.head?, starts (front.flatten.reverse ++ past) next = true := by
  induction text generalizing past front with
  | nil =>
      unfold segmentAfter at cut
      exact absurd (List.append_eq_nil_iff.mp cut.symm).1 nonempty
  | cons c rest ih =>
      cases rest with
      | nil =>
          obtain ⟨cluster, others, rfl⟩ := List.exists_cons_of_ne_nil nonempty
          rw [segmentAfter, List.cons_append, List.cons.injEq] at cut
          have nothing := (List.append_eq_nil_iff.mp cut.2.symm).2
          intro next member
          rw [nothing] at member
          exact absurd member (by rw [List.flatten_nil]; exact Option.not_mem_none _)
      | cons d rest =>
          obtain ⟨cluster, others, rfl⟩ := List.exists_cons_of_ne_nil nonempty
          cases starting : starts (c :: past) d with
          | true =>
              rw [segmentAfter_of_start starting, List.cons_append, List.cons.injEq] at cut
              obtain ⟨rfl, later⟩ := cut
              by_cases last : others = []
              · subst last
                intro next member
                rw [List.nil_append] at later
                rw [← later, flatten_segmentAfter] at member
                cases member
                exact starting
              · have further := ih later last
                simp only [List.flatten_cons, List.singleton_append, List.reverse_cons,
                  List.append_assoc]
                exact further
          | false =>
              obtain ⟨first, clusters, later⟩ := exists_segmentAfter_cons (c :: past) d rest
              rw [segmentAfter_of_continuation starting later, List.cons_append,
                List.cons.injEq] at cut
              obtain ⟨rfl, same⟩ := cut
              have resumed : segmentAfter (c :: past) (d :: rest) =
                  ((d :: first) :: others) ++ rear := by
                rw [later, same, List.cons_append]
              have further := ih resumed (List.cons_ne_nil _ _)
              simp only [List.flatten_cons, List.reverse_append, List.append_assoc,
                List.reverse_cons, List.cons_append] at further ⊢
              exact further

omit [CharacterTable] in
/-- Two rows of clusters that begin rows of the same clusters and have the same text are the same
row. -/
theorem eq_of_append_eq_append {front front' rear rear' : List Grapheme}
    (absent : [] ∉ front) (absent' : [] ∉ front') (same : front ++ rear = front' ++ rear')
    (texts : front.flatten = front'.flatten) : front = front' := by
  have empty_of {row : List Grapheme} (missing : [] ∉ row) (blank : row.flatten = []) :
      row = [] := by
    cases row with
    | nil => rfl
    | cons cluster others =>
        simp only [List.flatten_cons, List.append_eq_nil_iff] at blank
        exact absurd (blank.1 ▸ List.mem_cons_self) missing
  rcases List.append_eq_append_iff.mp same with ⟨extra, longer, _⟩ | ⟨extra, longer, _⟩
  · subst longer
    simp only [List.mem_append, not_or] at absent'
    rw [List.flatten_append, List.self_eq_append_right] at texts
    rw [empty_of absent'.2 texts, List.append_nil]
  · subst longer
    simp only [List.mem_append, not_or] at absent
    rw [List.flatten_append, List.append_right_eq_self] at texts
    rw [empty_of absent.2 texts, List.append_nil]

/-- Whether a row of clusters is what its own text is cut into. -/
def Segmented (clusters : List Grapheme) : Prop := segment clusters.flatten = clusters

theorem segmented_segment (text : Text) : Segmented (segment text) := by
  rw [Segmented, flatten_segment]

theorem Segmented.nil_not_mem {clusters : List Grapheme} (segmented : Segmented clusters) :
    [] ∉ clusters := by
  rw [← segmented]
  exact nil_not_mem_segment _

/-- **Parts of a segmented row.** Two segmented rows make a segmented row if and only if there is a
boundary between their texts. -/
theorem segmented_append_iff {front rear : List Grapheme} :
    Segmented (front ++ rear) ↔
      Segmented front ∧ Segmented rear ∧ isBoundary front.flatten rear.flatten = true := by
  constructor
  · intro segmented
    have absent := segmented.nil_not_mem
    simp only [List.mem_append, not_or] at absent
    have boundary : isBoundary front.flatten rear.flatten = true := by
      by_cases empty : front = []
      · subst empty
        cases rear.flatten with
        | nil => rfl
        | cons next later => rfl
      · have starting := starts_of_segmentAfter_eq_append segmented empty
        rw [List.append_nil] at starting
        cases following : rear.flatten with
        | nil => rfl
        | cons next later =>
            rw [following] at starting
            exact starting next rfl
    have cut : segment front.flatten ++ segment rear.flatten = front ++ rear := by
      rw [← segment_append boundary, ← List.flatten_append, segmented]
    have first : segment front.flatten = front :=
      eq_of_append_eq_append (nil_not_mem_segment _) absent.1 cut (flatten_segment _)
    rw [first] at cut
    exact ⟨first, List.append_cancel_left cut, boundary⟩
  · rintro ⟨first, second, boundary⟩
    rw [Segmented, List.flatten_append, segment_append boundary, first, second]

/-- The first clusters of a segmented row are segmented. -/
theorem Segmented.take {clusters : List Grapheme} (segmented : Segmented clusters) (count : Nat) :
    Segmented (clusters.take count) := by
  rw [← List.take_append_drop count clusters, segmented_append_iff] at segmented
  exact segmented.1

/-- The last clusters of a segmented row are segmented. -/
theorem Segmented.drop {clusters : List Grapheme} (segmented : Segmented clusters) (count : Nat) :
    Segmented (clusters.drop count) := by
  rw [← List.take_append_drop count clusters, segmented_append_iff] at segmented
  exact segmented.2.1

/-- **Boundaries are local.** Before a segmented row ends, only its last cluster bears on whether
there is a boundary later on. -/
theorem isBoundary_append_of_segmented {earlier : List Grapheme} {cluster : Grapheme}
    (segmented : Segmented (earlier ++ [cluster])) (content rear : Text) :
    isBoundary ((earlier ++ [cluster]).flatten ++ content) rear =
      isBoundary (cluster ++ content) rear := by
  obtain ⟨_, single, boundary⟩ := segmented_append_iff.mp segmented
  rw [List.flatten_singleton] at boundary
  cases cluster with
  | nil => exact absurd (List.mem_append_right _ List.mem_cons_self) segmented.nil_not_mem
  | cons c cluster =>
      cases rear with
      | nil => rfl
      | cons next rear =>
          have decided := starts_of_starts boundary (cluster ++ content).reverse next
          simp only [isBoundary, List.flatten_append, List.flatten_singleton, List.reverse_append,
            List.reverse_cons, List.append_assoc, List.cons_append] at decided ⊢
          exact decided

/-- Whether there is a boundary before a text depends on its first character alone. -/
theorem isBoundary_append_right (front : Text) {rear : Text} (nonempty : rear ≠ []) (more : Text) :
    isBoundary front (rear ++ more) = isBoundary front rear := by
  obtain ⟨next, later, rfl⟩ := List.exists_cons_of_ne_nil nonempty
  rfl

/-- A text starts with a boundary. -/
theorem isBoundary_nil_left (rear : Text) : isBoundary [] rear = true := by
  cases rear with
  | nil => rfl
  | cons next rear => rfl

/-- Whether one of the cuts between the clusters of a text lies after so many characters. Both ends
of a text count. -/
def BoundaryAt (text : Text) (offset : Nat) : Prop :=
  ∃ front rear, segment text = front ++ rear ∧ front.flatten.length = offset

/-- The boundaries of a text are the places where its clusters meet. -/
theorem boundaryAt_append_iff {front rear : Text} :
    BoundaryAt (front ++ rear) front.length ↔ isBoundary front rear = true := by
  constructor
  · rintro ⟨before, after, cut, length_eq⟩
    have joined : before.flatten ++ after.flatten = front ++ rear := by
      rw [← List.flatten_append, ← cut, flatten_segment]
    obtain ⟨rfl, rfl⟩ := List.append_inj joined length_eq
    have segmented := segmented_segment (before.flatten ++ after.flatten)
    rw [cut, segmented_append_iff] at segmented
    exact segmented.2.2
  · intro boundary
    exact ⟨segment front, segment rear, segment_append boundary, by rw [flatten_segment]⟩

/-- **What an edit keeps segmented.** If a segmented row is followed by a text, and the text by
another segmented row, with boundaries between them, the clusters of the text and the two rows make
a segmented row. -/
theorem segmented_replaced {front rear : List Grapheme} {content : Text}
    (first : Segmented front) (second : Segmented rear)
    (before : isBoundary front.flatten (content ++ rear.flatten) = true)
    (after : isBoundary (front.flatten ++ content) rear.flatten = true) :
    Segmented (front ++ segment content ++ rear) := by
  have start : isBoundary front.flatten content = true := by
    by_cases empty : content = []
    · rw [empty]
      rfl
    · rw [isBoundary_append_right _ empty] at before
      exact before
  have joined : Segmented (front ++ segment content) := by
    rw [segmented_append_iff, flatten_segment]
    exact ⟨first, segmented_segment content, start⟩
  rw [segmented_append_iff, List.flatten_append, flatten_segment]
  exact ⟨joined, second, after⟩

/-- A text between clusters is segmented together with some of them as it is on its own, if that
leaves the whole row segmented. -/
theorem segment_between {before front rear after : List Grapheme} {content : Text}
    (segmented : Segmented (before ++ (front ++ segment content ++ rear) ++ after)) :
    segment (front.flatten ++ content ++ rear.flatten) = front ++ segment content ++ rear := by
  rw [segmented_append_iff, segmented_append_iff] at segmented
  have middle := segmented.1.2.1
  rw [Segmented, List.flatten_append, List.flatten_append, flatten_segment] at middle
  exact middle

end Cluster
end GraphemeRope
