import GraphemeRope.Proofs.Cluster.Segmentation

/-! # How many clusters a text has

A text has no more clusters than characters. Text that is put after another can join what it is put
to, and can pair regional indicators differently, but it never makes more clusters than the two
texts have on their own (`GraphemeRope.Cluster.length_segment_append_le`). Of the rules that look
back, all but the one for regional indicators only join more if they see more; and where that one
separates two indicators which the text on its own would join, it joins the two before.
-/

namespace GraphemeRope
namespace Cluster

variable [CharacterTable] {past read : List Char} {previous next c : Char} {rest : Text}

/-- There is one more cluster for each character that starts one. -/
theorem length_segmentAfter_cons_cons (past : List Char) (c next : Char) (rest : Text) :
    (segmentAfter past (c :: next :: rest)).length =
      (segmentAfter (c :: past) (next :: rest)).length + (starts (c :: past) next).toNat := by
  cases starting : starts (c :: past) next with
  | true =>
      rw [segmentAfter_of_start starting]
      rfl
  | false =>
      obtain ⟨cluster, clusters, later⟩ := exists_segmentAfter_cons (c :: past) next rest
      rw [segmentAfter_of_continuation starting later, later]
      rfl

theorem length_segmentAfter_pos (past : List Char) (c : Char) (rest : Text) :
    0 < (segmentAfter past (c :: rest)).length := by
  obtain ⟨cluster, clusters, first⟩ := exists_segmentAfter_cons past c rest
  rw [first]
  exact Nat.zero_lt_succ _

/-- There are no more clusters than characters. -/
theorem length_segmentAfter_le (past : List Char) (text : Text) :
    (segmentAfter past text).length ≤ text.length := by
  induction text generalizing past with
  | nil => exact Nat.le_refl 0
  | cons c rest ih =>
      cases rest with
      | nil => exact Nat.le_refl 1
      | cons next rest =>
          have later := ih (c :: past)
          have atMost := (starts (c :: past) next).toNat_le
          rw [length_segmentAfter_cons_cons, List.length_cons (a := c)]
          omega

/-- No cluster is empty, so there are no more clusters than characters. -/
theorem length_segment_le (text : Text) : (segment text).length ≤ text.length :=
  length_segmentAfter_le [] text

/-- Where a text is cut, the cluster across the cut counts on both sides, if there is one. -/
theorem length_segmentAfter_append (past : List Char) {front : Text} (filled : front ≠ [])
    (c : Char) (rest : Text) :
    (segmentAfter past (front ++ c :: rest)).length + 1 =
      (segmentAfter past front).length + (segmentAfter (front.reverse ++ past) (c :: rest)).length +
        (starts (front.reverse ++ past) c).toNat := by
  induction front generalizing past with
  | nil => exact absurd rfl filled
  | cons first front ih =>
      simp only [List.reverse_cons, List.append_assoc, List.cons_append, List.nil_append]
      cases front with
      | nil =>
          rw [List.nil_append, length_segmentAfter_cons_cons]
          simp only [segmentAfter, List.reverse_nil, List.nil_append, List.length_singleton]
          omega
      | cons next front =>
          have later := ih (first :: past) (List.cons_ne_nil _ _)
          rw [List.cons_append] at later
          rw [List.cons_append, length_segmentAfter_cons_cons, length_segmentAfter_cons_cons]
          omega

/-- A text has no fewer clusters than what it begins with. -/
theorem length_segment_le_append (front rear : Text) :
    (segment front).length ≤ (segment (front ++ rear)).length := by
  cases rear with
  | nil => simp only [List.append_nil, Nat.le_refl]
  | cons c rest =>
      by_cases vacant : front = []
      · rw [vacant]
        exact Nat.zero_le _
      · have cut := length_segmentAfter_append [] vacant c rest
        have positive := length_segmentAfter_pos (front.reverse ++ []) c rest
        unfold segment
        omega

/-- A linker that ends what is read ends it after any past. -/
theorem endsLinked_append_of_endsLinked {linked : Bool} (ends : endsLinked linked read = true) :
    endsLinked linked (read ++ past) = true := by
  induction read generalizing linked with
  | nil => exact absurd ends Bool.false_ne_true
  | cons mark read ih =>
      simp only [List.cons_append, endsLinked] at ends ⊢
      cases role : ConjunctRole.ofChar mark <;> simp only [role] at ends ⊢
      · exact absurd ends Bool.false_ne_true
      · exact ends
      · exact ih ends
      · exact ih ends

/-- A pictograph that ends what is read ends it after any past. -/
theorem endsPictographic_append_of_endsPictographic (ends : endsPictographic read = true) :
    endsPictographic (read ++ past) = true := by
  induction read with
  | nil => exact absurd ends Bool.false_ne_true
  | cons mark read ih =>
      simp only [List.cons_append, endsPictographic] at ends ⊢
      split at ends
      · exact ih ends
      · rfl
      · exact absurd ends Bool.false_ne_true

/-- Two characters that are not both regional indicators still hold together if more is known of
what stands before them. -/
theorem continues_append (joined : continues previous read next = true)
    (unpaired : ¬(BreakClass.ofChar previous = .regionalIndicator ∧
      BreakClass.ofChar next = .regionalIndicator)) :
    continues previous (read ++ past) next = true := by
  unfold continues at joined ⊢
  simp only [Bool.and_eq_true, decide_eq_true_eq, unpaired, ↓reduceIte] at joined ⊢
  split at joined
  · next pair => rw [if_pos pair]
  next notPair =>
  rw [if_neg notPair]
  split at joined
  · exact absurd joined Bool.false_ne_true
  next joinable =>
  rw [if_neg joinable]
  split at joined
  · next classes => rw [if_pos classes]
  next notClasses =>
  rw [if_neg notClasses]
  split at joined
  · next conjunct =>
      have linked : endsLinked false (previous :: read ++ past) = true :=
        endsLinked_append_of_endsLinked conjunct.2
      rw [if_pos ⟨conjunct.1, linked⟩]
  next notConjunct =>
  split at joined
  · next emoji =>
      split
      · rfl
      · exact endsPictographic_append_of_endsPictographic joined
  · exact absurd joined Bool.false_ne_true

/-- Between two regional indicators a cluster starts after whole pairs of them. -/
theorem starts_regional (first : BreakClass.ofChar previous = .regionalIndicator)
    (second : BreakClass.ofChar next = .regionalIndicator) (past : List Char) :
    starts (previous :: past) next = decide (regionalRun (previous :: past) % 2 = 0) := by
  -- A linker would have the class of a mark, so no conjunct ends in an indicator.
  have unlinked : endsLinked false (previous :: past) = false := by
    unfold endsLinked
    cases role : ConjunctRole.ofChar previous with
    | outsider => rfl
    | consonant => rfl
    | linker =>
        have marks := CharacterTable.continues_of_linker previous (.inl role)
        rw [← BreakClass.ofChar, first] at marks
        exact absurd marks (by decide)
    | extend =>
        have marks := CharacterTable.continues_of_linker previous (.inr role)
        rw [← BreakClass.ofChar, first] at marks
        exact absurd marks (by decide)
  simp only [starts, continues, first, second, unlinked, BreakClass.isolates, pairJoins,
    BreakClass.hangulJoins, reduceCtorEq, decide_false, decide_true, Bool.and_false, Bool.and_self,
    Bool.or_self, Bool.false_eq_true, ↓reduceIte]
  rw [← decide_not]
  congr 1
  exact propext ⟨fun even => by omega, fun even => by omega⟩

theorem regionalRun_cons (regional : BreakClass.ofChar c = .regionalIndicator)
    (past : List Char) : regionalRun (c :: past) = regionalRun past + 1 := by
  simp only [regionalRun, regional]

theorem regionalRun_cons_of_ne (other : BreakClass.ofChar c ≠ .regionalIndicator)
    (past : List Char) : regionalRun (c :: past) = 0 := by
  unfold regionalRun
  split
  · next regional => exact absurd regional other
  · rfl

/-- How many clusters more a text may still show after some past than on its own: one, if as much
of it as has been read ends within a pair of regional indicators on its own, and after a pair if the
past counts. -/
def ahead (past read : List Char) : Nat :=
  if regionalRun read % 2 = 1 ∧ regionalRun (read ++ past) % 2 = 0 then 1 else 0

/-- What is read alone is at most one cluster ahead. -/
theorem ahead_le_one (past read : List Char) : ahead past read ≤ 1 := by
  unfold ahead
  split
  · exact Nat.le_refl 1
  · exact Nat.zero_le 1

/-- One character on, what is ahead is paid for by what starts here. -/
theorem starts_add_ahead_le (past read : List Char) (previous next : Char) :
    (starts (previous :: read ++ past) next).toNat + ahead past (next :: previous :: read) ≤
      (starts (previous :: read) next).toNat + ahead past (previous :: read) := by
  by_cases paired : BreakClass.ofChar previous = .regionalIndicator ∧
      BreakClass.ofChar next = .regionalIndicator
  · obtain ⟨first, second⟩ := paired
    have longer := starts_regional first second (read ++ past)
    have shorter := starts_regional first second read
    simp only [longer, shorter, ahead, List.cons_append, regionalRun_cons second]
    grind
  · have nothing : ahead past (next :: previous :: read) = 0 := by
      unfold ahead
      by_cases second : BreakClass.ofChar next = .regionalIndicator
      · have first : BreakClass.ofChar previous ≠ .regionalIndicator :=
          fun regional => paired ⟨regional, second⟩
        simp only [List.cons_append, regionalRun_cons second, regionalRun_cons_of_ne first,
          Nat.zero_add, Nat.one_mod, Nat.one_ne_zero, and_false, ↓reduceIte]
      · simp only [List.cons_append, regionalRun_cons_of_ne second, Nat.zero_mod, Nat.zero_ne_one,
          false_and, ↓reduceIte]
    have fewer : (starts (previous :: read ++ past) next).toNat ≤
        (starts (previous :: read) next).toNat := by
      cases own : starts (previous :: read) next with
      | true => exact Bool.toNat_le _
      | false =>
          simp only [starts, Bool.not_eq_false'] at own
          simp only [List.cons_append, starts, continues_append own paired, Bool.not_true,
            Nat.le_refl]
    omega

/-- After some past a text has at most one cluster more than on its own. -/
theorem length_segmentAfter_append_le (past read : List Char) (c : Char) (rest : Text) :
    (segmentAfter (read ++ past) (c :: rest)).length ≤
      (segmentAfter read (c :: rest)).length + ahead past (c :: read) := by
  induction rest generalizing read c with
  | nil => exact Nat.le_add_right 1 _
  | cons next rest ih =>
      have step := starts_add_ahead_le past read c next
      have later := ih (c :: read) next
      rw [length_segmentAfter_cons_cons, length_segmentAfter_cons_cons]
      rw [List.cons_append] at later step
      omega

/-- **Clusters of two texts.** Together two texts have no more clusters than on their own. -/
theorem length_segment_append_le (front rear : Text) :
    (segment (front ++ rear)).length ≤ (segment front).length + (segment rear).length := by
  cases rear with
  | nil =>
      rw [List.append_nil]
      exact Nat.le_add_right _ _
  | cons c rest =>
      cases starting : starts front.reverse c with
      | true =>
          have boundary : isBoundary front (c :: rest) = true := starting
          have apart := congrArg List.length (segment_append boundary)
          rw [List.length_append] at apart
          exact Nat.le_of_eq apart
      | false =>
          have filled : front ≠ [] := by
            rintro rfl
            cases starting
          have cut := length_segmentAfter_append [] filled c rest
          have more := length_segmentAfter_append_le front.reverse [] c rest
          have atMost := ahead_le_one front.reverse [c]
          rw [List.append_nil, starting] at cut
          rw [List.nil_append] at more
          simp only [Bool.toNat_false] at cut
          unfold segment
          omega

end Cluster
end GraphemeRope
