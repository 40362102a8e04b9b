import Mathlib.Tactic.ByContra
import GraphemeRope.Unicode.Cluster

/-! # What a cluster boundary cuts off

Whether a character starts a cluster is decided by all the characters before it, some of them
arbitrarily far away. None of that reach crosses a boundary, however: after a character that starts
a cluster, every decision is the one that would be made if the text began with that character
(`GraphemeRope.Cluster.starts_of_starts`). A text can therefore be cut at any of its boundaries and
its parts segmented on their own (`GraphemeRope.Cluster.segment_append`).
-/

namespace GraphemeRope
namespace Cluster

variable [CharacterTable] {past : List Char} {c previous : Char}

/-- What isolates takes no part in conjuncts. -/
theorem outsider_of_isolates (isolated : (BreakClass.ofChar c).isolates = true) :
    ConjunctRole.ofChar c = .outsider := by
  cases role : ConjunctRole.ofChar c with
  | outsider => rfl
  | consonant =>
      have joinable := CharacterTable.not_isolates_of_consonant c role
      exact absurd isolated (by rw [BreakClass.ofChar, joinable]; exact Bool.false_ne_true)
  | linker =>
      rcases CharacterTable.continues_of_linker c (.inl role) with extending | joining
      · exact absurd isolated (by rw [BreakClass.ofChar, extending]; exact Bool.false_ne_true)
      · exact absurd isolated (by rw [BreakClass.ofChar, joining]; exact Bool.false_ne_true)
  | extend =>
      rcases CharacterTable.continues_of_linker c (.inr role) with extending | joining
      · exact absurd isolated (by rw [BreakClass.ofChar, extending]; exact Bool.false_ne_true)
      · exact absurd isolated (by rw [BreakClass.ofChar, joining]; exact Bool.false_ne_true)

/-- What extends a cluster can start one only after a character that isolates. -/
theorem isolates_of_starts
    (extending : BreakClass.ofChar c = .extend ∨ BreakClass.ofChar c = .zeroWidthJoiner)
    (starting : starts (previous :: past) c = true) :
    (BreakClass.ofChar previous).isolates = true := by
  by_contra joinable
  have continued : continues previous past c = true := by
    have markJoins : BreakClass.extend.isolates = false := rfl
    have joinerJoins : BreakClass.zeroWidthJoiner.isolates = false := rfl
    rcases extending with class_eq | class_eq <;>
      simp only [continues, class_eq, joinable, markJoins, joinerJoins, pairJoins, reduceCtorEq,
        decide_false, decide_true, Bool.and_false, Bool.or_false, Bool.or_true, Bool.true_or,
        Bool.false_eq_true, ↓reduceIte]
  rw [starts, continued] at starting
  exact Bool.false_ne_true starting

/-- No conjunct reaches back over the start of a cluster that a mark starts. -/
theorem endsLinked_of_starts_mark
    (extending : BreakClass.ofChar c = .extend ∨ BreakClass.ofChar c = .zeroWidthJoiner)
    (starting : starts past c = true) (linked : Bool) : endsLinked linked past = false := by
  cases past with
  | nil => rfl
  | cons previous earlier =>
      have role := outsider_of_isolates (isolates_of_starts extending starting)
      simp only [endsLinked, role]

/-- No emoji sequence reaches back over the start of a cluster that a mark starts. -/
theorem endsPictographic_of_starts_mark
    (extending : BreakClass.ofChar c = .extend ∨ BreakClass.ofChar c = .zeroWidthJoiner)
    (starting : starts past c = true) : endsPictographic past = false := by
  cases past with
  | nil => rfl
  | cons previous earlier =>
      have isolated := isolates_of_starts extending starting
      unfold endsPictographic
      split
      · next class_eq => exact absurd isolated (by rw [class_eq]; exact Bool.false_ne_true)
      · next class_eq => exact absurd isolated (by rw [class_eq]; exact Bool.false_ne_true)
      · rfl

/-- A regional indicator starts a cluster only after whole pairs of them. -/
theorem regionalRun_even_of_starts (regional : BreakClass.ofChar c = .regionalIndicator)
    (starting : starts past c = true) : regionalRun past % 2 = 0 := by
  cases past with
  | nil => rfl
  | cons previous earlier =>
      by_cases paired : BreakClass.ofChar previous = .regionalIndicator
      · by_contra odd
        have count : regionalRun (previous :: earlier) % 2 = 1 := by omega
        have continued : continues previous earlier c = true := by
          simp only [continues, regional, paired, count, BreakClass.isolates, pairJoins,
            BreakClass.hangulJoins, reduceCtorEq, decide_false, decide_true, Bool.and_self,
            Bool.or_false, Bool.false_eq_true, ↓reduceIte, ite_self]
        rw [starts, continued] at starting
        exact Bool.false_ne_true starting
      · unfold regionalRun
        split
        · next class_eq => exact absurd class_eq paired
        · rfl

section Starts

variable (starting : starts past c = true)

include starting

/-- Whether a linker ends the past is decided after a character that starts a cluster. -/
theorem endsLinked_append (between : List Char) (linked : Bool) :
    endsLinked linked (between ++ c :: past) = endsLinked linked (between ++ [c]) := by
  induction between generalizing linked with
  | nil =>
      simp only [List.nil_append, endsLinked]
      cases role : ConjunctRole.ofChar c with
      | outsider => rfl
      | consonant => rfl
      | linker =>
          exact endsLinked_of_starts_mark (CharacterTable.continues_of_linker c (.inl role))
            starting true
      | extend =>
          exact endsLinked_of_starts_mark (CharacterTable.continues_of_linker c (.inr role))
            starting linked
  | cons mark between ih => simp only [List.cons_append, endsLinked, ih]

/-- Whether a pictograph ends the past is decided after a character that starts a cluster. -/
theorem endsPictographic_append (between : List Char) :
    endsPictographic (between ++ c :: past) = endsPictographic (between ++ [c]) := by
  induction between with
  | nil =>
      simp only [List.nil_append, endsPictographic]
      split
      · next extending => exact endsPictographic_of_starts_mark (.inl extending) starting
      · rfl
      · rfl
  | cons mark between ih => simp only [List.cons_append, endsPictographic, ih]

/-- Whether a run of regional indicators is even is decided after a character that starts a
cluster. -/
theorem regionalRun_append (between : List Char) :
    regionalRun (between ++ c :: past) % 2 = regionalRun (between ++ [c]) % 2 := by
  induction between with
  | nil =>
      simp only [List.nil_append, regionalRun]
      split
      · next regional =>
          have even := regionalRun_even_of_starts regional starting
          omega
      · rfl
  | cons mark between ih =>
      simp only [List.cons_append, regionalRun]
      split
      · omega
      · rfl

/-- **A boundary cuts the past off.** After a character that starts a cluster, every decision is the
one made in a text that begins with that character. -/
theorem starts_of_starts (between : List Char) (next : Char) :
    starts (between ++ c :: past) next = starts (between ++ [c]) next := by
  cases between with
  | nil =>
      have linked := endsLinked_append starting [] false
      have run := regionalRun_append starting []
      simp only [List.nil_append] at linked run
      have pictographic (joiner : BreakClass.ofChar c = .zeroWidthJoiner) :
          endsPictographic past = endsPictographic [] :=
        endsPictographic_of_starts_mark (.inr joiner) starting
      simp only [List.nil_append, starts, continues, linked, run]
      by_cases joiner : BreakClass.ofChar c = .zeroWidthJoiner
      · rw [pictographic joiner]
      · simp only [joiner, decide_false, Bool.false_and, Bool.false_eq_true, ↓reduceIte]
  | cons mark between =>
      have linked := endsLinked_append starting (mark :: between) false
      have run := regionalRun_append starting (mark :: between)
      simp only [List.cons_append] at linked run
      simp only [List.cons_append, starts, continues, linked, run,
        endsPictographic_append starting between]

end Starts

end Cluster
end GraphemeRope
