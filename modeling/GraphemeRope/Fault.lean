/-! # Faults

Some operations have no result outside their domain. Where the program relies on being inside it,
the operation is guarded and stops with a fault. -/

namespace GraphemeRope

/-- An internal inconsistency, after which a computation cannot go on. -/
inductive Fault where
  /-- A number is to be taken from a smaller one. -/
  | underflow
  /-- A sum is too great for the bits of an index. -/
  | sumOverflow
  /-- A product is too great for the bits of an index. -/
  | productOverflow
  /-- A slot, an element or a range is asked for that is not there. -/
  | outOfBounds
  /-- A text is to be cut inside a character. -/
  | splitCharacter
  /-- A case has come up that was held to be impossible. -/
  | unreachable
  deriving DecidableEq, Repr

/-- The sentence that reports a fault. -/
def Fault.message : Fault → String
  | .underflow => "attempt to subtract with overflow"
  | .sumOverflow => "attempt to add with overflow"
  | .productOverflow => "attempt to multiply with overflow"
  | .outOfBounds => "index out of bounds"
  | .splitCharacter => "byte index is not a char boundary"
  | .unreachable => "internal error: entered unreachable code"

namespace Guarded

/-- The difference of two numbers, the second of which must not be greater. -/
def sub (number less : Nat) : Except Fault Nat :=
  if less ≤ number then .ok (number - less) else .error .underflow

/-- The entry of a row in a slot, which must be there. -/
def get {β : Type} (row : List β) (slot : Nat) : Except Fault β :=
  match row[slot]? with
  | some entry => .ok entry
  | none => .error .outOfBounds

@[simp]
theorem ok_bind {φ β γ : Type} (value : β) (next : β → Except φ γ) :
    (Except.ok value >>= next) = next value := rfl

/-- A computation of two steps has a result only if both have. -/
theorem exists_of_bind {β γ : Type} {first : Except Fault β} {next : β → Except Fault γ}
    {result : γ} (reached : (first >>= next) = .ok result) :
    ∃ inner, first = .ok inner ∧ next inner = .ok result := by
  cases first with
  | error fault => cases reached
  | ok inner => exact ⟨inner, rfl, reached⟩

/-- A difference that is reached was granted. -/
theorem le_of_sub {number less difference : Nat} (taken : sub number less = .ok difference) :
    less ≤ number ∧ difference = number - less := by
  unfold sub at taken
  split at taken
  · next within =>
      cases taken
      exact ⟨within, rfl⟩
  · cases taken

theorem sub_of_le {number less : Nat} (within : less ≤ number) :
    sub number less = .ok (number - less) := if_pos within

theorem get_of_lt {β : Type} {row : List β} {slot : Nat} (within : slot < row.length) :
    get row slot = .ok row[slot] := by
  rw [get, List.getElem?_eq_getElem within]

end Guarded
end GraphemeRope
