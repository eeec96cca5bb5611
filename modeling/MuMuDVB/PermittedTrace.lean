import Mathlib.Data.List.Basic

/-!
# Traces in which every entry is permitted

A trace, with its newest entry first, is judged entry by entry: each one must
be permitted by those before it.
-/
namespace PermittedTrace

variable {ε : Type} {permitted : ε → List ε → Prop} {e : ε} {before after trace : List ε}

/-- Every entry was permitted when it came. -/
def Lawful (permitted : ε → List ε → Prop) : List ε → Prop
  | [] => True
  | e :: before => permitted e before ∧ Lawful permitted before

theorem Lawful.of_append (h : Lawful permitted (after ++ before)) : Lawful permitted before := by
  induction after with
  | nil => exact h
  | cons e after ih => exact ih h.2

theorem Lawful.at_entry (h : Lawful permitted (after ++ e :: before)) : permitted e before :=
  h.of_append.1

end PermittedTrace
