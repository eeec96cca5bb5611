import Mathlib.Data.List.Induction

/-!
# Switches with two thresholds

A switch goes on at readings that are high, off at readings that are low, and
otherwise stays as it is. What it is after a sequence of readings is told by
the last reading that decided, provided that no reading is both high and low.
A choice among several values works in the same way.
-/
namespace TwoThresholds

variable {α β : Type} (high low : α → Prop)

/-- One reading: off to on when it is high, on to off when it is low. -/
def next [DecidablePred high] [DecidablePred low] (on : Bool) (x : α) : Bool :=
  if high x ∧ on = false then true else if on = true ∧ low x then false else on

/-- The last reading that was high was followed by none that was low; or the switch was on at the
start, and none was low at all. -/
def LastHigh (on : Bool) (readings : List α) : Prop :=
  (∃ before x after, readings = before ++ x :: after ∧ high x ∧ ∀ y ∈ after, ¬ low y) ∨
    (on = true ∧ ∀ y ∈ readings, ¬ low y)

variable {high low} {on : Bool} {x : α} {readings : List α}

theorem lastHigh_snoc : LastHigh high low on (readings ++ [x]) ↔
    high x ∨ (LastHigh high low on readings ∧ ¬ low x) := by
  constructor
  · rintro (⟨before, y, after, hsplit, hy, hafter⟩ | ⟨hon, hall⟩)
    · rcases List.eq_nil_or_concat after with rfl | ⟨after, z, rfl⟩
      · obtain ⟨-, hlast⟩ := List.append_inj' hsplit rfl
        cases hlast
        exact .inl hy
      · rw [List.concat_eq_append, ← List.cons_append, ← List.append_assoc] at hsplit
        obtain ⟨hfront, hlast⟩ := List.append_inj' hsplit rfl
        cases hlast
        rw [List.concat_eq_append] at hafter
        exact .inr ⟨.inl ⟨before, y, after, hfront, hy, fun w hw =>
          hafter w (List.mem_append_left _ hw)⟩, hafter x (by simp)⟩
    · exact .inr ⟨.inr ⟨hon, fun y hy => hall y (List.mem_append_left _ hy)⟩, hall x (by simp)⟩
  · rintro (hx | ⟨⟨before, y, after, rfl, hy, hafter⟩ | ⟨hon, hall⟩, hx⟩)
    · exact .inl ⟨readings, x, [], rfl, hx, by simp⟩
    · exact .inl ⟨before, y, after ++ [x], by simp, hy, by
        simpa [or_imp, forall_and] using ⟨hafter, hx⟩⟩
    · exact .inr ⟨hon, by simpa [or_imp, forall_and] using ⟨hall, hx⟩⟩

variable [DecidablePred high] [DecidablePred low]

theorem next_of_high (hx : high x) (hlow : ¬ low x) : next high low on x = true := by
  cases on <;> simp [next, hx, hlow]

theorem next_of_low (hx : low x) (hhigh : ¬ high x) : next high low on x = false := by
  cases on <;> simp [next, hx, hhigh]

theorem next_of_neither (hhigh : ¬ high x) (hlow : ¬ low x) : next high low on x = on := by
  cases on <;> simp [next, hlow, hhigh]

/-- Where no reading is both high and low, the switch shows the last that was one of them. -/
theorem foldl_next_iff (hdisjoint : ∀ x, high x → ¬ low x) (on : Bool) (readings : List α) :
    readings.foldl (next high low) on = true ↔ LastHigh high low on readings := by
  induction readings using List.reverseRecOn with
  | nil => simp [LastHigh]
  | append_singleton readings x ih =>
    rw [List.foldl_append, List.foldl_cons, List.foldl_nil, lastHigh_snoc, ← ih]
    by_cases hhigh : high x
    · simp [next_of_high hhigh (hdisjoint x hhigh), hhigh]
    · by_cases hlow : low x
      · simp [next_of_low hlow hhigh, hlow, hhigh]
      · simp [next_of_neither hhigh hlow, hlow, hhigh]

/-- A reading that is both turns a switch that is on off. -/
theorem foldl_next_exact :
    (∀ on readings, (readings.foldl (next high low) on = true ↔ LastHigh high low on readings)) ↔
      ∀ x, high x → ¬ low x := by
  refine ⟨fun h x hhigh hlow => ?_, foldl_next_iff⟩
  have hon := (h true [x]).mpr (.inl ⟨[], x, [], rfl, hhigh, by simp⟩)
  simp [next, hlow] at hon

/-- A choice that every decisive reading makes anew is that of the last of them. -/
theorem foldl_choice (choice : α → Option β) (start : β) (readings : List α) :
    readings.foldl (fun state x => (choice x).getD state) start =
      (readings.reverse.findSome? choice).getD start := by
  induction readings using List.reverseRecOn with
  | nil => rfl
  | append_singleton readings x ih =>
    rw [List.foldl_append, List.foldl_cons, List.foldl_nil, ih, List.reverse_append,
      List.reverse_singleton, List.singleton_append, List.findSome?_cons]
    cases choice x <;> rfl

end TwoThresholds
