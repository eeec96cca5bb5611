import Mathlib.Data.List.Basic

/-!
# Lists that take new elements at the end

An element that is not in the list yet is put at its end, as long as the list
has fewer elements than it may have. Nothing is ever moved or removed.
-/
namespace GrowingList

variable {α : Type} [DecidableEq α] {cap : Nat} {xs ys : List α} {a : α}

def enter (cap : Nat) (xs : List α) (a : α) : List α :=
  if a ∈ xs then xs else if xs.length < cap then xs ++ [a] else xs

theorem enter_of_mem (h : a ∈ xs) : enter cap xs a = xs := if_pos h

theorem enter_of_not_mem (h : a ∉ xs) (hroom : xs.length < cap) :
    enter cap xs a = xs ++ [a] := by
  rw [enter, if_neg h, if_pos hroom]

theorem enter_of_full (hfull : cap ≤ xs.length) : enter cap xs a = xs := by
  rw [enter]
  split
  · rfl
  · rw [if_neg (by omega)]

theorem prefix_enter (cap : Nat) (xs : List α) (a : α) : xs <+: enter cap xs a := by
  rw [enter]
  repeat' split
  · exact List.prefix_rfl
  · exact List.prefix_append _ _
  · exact List.prefix_rfl

/-- The element is in the list then, unless the list is full. -/
theorem mem_enter (cap : Nat) (xs : List α) (a : α) :
    a ∈ enter cap xs a ∨ cap ≤ (enter cap xs a).length := by
  by_cases hmem : a ∈ xs
  · rw [enter_of_mem hmem]
    exact .inl hmem
  · by_cases hroom : xs.length < cap
    · rw [enter_of_not_mem hmem hroom]
      exact .inl (by simp)
    · rw [enter_of_full (by omega)]
      exact .inr (by omega)

theorem length_enter (cap : Nat) (xs : List α) (a : α) :
    enter cap xs a = xs ∨ (enter cap xs a).length ≤ cap := by
  rw [enter]
  repeat' split
  · exact .inl rfl
  · exact .inr (by rw [List.length_append, List.length_singleton]; omega)
  · exact .inl rfl

theorem prefix_foldl_enter (cap : Nat) (as xs : List α) : xs <+: as.foldl (enter cap) xs := by
  induction as generalizing xs with
  | nil => exact List.prefix_rfl
  | cons a as ih => exact (prefix_enter cap xs a).trans (ih _)

omit [DecidableEq α] in
/-- What has been in the list, or was too much for it, stays so. -/
theorem mem_or_full_of_prefix (h : xs <+: ys) (hmem : a ∈ xs ∨ cap ≤ xs.length) :
    a ∈ ys ∨ cap ≤ ys.length :=
  hmem.imp (fun hmem => h.subset hmem) fun hfull => Nat.le_trans hfull h.length_le

theorem mem_foldl_enter (as xs : List α) (ha : a ∈ as) :
    a ∈ as.foldl (enter cap) xs ∨ cap ≤ (as.foldl (enter cap) xs).length := by
  induction as generalizing xs with
  | nil => cases ha
  | cons b as ih =>
    rcases List.mem_cons.mp ha with rfl | ha
    · exact mem_or_full_of_prefix (prefix_foldl_enter cap as _) (mem_enter cap xs a)
    · exact ih _ ha

theorem length_foldl_enter (as xs : List α) :
    as.foldl (enter cap) xs = xs ∨ (as.foldl (enter cap) xs).length ≤ cap := by
  induction as generalizing xs with
  | nil => exact .inl rfl
  | cons a as ih =>
    rw [List.foldl_cons]
    rcases ih (enter cap xs a) with hsame | hle
    · rw [hsame]
      exact length_enter cap xs a
    · exact .inr hle

/-- Elements that are entered are different from what the list has. -/
theorem pairwise_foldl_enter {R : α → α → Prop} (hne : ∀ a b, a ≠ b → R a b) (as : List α)
    (h : xs.Pairwise R) : (as.foldl (enter cap) xs).Pairwise R := by
  induction as generalizing xs with
  | nil => exact h
  | cons a as ih =>
    refine ih ?_
    rw [enter]
    repeat' split
    · exact h
    case isTrue hmem _ =>
      refine List.pairwise_append.mpr ⟨h, List.pairwise_singleton _ _, fun b hb c hc => ?_⟩
      rw [List.mem_singleton.mp hc]
      exact hne b a fun hba => hmem (hba ▸ hb)
    · exact h

end GrowingList
