import Mathlib.Data.List.Basic
import Mathlib.Data.List.TakeDrop

/-!
# Arrays that are shifted at each entry

An array of fixed length whose first place takes the newest element, while all
the others move on by one and the last one drops out. Places not used so far
hold a blank.
-/
namespace ShiftedArray

variable {α : Type} {xs : List α} {n : Nat} {a blank : α}

/-- The last `n` of the elements, the newest one first. -/
def recent (n : Nat) (xs : List α) (blank : α) : List α :=
  xs.reverse.take n ++ List.replicate (n - xs.length) blank

/-- The last `n` of the elements, or all if there are fewer, the oldest one first. -/
def kept (n : Nat) (xs : List α) : List α := xs.drop (xs.length - n)

@[simp] theorem length_recent : (recent n xs blank).length = n := by
  simp [recent]
  omega

theorem recent_nil (n : Nat) (blank : α) : recent n [] blank = List.replicate n blank := by
  simp [recent]

/-- The next element comes first. -/
theorem recent_append : recent (n + 1) (xs ++ [a]) blank = a :: recent n xs blank := by
  simp [recent]

/-- One more place. -/
theorem recent_succ :
    recent (n + 1) xs blank = recent n xs blank ++ [xs.reverse.getD n blank] := by
  rw [recent, recent, List.take_add_one, List.getD_eq_getElem?_getD]
  by_cases h : n < xs.length
  · rw [Nat.sub_eq_zero_of_le h, Nat.sub_eq_zero_of_le (Nat.le_of_lt h),
      List.getElem?_eq_getElem (by rwa [List.length_reverse])]
    simp
  · rw [List.getElem?_eq_none (by rw [List.length_reverse]; omega),
      show n + 1 - xs.length = (n - xs.length) + 1 by omega, List.replicate_succ']
    simp

theorem reverse_recent : (recent n xs blank).reverse =
    List.replicate (n - xs.length) blank ++ kept n xs := by
  rw [recent, List.reverse_append, List.reverse_replicate, List.take_reverse, List.reverse_reverse,
    kept]

theorem kept_append : kept (n + 1) (xs ++ [a]) = kept n xs ++ [a] := by
  have hlen : (xs ++ [a]).length - (n + 1) = xs.length - n := by
    rw [List.length_append, List.length_singleton]
    omega
  rw [kept, hlen, List.drop_append_of_le_length (Nat.sub_le _ _), kept]

/-- With one more place, one older element is kept, if there is one. -/
theorem kept_succ (h : n < xs.length) :
    kept (n + 1) xs = xs.reverse.getD n blank :: kept n xs := by
  have hlt : xs.length - (n + 1) < xs.length := by omega
  rw [kept, List.drop_eq_getElem_cons hlt, kept, List.getD_eq_getElem?_getD,
    List.getElem?_eq_getElem (by rwa [List.length_reverse]), Option.getD_some,
    List.getElem_reverse]
  congr 2 <;> omega

theorem kept_of_length_le (h : xs.length ≤ n) : kept n xs = xs := by
  rw [kept, Nat.sub_eq_zero_of_le h, List.drop_zero]

theorem length_kept : (kept n xs).length = min n xs.length := by
  rw [kept, List.length_drop]
  omega

theorem mem_of_mem_kept (h : a ∈ kept n xs) : a ∈ xs := List.mem_of_mem_drop h

end ShiftedArray
