import MuMuDVB.CheckedMemory

/-!
# Lists at the front of an array

A list that grows in an array of fixed size, one element after the other. The
cells behind the list still hold what was in the array before.
-/
namespace FilledArray

open CheckedMemory

variable {α β : Type} {n : Nat}

/-- An array and how many of its cells are in use. -/
structure Filled (α : Type) (n : Nat) where
  entries : Buffer α n
  num : Nat
  atMost : num ≤ n

def Filled.list (t : Filled α n) : List α := t.entries.cells.take t.num

def Filled.push (t : Filled α n) (a : α) : Checked (Filled α n) :=
  if h : t.num < n then
    .ok ⟨⟨t.entries.cells.set t.num a, by rw [List.length_set, t.entries.size]⟩, t.num + 1, h⟩
  else .error .outOfBounds

/-- A push after which the last cell counts as free again. -/
def Filled.pushOver (t : Filled α n) (a : α) : Checked (Filled α n) := do
  let t ← t.push a
  return if n ≤ t.num then ⟨t.entries, t.num - 1, Nat.le_trans (Nat.sub_le _ _) t.atMost⟩ else t

/-- The list is `xs`; behind it the array is as before. -/
structure Holds (before : List α) (t : Filled α n) (xs : List α) : Prop where
  num : t.num = xs.length
  cells : t.entries.cells = xs ++ before.drop xs.length

/-- The cells after pushes that stop at the last one, which is written again and again. -/
def settled (n : Nat) (before xs : List α) : List α :=
  if xs.length < n then xs ++ before.drop xs.length else xs.take (n - 1) ++ xs.getLast?.toList

structure Settled (before : List α) (t : Filled α n) (xs : List α) : Prop where
  num : t.num = min (n - 1) xs.length
  cells : t.entries.cells = settled n before xs

/-- The pushes give the list `xs` if there is room for it, and a fault if not. -/
def Gives (before : List α) (x : Checked (Filled α n)) (xs : List α) : Prop :=
  if xs.length ≤ n then ∃ t, x = .ok t ∧ Holds before t xs else x = .error .outOfBounds

variable {before xs ys : List α} {t : Filled α n} {x : Checked (Filled α n)}

theorem Holds.list (h : Holds before t xs) : t.list = xs := by
  rw [Filled.list, h.cells, h.num, List.take_left]

theorem Holds.atMost (h : Holds before t xs) : xs.length ≤ n := h.num ▸ t.atMost

theorem push_ok (h : t.num < n) (a : α) : ∃ t', t.push a = .ok t' ∧ t'.num = t.num + 1 ∧
    t'.entries.cells = t.entries.cells.set t.num a := by
  rw [Filled.push, dif_pos h]
  exact ⟨_, rfl, rfl, rfl⟩

theorem pushOver_ok (h : t.num < n) (a : α) : ∃ t', t.pushOver a = .ok t' ∧
    t'.num = min (n - 1) (t.num + 1) ∧ t'.entries.cells = t.entries.cells.set t.num a := by
  obtain ⟨t₁, hpush, hnum, hcells⟩ := push_ok h a
  rw [Filled.pushOver, hpush, bind_ok]
  by_cases hlast : n ≤ t₁.num
  · rw [if_pos hlast]
    exact ⟨_, rfl, show t₁.num - 1 = _ by omega, hcells⟩
  · rw [if_neg hlast]
    exact ⟨t₁, rfl, by omega, hcells⟩

theorem length_list (t : Filled α n) : t.list.length = t.num := by
  rw [Filled.list, List.length_take, Buffer.length_cells, Nat.min_eq_left t.atMost]

theorem push_list (h : t.num < n) (a : α) :
    ∃ t', t.push a = .ok t' ∧ t'.list = t.list ++ [a] := by
  obtain ⟨t', hpush, hnum, hcells⟩ := push_ok h a
  refine ⟨t', hpush, ?_⟩
  have hlt : t.num < (t.entries.cells.set t.num a).length := by
    rw [List.length_set, Buffer.length_cells]
    exact h
  rw [Filled.list, hnum, hcells, List.take_succ_eq_append_getElem hlt, List.getElem_set_self,
    List.take_set_of_le (Nat.le_refl _), Filled.list]

/-- The cell behind the list, written. -/
theorem set_behind (a : α) (h : xs.length < (xs ++ before.drop xs.length).length) :
    (xs ++ before.drop xs.length).set xs.length a =
      xs ++ [a] ++ before.drop (xs ++ [a]).length := by
  have hdrop : before.drop xs.length ≠ [] := by
    intro hnil
    rw [hnil, List.append_nil] at h
    exact Nat.lt_irrefl _ h
  obtain ⟨b, rest, hrest⟩ := List.exists_cons_of_ne_nil hdrop
  rw [List.set_append_right _ _ (Nat.le_refl _), Nat.sub_self, List.length_append,
    List.length_singleton, List.append_assoc, ← List.drop_drop, hrest]
  rfl

theorem push_holds (h : Holds before t xs) (hroom : xs.length < n) (a : α) :
    ∃ t', t.push a = .ok t' ∧ Holds before t' (xs ++ [a]) := by
  obtain ⟨t', hpush, hnum, hcells⟩ := push_ok (h.num ▸ hroom) a
  refine ⟨t', hpush, by rw [hnum, h.num, List.length_append, List.length_singleton], ?_⟩
  rw [hcells, h.num, h.cells]
  exact set_behind a (by rw [← h.cells, Buffer.length_cells]; exact hroom)

theorem push_gives (h : Holds before t xs) (a : α) : Gives before (t.push a) (xs ++ [a]) := by
  rw [Gives, List.length_append, List.length_singleton]
  split
  case isTrue hroom => exact push_holds h hroom a
  case isFalse hfull => rw [Filled.push, dif_neg (h.num ▸ hfull)]

/-- Pushes one after the other. -/
theorem Gives.bind {f : Filled α n → Checked (Filled α n)} (hx : Gives before x xs)
    (hf : ∀ t, Holds before t xs → Gives before (f t) ys) (hgrows : xs.length ≤ ys.length) :
    Gives before (x >>= f) ys := by
  rw [Gives] at hx
  split at hx
  case isTrue hroom =>
    obtain ⟨t, rfl, ht⟩ := hx
    exact hf t ht
  case isFalse hfull =>
    rw [Gives, if_neg (by omega), hx]
    rfl

theorem Holds.gives (h : Holds before t xs) : Gives before (.ok t) xs := by
  rw [Gives, if_pos h.atMost]
  exact ⟨t, rfl, h⟩

/-- A loop that pushes for every input what its list says. -/
theorem foldlM_gives {f : Filled α n → β → Checked (Filled α n)} {g : List α → β → List α}
    (hf : ∀ t xs b, Holds before t xs → Gives before (f t b) (g xs b))
    (hgrows : ∀ xs b, xs.length ≤ (g xs b).length) (inputs : List β) (h : Holds before t xs) :
    Gives before (inputs.foldlM f t) (inputs.foldl g xs) := by
  have hlonger : ∀ (inputs : List β) (xs : List α), xs.length ≤ (inputs.foldl g xs).length := by
    intro inputs
    induction inputs with
    | nil => exact fun xs => Nat.le_refl _
    | cons b inputs ih => exact fun xs => Nat.le_trans (hgrows xs b) (ih _)
  induction inputs generalizing t xs with
  | nil => exact h.gives
  | cons b inputs ih =>
    rw [List.foldlM_cons, List.foldl_cons]
    exact (hf t xs b h).bind (fun t ht => ih ht) (hlonger inputs _)

/-- As long as a cell is free the two descriptions agree. -/
theorem Holds.settled (h : Holds before t xs) (hroom : xs.length < n) : Settled before t xs where
  num := by rw [h.num]; omega
  cells := by rw [h.cells, FilledArray.settled, if_pos hroom]

/-- A list that has filled the array to its end. -/
theorem Holds.cells_full (h : Holds before t xs) (hfull : xs.length = n) (hn : 0 < n) :
    t.entries.cells = FilledArray.settled n before xs := by
  have hsize := congrArg List.length h.cells
  rw [Buffer.length_cells, List.length_append, hfull] at hsize
  have hnone : before.drop n = [] := List.length_eq_zero_iff.mp (by omega)
  have hne : xs ≠ [] := by
    rintro rfl
    rw [List.length_nil] at hfull
    omega
  rw [h.cells, FilledArray.settled, if_neg (by omega), hfull, hnone, List.append_nil, ← hfull,
    ← List.dropLast_eq_take, List.getLast?_eq_some_getLast hne]
  exact (List.dropLast_concat_getLast hne).symm

theorem Settled.list (h : Settled before t xs) : t.list = xs.take (n - 1) := by
  rw [Filled.list, h.num, h.cells, settled]
  split
  · rw [List.take_append_of_le_length (by omega), Nat.min_eq_right (by omega), List.take_length,
      List.take_of_length_le (by omega)]
  · rw [Nat.min_eq_left (by omega), List.take_append_of_le_length (by rw [List.length_take]; omega),
      List.take_take, Nat.min_self]

theorem pushOver_settled (h : Settled before t xs) (hn : 0 < n) (a : α) :
    ∃ t', t.pushOver a = .ok t' ∧ Settled before t' (xs ++ [a]) := by
  have hlt : t.num < n := by
    have hnum := h.num
    omega
  obtain ⟨t', hpush, hnum, hcells⟩ := pushOver_ok hlt a
  have hlength : (xs ++ [a]).length = xs.length + 1 := by
    rw [List.length_append, List.length_singleton]
  have hsize := t.entries.length_cells
  refine ⟨t', hpush, by rw [hnum, h.num, hlength]; omega, ?_⟩
  rw [hcells, h.num]
  rw [h.cells] at hsize ⊢
  by_cases hroom : xs.length < n
  · rw [settled, if_pos hroom] at hsize ⊢
    rw [Nat.min_eq_right (by omega), set_behind a (by omega), settled]
    split
    case isTrue => rfl
    case isFalse hlast =>
      -- the last cell has just been taken
      have hnone : before.drop (xs ++ [a]).length = [] := by
        rw [List.length_append] at hsize
        rw [← List.length_eq_zero_iff, hlength, ← List.drop_drop, List.length_drop]
        omega
      rw [hnone, List.append_nil, List.getLast?_concat, show n - 1 = xs.length by omega,
        List.take_left]
      rfl
  · have hne : xs ≠ [] := by
      rintro rfl
      exact hroom hn
    have htake : (xs.take (n - 1)).length = n - 1 := by
      rw [List.length_take]
      omega
    rw [settled, if_neg hroom, settled, if_neg (by omega), Nat.min_eq_left (by omega),
      List.set_append_right _ _ (by omega), htake, Nat.sub_self, List.getLast?_concat,
      List.take_append_of_le_length (by omega), List.getLast?_eq_some_getLast hne]
    rfl

theorem foldlM_pushOver_settled (hn : 0 < n) (as : List α) (h : Settled before t xs) :
    ∃ t', as.foldlM Filled.pushOver t = .ok t' ∧ Settled before t' (xs ++ as) := by
  induction as generalizing t xs with
  | nil => exact ⟨t, rfl, by rw [List.append_nil]; exact h⟩
  | cons a as ih =>
    obtain ⟨t₁, hpush, ht₁⟩ := pushOver_settled h hn a
    obtain ⟨t', hrest, ht'⟩ := ih ht₁
    refine ⟨t', ?_, ?_⟩
    · rw [List.foldlM_cons, hpush]
      exact hrest
    · rw [List.append_assoc] at ht'
      exact ht'

end FilledArray
