import Mathlib.Logic.Function.Basic
import Mathlib.Data.UInt

/-!
# Rings of a power-of-two size

A ring is an array whose indices are masked. Its elements are numbered in the
order in which they are put: element `m` goes into cell `m % size`. The last
`size` of them are still where they were put.
-/
namespace RecentRing

variable {α : Type} {size n : Nat} {R R' : Nat → α → Prop} {cells : Nat → α}

/-- `++index; index &= (size - 1)`, on an index of 32 bits. -/
def advance (size index : Nat) : Nat := (index + 1) % 2 ^ 32 &&& (size - 1)

/-- The masked index counts the elements that went by. -/
theorem advance_mod {exponent : Nat} (hexponent : exponent ≤ 32) (count : Nat) :
    advance (2 ^ exponent) (count % 2 ^ exponent) = (count + 1) % 2 ^ exponent := by
  rw [advance, Nat.and_two_pow_sub_one_eq_mod, Nat.mod_mod_of_dvd _ (Nat.pow_dvd_pow 2 hexponent),
    Nat.mod_add_mod]

/-- A counter of 32 bits tells, modulo the size of the ring, how far two indices are apart. -/
theorem index_add_counter {exponent : Nat} (hexponent : exponent ≤ 32) {first last : Nat}
    (h : first ≤ last) :
    (first % 2 ^ exponent + (last - first) % 2 ^ 32) % 2 ^ exponent = last % 2 ^ exponent := by
  rw [Nat.mod_add_mod, Nat.add_mod, Nat.mod_mod_of_dvd _ (Nat.pow_dvd_pow 2 hexponent),
    ← Nat.add_mod, Nat.add_sub_cancel' h]

/-- A 32-bit counter of what lies between two numbers is zero only if nothing does, or very
much. -/
theorem lt_of_counter {first last : Nat} (h : first ≤ last) (hne : (last - first) % 2 ^ 32 ≠ 0) :
    first < last := by
  refine Nat.lt_of_le_of_ne h fun heq => hne ?_
  rw [heq, Nat.sub_self, Nat.zero_mod]

/-- `counter += n`, on 32 bits. -/
def increase (counter n : Nat) : Nat := (counter + n) % 2 ^ 32

/-- `--counter`, on 32 bits. -/
def decrement (counter : Nat) : Nat := if counter = 0 then 2 ^ 32 - 1 else counter - 1

theorem increase_sub {first last : Nat} (h : first ≤ last) (n : Nat) :
    increase ((last - first) % 2 ^ 32) n = (last + n - first) % 2 ^ 32 := by
  rw [increase, Nat.mod_add_mod, Nat.sub_add_comm h]

theorem decrement_sub {first last : Nat} (h : first < last) :
    decrement ((last - first) % 2 ^ 32) = (last - (first + 1)) % 2 ^ 32 := by
  rw [decrement]
  split <;> omega

/-- Elements less than a full ring apart have different cells. -/
theorem eq_of_mod_eq {m k : Nat} (hmod : m % size = k % size) (hmk : m < k + size)
    (hkm : k < m + size) : m = k := by
  rcases Nat.le_total m k with h | h
  · have hdvd : size ∣ k - m := (Nat.modEq_iff_dvd' h).mp hmod
    have := Nat.eq_zero_of_dvd_of_lt hdvd (by omega)
    omega
  · have hdvd : size ∣ m - k := (Nat.modEq_iff_dvd' h).mp hmod.symm
    have := Nat.eq_zero_of_dvd_of_lt hdvd (by omega)
    omega

/-- The elements that are still in the ring after the first `n` are where they were put. -/
def Recent (size n : Nat) (R : Nat → α → Prop) (cells : Nat → α) : Prop :=
  ∀ m, m < n → n ≤ m + size → R m (cells (m % size))

theorem recent_zero : Recent size 0 R cells := fun m hm => absurd hm (Nat.not_lt_zero m)

/-- The next element is put over the oldest one. -/
theorem Recent.push (h : Recent size n R cells) {a : α} (ha : R n a) :
    Recent size (n + 1) R (Function.update cells (n % size) a) := by
  intro m hm hrecent
  by_cases heq : m = n
  · subst heq
    rwa [Function.update_self]
  · have hne : m % size ≠ n % size := fun hmod => heq (eq_of_mod_eq hmod (by omega) (by omega))
    rw [Function.update_of_ne hne]
    exact h m (by omega) (by omega)

theorem Recent.imp (h : Recent size n R cells) (himp : ∀ m a, m < n → R m a → R' m a) :
    Recent size n R' cells :=
  fun m hm hrecent => himp m _ hm (h m hm hrecent)

/-- A change of the cells that keeps what is said of each of them. -/
theorem Recent.of_forall (h : Recent size n R cells) {cells' : Nat → α}
    (hcells : ∀ i m, R m (cells i) → R m (cells' i)) : Recent size n R cells' :=
  fun m hm hrecent => hcells _ m (h m hm hrecent)

/-- A loop that treats cells one after the other, each as its entry of a list says. -/
def updateAll {ι : Type} (index : ι → Nat) (f : ι → α → α) (cells : Nat → α) (entries : List ι) :
    Nat → α :=
  entries.foldl (fun cells e => Function.update cells (index e) (f e (cells (index e)))) cells

section updateAll

variable {ι : Type} {index : ι → Nat} {f : ι → α → α} {entries : List ι} {i : Nat}

theorem updateAll_of_notMem (h : i ∉ entries.map index) :
    updateAll index f cells entries i = cells i := by
  induction entries generalizing cells with
  | nil => rfl
  | cons e entries ih =>
    rw [List.map_cons, List.mem_cons, not_or] at h
    rw [updateAll, List.foldl_cons]
    exact (ih h.2).trans (Function.update_of_ne h.1 _ _)

/-- Each of the cells is treated once if they are all different. -/
theorem updateAll_of_mem (hnodup : (entries.map index).Nodup) {e : ι} (h : e ∈ entries) :
    updateAll index f cells entries (index e) = f e (cells (index e)) := by
  induction entries generalizing cells with
  | nil => cases h
  | cons first entries ih =>
    rw [List.map_cons, List.nodup_cons] at hnodup
    rw [updateAll, List.foldl_cons]
    rcases List.mem_cons.mp h with rfl | h
    · exact (updateAll_of_notMem hnodup.1).trans (Function.update_self _ _ _)
    · refine (ih hnodup.2 h).trans ?_
      have hne : index e ≠ index first := fun heq =>
        hnodup.1 (heq ▸ List.mem_map_of_mem h)
      rw [Function.update_of_ne hne]

/-- What the treatment of a cell keeps, the loop keeps. -/
theorem updateAll_keeps {Q : α → Prop} (hf : ∀ e a, Q a → Q (f e a)) (h : Q (cells i)) :
    Q (updateAll index f cells entries i) := by
  induction entries generalizing cells with
  | nil => exact h
  | cons e entries ih =>
    refine ih ?_
    change Q (Function.update cells (index e) (f e (cells (index e))) i)
    by_cases heq : i = index e
    · rw [heq, Function.update_self]
      exact hf e _ (heq ▸ h)
    · rwa [Function.update_of_ne heq]

end updateAll

end RecentRing
