import Mathlib.Data.List.Chain
import Mathlib.Data.Nat.ModEq

/-!
# Numbers from a cyclic counter

A counter modulo `n` is advanced by some events of a run and read by others,
which send its value. The values that are sent one after the other follow each
other exactly when, modulo `n`, one advance lies between every two of them.
Runs are lists with the last event first.
-/
namespace CounterTrace

inductive Mark where
  | tick | send
  deriving DecidableEq

variable (n c : Nat)

/-- The value of the counter after a run that starts with `c`. -/
def count : List Mark → Nat
  | [] => c
  | .tick :: past => (count past + 1) % n
  | .send :: past => count past

/-- The values sent, the last one first. -/
def emitted : List Mark → List Nat
  | [] => []
  | .tick :: past => emitted past
  | .send :: past => count n c past :: emitted past

/-- Each value is the one after the value sent before it. -/
def Increasing (values : List Nat) : Prop :=
  values.IsChain fun later earlier => later = (earlier + 1) % n

/-- The advances since the last send. -/
def sinceSend : List Mark → Option Nat
  | [] => none
  | .tick :: past => (sinceSend past).map (· + 1)
  | .send :: _ => some 0

/-- The numbers of advances between two sends. -/
def gaps : List Mark → List Nat
  | [] => []
  | .tick :: past => gaps past
  | .send :: past => (sinceSend past).toList ++ gaps past

variable {n c}

theorem count_lt (hc : c < n) (past : List Mark) : count n c past < n := by
  induction past with
  | nil => exact hc
  | cons m past ih =>
    cases m with
    | tick => exact Nat.mod_lt _ (by omega)
    | send => exact ih

@[simp] theorem count_send (p : Prop) [Decidable p] (past : List Mark) :
    count n c ((if p then [.send] else []) ++ past) = count n c past := by
  split <;> rfl

/-- An event that sends the value only under a condition. -/
theorem emitted_send (p : Prop) [Decidable p] (past : List Mark) :
    emitted n c ((if p then [.send] else []) ++ past) =
      (if p then [count n c past] else []) ++ emitted n c past := by
  split <;> rfl

/-- The counter has advanced from the last value sent. -/
theorem sinceSend_spec (hc : c < n) (past : List Mark) :
    (sinceSend past = none ∧ emitted n c past = []) ∨
      ∃ k e, sinceSend past = some k ∧ (emitted n c past).head? = some e ∧ e < n ∧
        count n c past = (e + k) % n := by
  induction past with
  | nil => exact Or.inl ⟨rfl, rfl⟩
  | cons m past ih =>
    cases m with
    | tick =>
      rcases ih with ⟨hnone, hnil⟩ | ⟨k, e, hsince, hhead, he, hcount⟩
      · exact Or.inl ⟨by rw [sinceSend, hnone]; rfl, hnil⟩
      · refine Or.inr ⟨k + 1, e, by rw [sinceSend, hsince]; rfl, hhead, he, ?_⟩
        rw [count, hcount, Nat.mod_add_mod, Nat.add_assoc]
    | send =>
      have hlt := count_lt hc past
      exact Or.inr ⟨0, count n c past, rfl, rfl, hlt, (Nat.mod_eq_of_lt hlt).symm⟩

/-- The values that are sent follow each other exactly when one advance, modulo `n`, lies between
every two of them. -/
theorem increasing_iff (hc : c < n) (past : List Mark) :
    Increasing n (emitted n c past) ↔ ∀ g ∈ gaps past, g % n = 1 % n := by
  induction past with
  | nil => simp [emitted, gaps, Increasing]
  | cons m past ih =>
    cases m with
    | tick => exact ih
    | send =>
      rw [emitted, gaps]
      rcases sinceSend_spec hc past with ⟨hnone, hnil⟩ | ⟨k, e, hsince, hhead, he, hcount⟩
      · rw [hnil] at ih
        rw [hnone, hnil, Option.toList_none, List.nil_append, ← ih]
        simp [Increasing]
      · obtain ⟨earlier, hcons⟩ : ∃ earlier, emitted n c past = e :: earlier := by
          cases hlist : emitted n c past with
          | nil =>
            rw [hlist] at hhead
            cases hhead
          | cons e' earlier =>
            rw [hlist, List.head?_cons, Option.some.injEq] at hhead
            exact ⟨earlier, by rw [hhead]⟩
        have hnext : count n c past = (e + 1) % n ↔ k % n = 1 % n := by
          rw [hcount]
          exact ⟨fun h => Nat.ModEq.add_left_cancel' e h, fun h => Nat.ModEq.add_left e h⟩
        rw [hcons] at ih
        rw [hsince, hcons, Increasing, List.isChain_cons_cons, hnext, Option.toList_some,
          List.singleton_append, List.forall_mem_cons, ← ih]
        rfl

end CounterTrace
