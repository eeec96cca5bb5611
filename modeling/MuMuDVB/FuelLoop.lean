import MuMuDVB.CheckedMemory
import Mathlib.Logic.Relation

/-!
# Loops and whether they end

A `while` loop is its body, which either goes round again with a new state or
is done; `run` gives it a number of turns. The loop ends when some number of
turns is enough. Where a turn that changes the state brings a measure down, the
only way not to end is to come to a state that a turn leaves as it is.
-/
namespace FuelLoop

open CheckedMemory

/-- How one turn of a loop ends. -/
inductive Turn (σ α : Type) where
  | again (s : σ)
  | done (a : α)

variable {σ α : Type} (body : σ → Checked (Turn σ α))

def run : Nat → σ → Checked α
  | 0, _ => .error .endless
  | fuel + 1, s => do
    match ← body s with
    | .again s => run fuel s
    | .done a => return a

/-- Some number of turns is enough: the loop returns, or a turn faults. -/
def Ends (s : σ) : Prop := ∃ fuel, run body fuel s ≠ .error .endless

/-- State `t` is met by the loop that starts in `s`. -/
def Meets : σ → σ → Prop := Relation.ReflTransGen fun s t => body s = .ok (.again t)

/-- The loop comes to a state that a turn leaves as it is. -/
def StandsStill (s : σ) : Prop := ∃ t, Meets body s t ∧ body t = .ok (.again t)

variable {body} {s t : σ}

theorem run_again (h : body s = .ok (.again t)) (fuel : Nat) :
    run body (fuel + 1) s = run body fuel t := by
  rw [run, h, bind_ok]

theorem run_meets (h : Meets body s t) : ∃ n, ∀ fuel, run body (n + fuel) s = run body fuel t := by
  induction h with
  | refl => exact ⟨0, fun fuel => by rw [Nat.zero_add]⟩
  | tail _ hturn ih =>
    obtain ⟨n, hn⟩ := ih
    refine ⟨n + 1, fun fuel => ?_⟩
    rw [Nat.add_assoc, Nat.add_comm 1, hn, run_again hturn]

/-- More turns do not change the result of a loop that has ended. -/
theorem run_mono {fuel : Nat} (h : run body fuel s ≠ .error .endless) (more : Nat) :
    run body (fuel + more) s = run body fuel s := by
  induction fuel generalizing s with
  | zero => exact absurd rfl h
  | succ fuel ih =>
    rw [Nat.add_right_comm]
    cases hbody : body s with
    | error e =>
      simp only [run, hbody, bind_error]
    | ok turn =>
      cases turn with
      | done a => simp only [run, hbody, bind_ok]
      | again t =>
        rw [run_again hbody] at h
        rw [run_again hbody, run_again hbody, ih h]

/-- A loop has one result. -/
theorem run_unique {a b : α} {fuel fuel' : Nat} (h : run body fuel s = .ok a)
    (h' : run body fuel' s = .ok b) : a = b := by
  have hne : run body fuel s ≠ .error .endless := by
    rw [h]
    exact fun heq => by (cases heq)
  have hne' : run body fuel' s ≠ .error .endless := by
    rw [h']
    exact fun heq => by (cases heq)
  have hmore := run_mono hne fuel'
  rw [Nat.add_comm, run_mono hne' fuel, h, h', Except.ok.injEq] at hmore
  exact hmore.symm

/-- What each turn keeps holds of the result, if it does of what a last turn returns. -/
theorem run_invariant {P : σ → Prop} {Q : α → Prop}
    (hagain : ∀ t u, P t → body t = .ok (.again u) → P u)
    (hdone : ∀ t a, P t → body t = .ok (.done a) → Q a) {fuel : Nat} {a : α} (hs : P s)
    (h : run body fuel s = .ok a) : Q a := by
  induction fuel generalizing s with
  | zero => cases h
  | succ fuel ih =>
    obtain ⟨turn, hbody, hrest⟩ := bind_eq_ok.mp h
    cases turn with
    | again u => exact ih (hagain s u hs hbody) hrest
    | done b =>
      cases hrest
      exact hdone s _ hs hbody

/-- A state that a turn leaves as it is takes every turn it is given. -/
theorem run_still (h : body s = .ok (.again s)) (fuel : Nat) :
    run body fuel s = .error .endless := by
  induction fuel with
  | zero => rfl
  | succ fuel ih => rw [run_again h, ih]

theorem StandsStill.not_ends (h : StandsStill body s) : ¬ Ends body s := by
  obtain ⟨t, hmeets, hstill⟩ := h
  obtain ⟨n, hn⟩ := run_meets hmeets
  rintro ⟨fuel, hfuel⟩
  refine hfuel ?_
  rw [← run_mono hfuel n, Nat.add_comm, hn, run_still hstill]

/-- As many turns as the measure of the state are enough. -/
theorem run_of_measure {m : σ → Nat} (hfault : ∀ t, body t ≠ .error .endless)
    (hturn : ∀ t, Meets body s t → ∀ u, body t = .ok (.again u) → m u < m t) {fuel : Nat}
    (hfuel : m s < fuel) : run body fuel s ≠ .error .endless := by
  induction fuel generalizing s with
  | zero => omega
  | succ fuel ih =>
    cases hbody : body s with
    | error e =>
      simp only [run, hbody, bind_error]
      rintro ⟨⟩
      exact hfault s hbody
    | ok turn =>
      cases turn with
      | done a =>
        simp only [run, hbody, bind_ok]
        intro h
        cases h
      | again t =>
        rw [run_again hbody]
        have hlt := hturn s .refl t hbody
        exact ih (fun u hu => hturn u (.head hbody hu)) (by omega)

/-- Where a turn either leaves the state as it is or brings the measure down, a loop that does
not come to stand still ends within its measure. -/
theorem run_of_moves {m : σ → Nat} (hfault : ∀ t, body t ≠ .error .endless)
    (hturn : ∀ t u, body t = .ok (.again u) → u = t ∨ m u < m t) (hmoves : ¬ StandsStill body s)
    {fuel : Nat} (hfuel : m s < fuel) : run body fuel s ≠ .error .endless := by
  refine run_of_measure hfault (fun t hmeets u hbody => ?_) hfuel
  rcases hturn t u hbody with rfl | hlt
  · exact absurd ⟨_, hmeets, hbody⟩ hmoves
  · exact hlt

theorem StandsStill.run (h : StandsStill body s) (fuel : Nat) :
    run body fuel s = .error .endless := by
  by_contra hne
  exact h.not_ends ⟨fuel, hne⟩

theorem ends_iff {m : σ → Nat} (hfault : ∀ t, body t ≠ .error .endless)
    (hturn : ∀ t u, body t = .ok (.again u) → u = t ∨ m u < m t) :
    Ends body s ↔ ¬ StandsStill body s := by
  constructor
  · intro hends hstill
    exact hstill.not_ends hends
  · intro hmoves
    exact ⟨m s + 1, run_of_moves hfault hturn hmoves (Nat.lt_succ_self _)⟩

/-- With enough turns for each of its loops, a computation returns `a`. -/
def Settles (f : Nat → Checked α) (a : α) : Prop := ∃ n, ∀ m, n ≤ m → f m = .ok a

theorem settles_const (a : α) : Settles (fun _ => .ok a) a := ⟨0, fun _ _ => rfl⟩

theorem settles_of_mono {f : Nat → Checked α} {a : α} {n : Nat}
    (hmono : ∀ more, f (n + more) = .ok a) : Settles f a := by
  refine ⟨n, fun m hm => ?_⟩
  obtain ⟨more, rfl⟩ := Nat.le.dest hm
  exact hmono more

/-- One computation after the other: the larger of the two numbers of turns is enough. -/
theorem Settles.bind {β : Type} {f : Nat → Checked α} {g : Nat → α → Checked β} {a : α} {b : β}
    (hf : Settles f a) (hg : Settles (fun n => g n a) b) : Settles (fun n => f n >>= g n) b := by
  obtain ⟨n, hn⟩ := hf
  obtain ⟨n', hn'⟩ := hg
  refine ⟨max n n', fun m hm => ?_⟩
  change f m >>= g m = .ok b
  rw [hn m (by omega)]
  exact hn' m (by omega)

end FuelLoop
