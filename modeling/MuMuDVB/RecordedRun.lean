import Mathlib.Data.List.Basic

/-!
# Runs with a record

A run of a transition system keeps the list of its labels, the last one first.
An invariant may speak about both: what holds of the state and of the labels
that led to it.
-/
namespace RecordedRun

variable {σ ε : Type}

/-- A transition system: where it starts and what a labelled step does. -/
structure System (σ ε : Type) where
  Initial : σ → Prop
  Step : σ → ε → σ → Prop

/-- The runs of a system, with their labels. -/
inductive Run (sys : System σ ε) : List ε → σ → Prop where
  | start {s : σ} (initial : sys.Initial s) : Run sys [] s
  | next {past : List ε} {s s' : σ} {e : ε} (run : Run sys past s) (step : sys.Step s e s') :
      Run sys (e :: past) s'

variable {sys : System σ ε} {P : List ε → σ → Prop}

/-- What holds at the start and is kept by every step holds in every run. -/
theorem Run.invariant (hstart : ∀ s, sys.Initial s → P [] s)
    (hstep : ∀ past s e s', P past s → sys.Step s e s' → P (e :: past) s')
    {past : List ε} {s : σ} (hrun : Run sys past s) : P past s := by
  induction hrun with
  | start initial => exact hstart _ initial
  | next _ step ih => exact hstep _ _ _ _ ih step

/-- The runs whose steps all meet a condition, on the state before and on the label. -/
def System.restrict (sys : System σ ε) (cond : σ → ε → Prop) : System σ ε where
  Initial := sys.Initial
  Step s e s' := cond s e ∧ sys.Step s e s'

theorem Run.of_restrict {cond : σ → ε → Prop} {past : List ε} {s : σ}
    (hrun : Run (sys.restrict cond) past s) : Run sys past s := by
  induction hrun with
  | start initial => exact .start initial
  | next _ step ih => exact .next ih step.2

/-- Two systems whose steps are the same wherever both have come have the same runs. -/
theorem run_congr {sys sys' : System σ ε} (hinitial : sys.Initial = sys'.Initial)
    (hstep : ∀ past s e s', Run sys past s → Run sys' past s →
      (sys.Step s e s' ↔ sys'.Step s e s')) (past : List ε) (s : σ) :
    Run sys past s ↔ Run sys' past s := by
  constructor
  · intro hrun
    induction hrun with
    | start initial => exact .start (hinitial ▸ initial)
    | next run step ih => exact .next ih ((hstep _ _ _ _ run ih).mp step)
  · intro hrun
    induction hrun with
    | start initial => exact .start (hinitial ▸ initial)
    | next run step ih => exact .next ih ((hstep _ _ _ _ ih run).mpr step)

/-- Inputs that a function takes one after the other, each as a step of the system. -/
theorem Run.foldlM {ι ρ : Type} {exec : σ → ι → Except ρ σ} (label : ι → ε)
    (hexec : ∀ s i s', exec s i = .ok s' → sys.Step s (label i) s') {inputs : List ι}
    {past : List ε} {s s' : σ} (hrun : Run sys past s) (h : inputs.foldlM exec s = .ok s') :
    Run sys ((inputs.map label).reverse ++ past) s' := by
  induction inputs generalizing s past with
  | nil =>
    cases h
    exact hrun
  | cons input inputs ih =>
    rw [List.foldlM_cons] at h
    cases hfirst : exec s input with
    | error fault =>
      rw [hfirst] at h
      cases h
    | ok s₁ =>
      rw [hfirst] at h
      rw [List.map_cons, List.reverse_cons, List.append_assoc]
      exact ih (.next hrun (hexec _ _ _ hfirst)) h

/-- The runs along which `P` holds, with the labels so far, in every state reached. -/
inductive Along (sys : System σ ε) (P : List ε → σ → Prop) : List ε → σ → Prop where
  | start {s : σ} (initial : sys.Initial s) (holds : P [] s) : Along sys P [] s
  | next {past : List ε} {s s' : σ} {e : ε} (run : Along sys P past s) (step : sys.Step s e s')
      (holds : P (e :: past) s') : Along sys P (e :: past) s'

theorem Along.run {past : List ε} {s : σ} (h : Along sys P past s) : Run sys past s := by
  induction h with
  | start initial => exact .start initial
  | next _ step _ ih => exact .next ih step

theorem Along.holds {past : List ε} {s : σ} (h : Along sys P past s) : P past s := by
  cases h with
  | start _ holds => exact holds
  | next _ _ holds => exact holds

/-- Where a step keeps the property exactly when its condition is met, the runs whose steps meet
the condition are the runs along which the property holds. What such runs keep may be used. -/
theorem along_iff_restrict {cond : σ → ε → Prop} (hstart : ∀ s, sys.Initial s → P [] s)
    (hstep : ∀ past s e s', Run (sys.restrict cond) past s → P past s → sys.Step s e s' →
      (P (e :: past) s' ↔ cond s e)) (past : List ε) (s : σ) :
    Run (sys.restrict cond) past s ↔ Along sys P past s := by
  constructor
  · intro hrun
    induction hrun with
    | start initial => exact .start initial (hstart _ initial)
    | next run step ih => exact .next ih step.2 ((hstep _ _ _ _ run ih.holds step.2).mpr step.1)
  · intro hrun
    induction hrun with
    | start initial => exact .start initial
    | next run step holds ih =>
      exact .next ih ⟨(hstep _ _ _ _ ih run.holds step).mp holds, step⟩

theorem along_iff {cond : σ → ε → Prop} (hstart : ∀ s, sys.Initial s → P [] s)
    (hstep : ∀ past s e s', Run sys past s → P past s → sys.Step s e s' →
      (P (e :: past) s' ↔ cond s e)) (past : List ε) (s : σ) :
    Run (sys.restrict cond) past s ↔ Along sys P past s :=
  along_iff_restrict hstart (fun past s e s' hrun => hstep past s e s' hrun.of_restrict) past s

/-- A step that replaces component `j` of a list: what holds of the new component, and of every
other one as before, holds of all. -/
theorem forall_set {α : Type} {Q : Nat → α → Prop} {xs : List α} {j : Nat} {old new : α}
    (hold : xs[j]? = some old) (hnew : Q j new)
    (hothers : ∀ i a, j ≠ i → xs[i]? = some a → Q i a) :
    ∀ i a, (xs.set j new)[i]? = some a → Q i a := by
  intro i a hfound
  by_cases hij : j = i
  · subst hij
    rw [List.getElem?_set_self (List.getElem?_eq_some_iff.mp hold).1] at hfound
    cases hfound
    exact hnew
  · rw [List.getElem?_set_ne hij] at hfound
    exact hothers i a hij hfound

/-- A component that such a step changes is the replaced one. -/
theorem changed_set {α : Type} {xs : List α} {j i : Nat} {old new a b : α}
    (hold : xs[j]? = some old) (hbefore : xs[i]? = some a) (hafter : (xs.set j new)[i]? = some b)
    (hne : b ≠ a) : j = i ∧ old = a ∧ new = b := by
  by_cases hij : j = i
  · subst hij
    rw [List.getElem?_set_self (List.getElem?_eq_some_iff.mp hold).1] at hafter
    exact ⟨rfl, Option.some.inj (hold.symm.trans hbefore), Option.some.inj hafter⟩
  · rw [List.getElem?_set_ne hij] at hafter
    exact absurd (Option.some.inj (hafter.symm.trans hbefore)) hne

end RecordedRun
