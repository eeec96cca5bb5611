import Mathlib.Data.List.Basic

/-!
# Scripts of requests to a device

A driver makes requests one after the other. Each has a test on its answer, and
the first answer that fails its test ends the script. The device carries out a
request unless the answer is −1.
-/
namespace RequestScripts

variable {ρ σ : Type}

/-- The requests so far with their answers, and all the answers that will come. -/
structure Line (ρ : Type) where
  calls : List (ρ × Int)
  answers : Nat → Int

def Line.request (line : Line ρ) (r : ρ) : Int × Line ρ :=
  let answer := line.answers line.calls.length
  (answer, { line with calls := line.calls ++ [(r, answer)] })

/-- A request, the test for its failure and what is returned then. -/
structure Step (ρ : Type) where
  request : ρ
  fails : Int → Bool
  code : Int → Int

/-- The steps up to the first that fails; 0 when none does. -/
def perform : List (Step ρ) → Line ρ → Int × Line ρ
  | [], line => (0, line)
  | step :: script, line =>
    let answered := line.request step.request
    if step.fails answered.1 then (step.code answered.1, answered.2)
    else perform script answered.2

/-- The state of the device after the calls. -/
def after (respond : σ → ρ → σ) (s : σ) (calls : List (ρ × Int)) : σ :=
  calls.foldl (fun s call => if call.2 ≠ -1 then respond s call.1 else s) s

/-- A failure is not returned as 0, and only what is carried out passes. -/
def Step.Sound (step : Step ρ) : Prop :=
  ∀ answer, if step.fails answer then step.code answer ≠ 0 else answer ≠ -1

/-- Where the device is as `P` says, the driver leaves it as `Q` says when it returns 0, and
as `E` says when it returns something else. -/
def Leaves (respond : σ → ρ → σ) (P : σ → Prop) (driver : Line ρ → Int × Line ρ)
    (Q E : σ → Prop) : Prop :=
  ∀ s line, P (after respond s line.calls) →
    ((driver line).1 = 0 → Q (after respond s (driver line).2.calls)) ∧
    ((driver line).1 ≠ 0 → E (after respond s (driver line).2.calls))

variable {respond : σ → ρ → σ} {P P' Q Q' R E E' F : σ → Prop} {s : σ} {line : Line ρ}
  {driver next : Line ρ → Int × Line ρ} {step : Step ρ} {script : List (Step ρ)}

theorem after_request (r : ρ) : after respond s (line.request r).2.calls =
    if (line.request r).1 ≠ -1 then respond (after respond s line.calls) r
    else after respond s line.calls := by
  rw [after, Line.request, List.foldl_append]
  rfl

/-- A script keeps what each of its requests keeps, and after its success all of them
have been carried out. -/
theorem perform_after (hsound : ∀ step ∈ script, step.Sound)
    (hkeep : ∀ step ∈ script, ∀ s, E s → E (respond s step.request))
    (h : E (after respond s line.calls)) :
    ((perform script line).1 = 0 → after respond s (perform script line).2.calls =
      (script.map Step.request).foldl respond (after respond s line.calls)) ∧
    E (after respond s (perform script line).2.calls) := by
  induction script generalizing line with
  | nil => exact ⟨fun _ => rfl, h⟩
  | cons step script ih =>
    have hstep := hsound step List.mem_cons_self (line.request step.request).1
    have hresponds := hkeep step List.mem_cons_self _ h
    have hafter := @after_request ρ σ respond s line step.request
    rw [perform]
    by_cases hfails : step.fails (line.request step.request).1 = true
    · rw [if_pos hfails] at hstep ⊢
      refine ⟨fun hzero => absurd hzero hstep, ?_⟩
      rw [hafter]
      split
      · exact hresponds
      · exact h
    · rw [if_neg hfails] at hstep ⊢
      rw [if_pos hstep] at hafter
      have hrest := @ih (line.request step.request).2
        (fun t ht => hsound t (List.mem_cons_of_mem _ ht))
        (fun t ht => hkeep t (List.mem_cons_of_mem _ ht)) (by rw [hafter]; exact hresponds)
      rw [hafter] at hrest
      exact hrest

theorem leaves_perform (hsound : ∀ step ∈ script, step.Sound)
    (hkeep : ∀ step ∈ script, ∀ s, E s → E (respond s step.request))
    (hpre : ∀ s, P s → E s)
    (hpost : ∀ s, P s → Q ((script.map Step.request).foldl respond s)) :
    Leaves respond P (perform script) Q E := by
  intro s line h
  obtain ⟨hzero, hkept⟩ := perform_after hsound hkeep (hpre _ h)
  exact ⟨fun h0 => hzero h0 ▸ hpost _ h, fun _ => hkept⟩

theorem Leaves.consequence (h : Leaves respond P driver Q E) (hpre : ∀ s, P' s → P s)
    (hpost : ∀ s, Q s → Q' s) (hfail : ∀ s, E s → E' s) : Leaves respond P' driver Q' E' :=
  fun s line hp => ⟨fun h0 => hpost _ ((h s line (hpre _ hp)).1 h0),
    fun hne => hfail _ ((h s line (hpre _ hp)).2 hne)⟩

/-- What is done again whatever the first time returned. -/
theorem Leaves.again (h : Leaves respond P driver Q E) (hnext : Leaves respond Q next R F)
    (hfailed : Leaves respond E next R F) :
    Leaves respond P (fun line => next (driver line).2) R F := by
  intro s line hp
  by_cases h0 : (driver line).1 = 0
  · exact hnext s _ ((h s line hp).1 h0)
  · exact hfailed s _ ((h s line hp).2 h0)

/-- What is done next only after a success. -/
theorem Leaves.andThen (h : Leaves respond P driver Q E) (hnext : Leaves respond Q next R E) :
    Leaves respond P
      (fun line => if (driver line).1 = 0 then next (driver line).2 else (-1, (driver line).2))
      R E := by
  intro s line hp
  dsimp only
  by_cases h0 : (driver line).1 = 0
  · rw [if_pos h0]
    exact hnext s _ ((h s line hp).1 h0)
  · rw [if_neg h0]
    exact ⟨fun hzero => absurd (show (-1 : Int) = 0 from hzero) (by decide),
      fun _ => (h s line hp).2 h0⟩

end RequestScripts
