import Mathlib.Data.List.Basic

/-!
# Loops over components with a shared state

A loop takes the components of a list in turn; each step reads and writes a
state that all of them share, and returns an output for its component. A
component is independent of the others when its output does not change with
the components around it, nor with the start of the shared state within a
given set.
-/
namespace SharedLoop

variable {σ α ω ε : Type} (step : σ → α → Except ε (ω × σ × α))

/-- The loop, with the output for each component. -/
def loop : σ → List α → Except ε (List ω × σ × List α)
  | s, [] => .ok ([], s, [])
  | s, a :: as => do
    let (out, s, a) ← step s a
    let (outs, s, as) ← loop s as
    return (out :: outs, s, a :: as)

/-- The shared states that a component can find when the loop started in `init`. -/
inductive Meets (init : σ → Prop) : σ → Prop where
  | start {s : σ} (h : init s) : Meets init s
  | next {s s' : σ} {a a' : α} {out : ω} (met : Meets init s)
      (call : step s a = .ok (out, s', a')) : Meets init s'

/-- The output for component `a` is the same wherever it stands, whatever the others are. -/
def Independent (init : σ → Prop) (a : α) : Prop :=
  ∀ s s' pre pre' post post' r r', init s → init s' →
    loop step s (pre ++ a :: post) = .ok r → loop step s' (pre' ++ a :: post') = .ok r' →
    r.1[pre.length]? = r'.1[pre'.length]?

variable {step} {init : σ → Prop}

/-- What holds at the start and is kept by every step holds of every state that is met. -/
theorem Meets.invariant {P : σ → Prop} (hstart : ∀ s, init s → P s)
    (hstep : ∀ s a out s' a', P s → step s a = .ok (out, s', a') → P s') {s : σ}
    (h : Meets step init s) : P s := by
  induction h with
  | start h => exact hstart _ h
  | next _ call ih => exact hstep _ _ _ _ _ ih call

theorem loop_cons {s : σ} {a : α} {as : List α} {r : List ω × σ × List α}
    (h : loop step s (a :: as) = .ok r) :
    ∃ out s' a' r', step s a = .ok (out, s', a') ∧ loop step s' as = .ok r' ∧
      r.1 = out :: r'.1 := by
  rw [loop] at h
  cases hcall : step s a with
  | error e =>
    rw [hcall] at h
    cases h
  | ok x =>
    obtain ⟨out, s', a'⟩ := x
    rw [hcall] at h
    cases hlater : loop step s' as with
    | error e =>
      have h : (loop step s' as >>= fun r => pure (out :: r.1, r.2.1, a' :: r.2.2)) = .ok r := h
      rw [hlater] at h
      cases h
    | ok r' =>
      have h : (loop step s' as >>= fun r => pure (out :: r.1, r.2.1, a' :: r.2.2)) = .ok r := h
      rw [hlater] at h
      cases h
      exact ⟨out, s', a', r', rfl, hlater, rfl⟩

/-- The step of one component of the loop. -/
theorem loop_split {pre : List α} {a : α} {post : List α} :
    ∀ {s : σ} {r : List ω × σ × List α}, Meets step init s →
      loop step s (pre ++ a :: post) = .ok r →
      ∃ sa out sb b, Meets step init sa ∧ step sa a = .ok (out, sb, b) ∧
        r.1[pre.length]? = some out := by
  induction pre with
  | nil =>
    intro s r hs h
    obtain ⟨out, s', a', r', hcall, -, hr⟩ := loop_cons h
    exact ⟨s, out, s', a', hs, hcall, by rw [hr]; rfl⟩
  | cons b pre ih =>
    intro s r hs h
    obtain ⟨out, s', b', r', hcall, hlater, hr⟩ := loop_cons h
    obtain ⟨sa, out', sb, a', hmet, hstep, hget⟩ := ih (.next hs hcall) hlater
    refine ⟨sa, out', sb, a', hmet, hstep, ?_⟩
    rw [hr, List.length_cons, List.getElem?_cons_succ]
    exact hget

theorem loop_append {as bs : List α} : ∀ {s : σ} {r r' : List ω × σ × List α},
    loop step s as = .ok r → loop step r.2.1 bs = .ok r' →
    loop step s (as ++ bs) = .ok (r.1 ++ r'.1, r'.2.1, r.2.2 ++ r'.2.2) := by
  induction as with
  | nil =>
    intro s r r' h h'
    cases h
    exact h'
  | cons a as ih =>
    intro s r r' h h'
    rw [loop] at h
    cases hcall : step s a with
    | error e =>
      rw [hcall] at h
      cases h
    | ok x =>
      obtain ⟨out, t, b⟩ := x
      rw [hcall] at h
      replace h : (loop step t as >>= fun r => pure (out :: r.1, r.2.1, b :: r.2.2)) = .ok r := h
      cases hlater : loop step t as with
      | error e =>
        rw [hlater] at h
        cases h
      | ok r₁ =>
        rw [hlater] at h
        cases h
        rw [List.cons_append, loop, hcall]
        change (loop step t (as ++ bs) >>= fun r => pure (out :: r.1, r.2.1, b :: r.2.2)) = _
        rw [ih hlater h']
        rfl

/-- The loop over one component. -/
theorem loop_one {s t : σ} {a b : α} {out : ω} (h : step s a = .ok (out, t, b)) :
    loop step s [a] = .ok ([out], t, [b]) := by
  rw [loop, h]
  rfl

/-- A state that can be met is reached by a loop over other components. -/
theorem Meets.reached {s : σ} (h : Meets step init s) :
    ∃ s₀ pre r, init s₀ ∧ loop step s₀ pre = .ok r ∧ r.2.1 = s := by
  induction h with
  | @start s h => exact ⟨s, [], ([], s, []), h, rfl, rfl⟩
  | @next s s' a a' out _ call ih =>
    obtain ⟨s₀, pre, r, h, hloop, rfl⟩ := ih
    exact ⟨s₀, pre ++ [a], _, h, loop_append hloop (loop_one call), rfl⟩

theorem loop_length {as : List α} : ∀ {s : σ} {r : List ω × σ × List α},
    loop step s as = .ok r → r.1.length = as.length := by
  induction as with
  | nil =>
    intro s r h
    cases h
    rfl
  | cons a as ih =>
    intro s r h
    obtain ⟨out, s', a', r', -, hlater, hr⟩ := loop_cons h
    rw [hr, List.length_cons, List.length_cons, ih hlater]

/-- A component is independent exactly when its step has one output in all states that it can
meet. -/
theorem independent_iff {a : α} : Independent step init a ↔
    ∀ s s' out out' t t' b b', Meets step init s → Meets step init s' →
      step s a = .ok (out, t, b) → step s' a = .ok (out', t', b') → out = out' := by
  constructor
  · intro h s s' out out' t t' b b' hs hs' hcall hcall'
    obtain ⟨s₀, pre, r, hinit, hloop, rfl⟩ := hs.reached
    obtain ⟨s₀', pre', r', hinit', hloop', rfl⟩ := hs'.reached
    have hone := h s₀ s₀' pre pre' [] [] _ _ hinit hinit' (loop_append hloop (loop_one hcall))
      (loop_append hloop' (loop_one hcall'))
    rw [← loop_length hloop, ← loop_length hloop', List.getElem?_concat_length,
      List.getElem?_concat_length] at hone
    exact Option.some.inj hone
  · intro h s s' pre pre' post post' r r' hs hs' hloop hloop'
    obtain ⟨sa, out, sb, b, hmet, hstep, hget⟩ := loop_split (.start hs) hloop
    obtain ⟨sa', out', sb', b', hmet', hstep', hget'⟩ := loop_split (.start hs') hloop'
    rw [hget, hget', h _ _ _ _ _ _ _ _ hmet hmet' hstep hstep']

end SharedLoop
