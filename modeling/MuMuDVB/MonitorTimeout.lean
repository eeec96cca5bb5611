import MuMuDVB.Monitor

/-!
# The exit and the retuning of the monitor

When no channel has had traffic for too long, `monitor_func` stops the program or
tunes the card again. The timer is one variable in which zero means that it does
not run; what it says is told by the rounds that went before.
-/
namespace MuMuDVB.MonitorTimeout

open RecordedRun MuMuDVB.Monitor

/-- The times of the last rounds without traffic, the newest first, as far back as the last round
with traffic or the last tuning of the card. -/
def silence : List Round → List Int
  | [] => []
  | r :: before => if r.active ∨ r.tunes then [] else r.time :: silence before

/-- The first of these rounds that is not in the first second of the program. -/
def firstTime (times : List Int) : Int := (times.reverse.find? fun t => decide (t ≠ 0)).getD 0

/-- A limit is set, and a round of the silence is longer ago than that. -/
def Overdue (limit now : Int) (times : List Int) : Prop :=
  limit ≠ 0 ∧ ∃ t ∈ times, t ≠ 0 ∧ limit < now - t

/-- The clock does not go back. -/
def ClockForward (s : MonitorState) : Event → Prop
  | .begin monitorNow => ∀ r ∈ s.rounds, r.time ≤ monitorNow
  | _ => True

section timer

variable {limit now t : Int} {times : List Int}

theorem firstTime_cons (t : Int) (times : List Int) :
    firstTime (t :: times) = if firstTime times = 0 then t else firstTime times := by
  rw [firstTime, firstTime, List.reverse_cons, List.find?_append]
  cases hfind : times.reverse.find? fun t => decide (t ≠ 0) with
  | none => by_cases ht : t = 0 <;> simp [ht]
  | some first =>
    have hfirst : first ≠ 0 := by simpa using List.find?_some hfind
    simp [hfirst]

theorem firstTime_ne (h : firstTime times ≠ 0) : firstTime times ∈ times := by
  rw [firstTime] at h ⊢
  cases hfind : times.reverse.find? fun t => decide (t ≠ 0) with
  | none =>
    rw [hfind] at h
    exact absurd rfl h
  | some first => exact List.mem_reverse.mp (List.mem_of_find?_eq_some hfind)

/-- Of times in order the first that is not zero is the longest ago. -/
theorem firstTime_le (hsorted : times.Pairwise (· ≥ ·)) (ht : t ∈ times) (hne : t ≠ 0) :
    firstTime times ≠ 0 ∧ firstTime times ≤ t := by
  induction times with
  | nil => cases ht
  | cons s times ih =>
    obtain ⟨hs, hsorted⟩ := List.pairwise_cons.mp hsorted
    rw [firstTime_cons]
    rcases List.mem_cons.mp ht with rfl | ht
    · split
      next => exact ⟨hne, le_refl _⟩
      next hfirst => exact ⟨hfirst, hs _ (firstTime_ne hfirst)⟩
    · obtain ⟨hfirst, hle⟩ := ih hsorted ht
      rw [if_neg hfirst]
      exact ⟨hfirst, hle⟩

theorem expired_iff (hsorted : times.Pairwise (· ≥ ·)) :
    expired now (firstTime times) limit = true ↔ Overdue limit now times := by
  simp only [expired, decide_eq_true_eq, Overdue]
  constructor
  · rintro ⟨hlimit, hfirst, hlate⟩
    exact ⟨hlimit, _, firstTime_ne hfirst, hfirst, hlate⟩
  · rintro ⟨hlimit, t, ht, hne, hlate⟩
    obtain ⟨hfirst, hle⟩ := firstTime_le hsorted ht hne
    exact ⟨hlimit, hfirst, by omega⟩

/-- The timer in a round with the rounds before it. -/
theorem timer_eq (now : Int) (active : Bool) (before : List Round) :
    timer now (firstTime (silence before)) active =
      firstTime (if active then [] else now :: silence before) := by
  rw [timer]
  cases active with
  | true => rfl
  | false =>
    simp only [Bool.false_eq_true, if_false]
    rw [firstTime_cons]

end timer

section runs

variable {p : MonitorParameters} {s : MonitorState}

theorem silence_subset (rounds : List Round) : silence rounds ⊆ rounds.map Round.time := by
  induction rounds with
  | nil => exact List.Subset.refl _
  | cons r before ih =>
    rw [silence]
    split
    · exact List.nil_subset _
    · exact List.cons_subset_cons _ ih

theorem silence_sorted {rounds : List Round}
    (h : (rounds.map Round.time).Pairwise (· ≥ ·)) : (silence rounds).Pairwise (· ≥ ·) := by
  induction rounds with
  | nil => exact List.Pairwise.nil
  | cons r before ih =>
    obtain ⟨hr, hbefore⟩ := List.pairwise_cons.mp h
    rw [silence]
    split
    · exact List.Pairwise.nil
    · exact List.pairwise_cons.mpr ⟨fun t ht => hr t (silence_subset before ht), ih hbefore⟩

/-- What a round decided, told by the rounds before it. -/
structure Decides (p : MonitorParameters) (r : Round) (before : List Round) : Prop where
  exits : r.exits = true ↔
    r.active = false ∧ Overdue p.timeoutNoDiff r.time (r.time :: silence before)
  tunes : r.tunes = true ↔
    r.active = false ∧ p.readsFile = false ∧ Overdue p.tuningNoDiff r.time (r.time :: silence before)

/-- What holds of each round and of those before it. -/
def AllDecide (p : MonitorParameters) : List Round → Prop
  | [] => True
  | r :: before => Decides p r before ∧ AllDecide p before

theorem AllDecide.of_split {later before : List Round} {r : Round}
    (h : AllDecide p (later ++ r :: before)) : Decides p r before := by
  induction later with
  | nil => exact h.1
  | cons first later ih => exact ih h.2

structure Timed (p : MonitorParameters) (s : MonitorState) : Prop where
  sorted : (s.rounds.map Round.time).Pairwise (· ≥ ·)
  now : s.vars.todo ≠ [] → ∀ r ∈ s.rounds, r.time ≤ s.vars.monitorNow
  timer : s.vars.timeNoDiff = firstTime (silence s.rounds)
  decides : AllDecide p s.rounds
  interrupted : (∃ r ∈ s.rounds, r.exits = true) → s.interrupted ≠ 0

theorem expired_silence {now limit : Int} {active : Bool} {before : List Round}
    (hsorted : (now :: silence before).Pairwise (· ≥ ·)) :
    expired now (timer now (firstTime (silence before)) active) limit = true ↔
      active = false ∧ Overdue limit now (now :: silence before) := by
  rw [timer_eq]
  cases active with
  | true => simp [expired, firstTime]
  | false =>
    simp only [Bool.false_eq_true, if_false, true_and]
    exact expired_iff hsorted

theorem setInterrupted_ne {value interrupted : Int} (h : interrupted ≠ 0) :
    setInterrupted value interrupted ≠ 0 := by
  rw [setInterrupted, if_neg fun hboth => h hboth.2]
  exact h

/-- The end of a round. -/
theorem Timed.finishRound (h : Timed p s) (hnow : ∀ r ∈ s.rounds, r.time ≤ s.vars.monitorNow) :
    Timed p (finishRound p s) := by
  have htimes : (s.vars.monitorNow :: s.rounds.map Round.time).Pairwise (· ≥ ·) := by
    refine List.pairwise_cons.mpr ⟨fun t ht => ?_, h.sorted⟩
    obtain ⟨r, hr, rfl⟩ := List.mem_map.mp ht
    exact hnow r hr
  have hsilence : (s.vars.monitorNow :: silence s.rounds).Pairwise (· ≥ ·) :=
    List.pairwise_cons.mpr ⟨fun t ht => (List.pairwise_cons.mp htimes).1 t
      (silence_subset _ ht), silence_sorted h.sorted⟩
  have htimer := h.timer
  rw [Monitor.finishRound]
  dsimp only
  generalize (s.watched.any fun w => w.channel.hasTraffic && w.channel.channelReady.isReady) =
    active
  rw [htimer]
  refine ⟨htimes, fun _ => List.forall_mem_cons.mpr ⟨le_refl _, hnow⟩, ?_, ⟨⟨?_, ?_⟩, h.decides⟩, ?_⟩
  · show _ = firstTime (silence (_ :: _))
    rw [silence]
    dsimp only
    split
    next htunes => rw [if_pos (.inr htunes)]; rfl
    next htunes =>
      cases active with
      | true => rfl
      | false =>
        rw [if_neg fun h => htunes (h.resolve_left Bool.false_ne_true), timer_eq]
        rfl
  · exact expired_silence hsilence
  · show (_ && _) = true ↔ _
    rw [Bool.and_eq_true, expired_silence hsilence, Bool.not_eq_true', and_assoc,
      and_comm (b := p.readsFile = false)]
  · rintro ⟨r, hr, hexits⟩
    dsimp only
    rcases List.mem_cons.mp hr with rfl | hr
    · rw [if_pos hexits, setInterrupted]
      split
      · decide
      next hboth => exact fun hzero => hboth ⟨by decide, hzero⟩
    · have hbefore := h.interrupted ⟨r, hr, hexits⟩
      split
      · exact setInterrupted_ne hbefore
      · exact hbefore

theorem Timed.runTask (h : Timed p s) (hnow : ∀ r ∈ s.rounds, r.time ≤ s.vars.monitorNow)
    (task : Task) : Timed p (runTask p s task) := by
  cases task with
  | count => exact h.finishRound hnow
  | traffic _ _ => exact ⟨h.sorted, h.now, h.timer, h.decides, h.interrupted⟩
  | scrambled _ => exact ⟨h.sorted, h.now, h.timer, h.decides, h.interrupted⟩
  | upDown _ _ => exact ⟨h.sorted, h.now, h.timer, h.decides, h.interrupted⟩
  | reinit _ => exact ⟨h.sorted, h.now, h.timer, h.decides, h.interrupted⟩

theorem monitoring_timed {past : List Event}
    (hrun : Run ((monitoring p).restrict ClockForward) past s) : Timed p s := by
  refine hrun.invariant (P := fun _ s => Timed p s) ?_ ?_
  · rintro s ⟨-, -, htimer, htodo, hinterrupted, hrounds⟩
    refine ⟨by simp [hrounds], by simp [hrounds], ?_, by simp [hrounds, AllDecide],
      by simp [hrounds]⟩
    rw [htimer, hrounds]
    rfl
  rintro past s e s' h ⟨hforward, hstep⟩
  cases e with
  | packet i tsPacket nowTime =>
    obtain ⟨w, channel, sending, -, -, rfl⟩ := hstep
    exact ⟨h.sorted, h.now, h.timer, h.decides, h.interrupted⟩
  | begin monitorNow =>
    obtain ⟨-, rfl⟩ := hstep
    exact ⟨h.sorted, fun _ => hforward, h.timer, h.decides, h.interrupted⟩
  | task =>
    obtain ⟨task, rest, htodo, rfl⟩ := hstep
    have hnow := h.now (by rw [htodo]; exact List.cons_ne_nil _ _)
    have hstart : Timed p { s with vars := { s.vars with todo := rest } } :=
      ⟨h.sorted, fun _ => hnow, h.timer, h.decides, h.interrupted⟩
    exact hstart.runTask hnow task
  | init i =>
    subst hstep
    exact ⟨h.sorted, h.now, h.timer, h.decides, h.interrupted⟩
  | configure i settings channelReady =>
    subst hstep
    exact ⟨h.sorted, h.now, h.timer, h.decides, h.interrupted⟩
  | interrupt value =>
    subst hstep
    exact ⟨h.sorted, h.now, h.timer, h.decides, fun hexits =>
      setInterrupted_ne (h.interrupted hexits)⟩

/-- In every run in which the clock does not go back: a round stops the program, or tunes the card
again, exactly when it has found no channel with traffic and a round of the silence so far, after
the first second of the program, is longer ago than the limit. A round that stops the program
leaves it stopped. -/
theorem monitoring_exits {past : List Event}
    (hrun : Run ((monitoring p).restrict ClockForward) past s) {later before : List Round}
    {r : Round} (hrounds : s.rounds = later ++ r :: before) :
    (r.exits = true ↔
      r.active = false ∧ Overdue p.timeoutNoDiff r.time (r.time :: silence before)) ∧
    (r.tunes = true ↔ r.active = false ∧ p.readsFile = false ∧
      Overdue p.tuningNoDiff r.time (r.time :: silence before)) ∧
    (r.exits = true → s.interrupted ≠ 0) := by
  have h := monitoring_timed hrun
  have hdecides : Decides p r before := AllDecide.of_split (hrounds ▸ h.decides)
  exact ⟨hdecides.exits, hdecides.tunes, fun hexits =>
    h.interrupted ⟨r, by rw [hrounds]; simp, hexits⟩⟩

theorem quietRounds_rounds : quietRounds.rounds.map (fun r => (r.time, r.active, r.exits)) =
    [(4, false, true), (2, false, false), (1, true, false)] := by
  decide +kernel

theorem quietRounds_forward : ClockForward (round oneSecond 1 quietStart) (.begin 2) ∧
    ClockForward (round oneSecond 2 (round oneSecond 1 quietStart)) (.begin 4) := by
  have hone : (round oneSecond 1 quietStart).rounds.map Round.time = [1] := by decide +kernel
  have htwo : (round oneSecond 2 (round oneSecond 1 quietStart)).rounds.map Round.time = [2, 1] := by
    decide +kernel
  constructor
  · intro r hr
    have hmem := hone ▸ List.mem_map_of_mem hr
    simp at hmem
    omega
  · intro r hr
    have hmem := htwo ▸ List.mem_map_of_mem hr
    simp at hmem
    omega

/-- The third round comes more than a second after the first without traffic. -/
theorem monitoring_exits_quiet :
    ∃ past, Run ((monitoring oneSecond).restrict ClockForward) past quietRounds ∧
      ∃ r before, quietRounds.rounds = [] ++ r :: before ∧ r.exits = true ∧
        Overdue 1 r.time (r.time :: silence before) := by
  obtain ⟨past, hrun⟩ := @run_quietRounds ClockForward (fun _ => trivial)
    (fun r hr => absurd hr List.not_mem_nil) quietRounds_forward.1 quietRounds_forward.2
  have hrounds := quietRounds_rounds
  cases hsplit : quietRounds.rounds with
  | nil =>
    rw [hsplit] at hrounds
    cases hrounds
  | cons r before =>
    rw [hsplit, List.map_cons] at hrounds
    have hexits : r.exits = true := congrArg (fun x => x.2.2) (List.cons.inj hrounds).1
    have hfirst : quietRounds.rounds = [] ++ r :: before := hsplit
    exact ⟨past, hrun, r, before, rfl, hexits, ((monitoring_exits hrun hfirst).1.mp hexits).2⟩

end runs

end MuMuDVB.MonitorTimeout
