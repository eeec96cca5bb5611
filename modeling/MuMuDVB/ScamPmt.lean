import MuMuDVB.CamPmt

/-!
# The PMT for software descrambling

The monitor thread asks the key server with a copy of the PMT. The main thread
raises the request when a new PMT is there, and copies it only afterwards, when
it has the lock; the monitor thread may come in between.
-/
namespace MuMuDVB.ScamPmt

open CheckedMemory RecordedRun MuMuDVB.TsHeader MuMuDVB.Ts MuMuDVB.Channel MuMuDVB.PmtDownload
open MuMuDVB.TsRefinement MuMuDVB.CamPmt

/-- Where the main thread is with a packet: it is done, or has taken a new PMT from it, or is in
front of the part with the lock. -/
inductive Phase where
  | done
  | taken (pid : Nat)
  | updated (pid : Nat)
  deriving DecidableEq

def Phase.isTaken : Phase → Bool
  | .taken _ => true
  | _ => false

/-- A channel with its copy, `scam_pmt_packet`. -/
structure State where
  chan : CamChannel
  copyData : Data
  copyLen : Nat
  phase : Phase
  /-- the PMT that `chan_pmt_ok` has accepted last; nothing reads this -/
  accepted : List UInt8
  /-- the PMT from which the last CAPMT was built; nothing reads this -/
  sent : Option (List UInt8)

/-- `scam_pmt_packet->data_full` up to `len_full` -/
def State.copy (s : State) : List UInt8 := s.copyData.cells.take s.copyLen

/-- `chan_new_pmt`; the flag for the autoconfiguration says whether a PMT was accepted. -/
def newPmt (mem : TableMemory) (pid : Nat) (s : State) : Checked State := do
  let channel ← takePmt mem pid s.chan.toPmtChannel
  let s := { s with chan := { s.chan with toPmtChannel := channel } }
  if channel.autoconfPmtNeedUpdate then
    return { s with
      phase := .taken pid
      accepted := channel.pmtPacket.dataFull.cells.take channel.pmtPacket.lenFull }
  else return { s with phase := .updated pid }

/-- The PMT is read by the autoconfiguration, which calls `chan_update_CAM`. -/
def updateCam (autoconfScrambled : Bool) (pid : Nat) (s : State) : State :=
  { s with
    chan := { chanUpdateCam autoconfScrambled true s.chan with autoconfPmtNeedUpdate := false }
    phase := .updated pid }

/-- `scam_new_packet` -/
def scamNewPacket (pid : Nat) (s : State) : Checked State := do
  let pmt := s.chan.pmtPacket
  if s.chan.needScamAsk = .needAsk ∧ s.chan.pmtPid = pid ∧ 0 < pmt.lenFull ∧
      checkPmtServiceId pmt s.chan.toPmtChannel = true then
    let src ← pmt.dataFull.slice 0 pmt.lenFull
    let copyData ← s.copyData.write 0 src
    return { s with
      copyData
      copyLen := pmt.lenFull
      phase := .done }
  else return { s with phase := .done }

/-- The monitor thread has a CAPMT to send. -/
def Sends (s : State) : Prop :=
  s.chan.scamSupport = true ∧ s.chan.channelReady.isReady = true ∧
    s.chan.needScamAsk = .needAsk ∧ s.copyLen ≠ 0

instance (s : State) : Decidable (Sends s) := inferInstanceAs (Decidable (_ ∧ _))

/-- The part of the monitor thread with the lock, when the key server takes what it is sent. -/
def monitor (s : State) : State :=
  if Sends s then { s with
    chan := { s.chan with needScamAsk := .asked }
    sent := some s.copy }
  else s

inductive Event where
  | packet (mem : TableMemory) (pid : Nat)
  | update (autoconfScrambled : Bool)
  | scam
  | monitor

/-- The steps of the main thread, one packet after the other, and those of the monitor thread, at
any time. -/
inductive Step : State → Event → State → Prop where
  | packet {s s' : State} {mem : TableMemory} {pid : Nat} (done : s.phase = .done)
      (call : newPmt mem pid s = .ok s') : Step s (.packet mem pid) s'
  | update {s : State} {autoconfScrambled : Bool} {pid : Nat} (taken : s.phase = .taken pid) :
      Step s (.update autoconfScrambled) (updateCam autoconfScrambled pid s)
  | scam {s s' : State} {pid : Nat} (updated : s.phase = .updated pid)
      (call : scamNewPacket pid s = .ok s') : Step s .scam s'
  | monitor {s : State} : Step s .monitor (monitor s)

/-- A ready channel that is scrambled, before its first packet. -/
def system : System State Event where
  Initial s := Fresh s.chan.toPmtChannel ∧ s.chan.channelReady = .ready ∧
    s.chan.freeCaMode = true ∧ s.chan.needScamAsk ≠ .asked ∧
    s.chan.autoconfPmtNeedUpdate = false ∧ s.copyLen = 0 ∧ s.phase = .done ∧ s.sent = none
  Step := Step

/-- Between packets, the key server that has been asked has the PMT accepted last. -/
def Latest (s : State) : Prop :=
  s.phase = .done → s.chan.needScamAsk = .asked → s.sent = some s.accepted

/-- The monitor thread sends the PMT accepted last, or one for which `chan_update_CAM` is still to
come. -/
def Timely (s : State) : Event → Prop
  | .monitor => Sends s → s.phase.isTaken = true ∨ s.copy = s.accepted
  | _ => True

instance (s : State) (e : Event) : Decidable (Timely s e) :=
  match e with
  | .monitor =>
    inferInstanceAs (Decidable (Sends s → s.phase.isTaken = true ∨ s.copy = s.accepted))
  | .packet _ _ => .isTrue trivial
  | .update _ => .isTrue trivial
  | .scam => .isTrue trivial

section latest

variable {s s' : State} {e : Event} {past : List Event}

/-- The channel stays ready, and a request that has been answered is for the PMT accepted last
unless it is about to be raised again. -/
structure Asks (s : State) : Prop where
  ready : s.chan.channelReady = .ready
  scrambled : s.chan.freeCaMode = true
  healthy : Healthy s.chan.pmtPacket
  asked : s.chan.needScamAsk = .asked → s.phase.isTaken = true ∨ s.sent = some s.accepted

theorem chanPmtOk_ready (channel : PmtChannel) :
    (if (chanPmtOk channel).1 then announce (chanPmtOk channel).2
      else (chanPmtOk channel).2).channelReady = channel.channelReady := by
  rw [chanPmtOk]
  (repeat' split) <;> rfl

theorem pmtLoop_ready {fuel : Nat} {buf : Option Packet} {channel channel' : PmtChannel}
    (h : pmtLoop fuel buf channel = .ok channel') :
    channel'.channelReady = channel.channelReady := by
  induction fuel generalizing buf channel with
  | zero => cases h
  | succ fuel ih =>
    rw [pmtLoop] at h
    split at h
    · obtain ⟨⟨avail, pmtPacket⟩, -, h⟩ := bind_eq_ok.mp h
      dsimp only at h
      split at h
      · exact (ih h).trans (chanPmtOk_ready { channel with pmtPacket })
      · cases h
        rfl
    · cases h
      rfl

theorem takePmt_ready {mem : TableMemory} {pid : Nat} {channel channel' : PmtChannel}
    (h : takePmt mem pid channel = .ok channel') :
    channel'.channelReady = channel.channelReady := by
  rw [takePmt] at h
  split at h
  · obtain ⟨channel₁, hcheck, hloop⟩ := bind_eq_ok.mp h
    refine (pmtLoop_ready hloop).trans ?_
    split at hcheck
    · cases hcheck
      rfl
    · obtain rfl | rfl := chanPmtNeedUpdate_cases hcheck <;> rfl
  · cases h
    rfl

/-- A request for a channel that is ready and scrambled is raised again. -/
theorem chanUpdateCam_raises {chan : CamChannel} (autoconfScrambled : Bool)
    (hready : chan.channelReady = .ready) (hscrambled : chan.freeCaMode = true) :
    (chanUpdateCam autoconfScrambled true chan).channelReady = .ready ∧
      (chanUpdateCam autoconfScrambled true chan).freeCaMode = true ∧
      (chanUpdateCam autoconfScrambled true chan).needScamAsk ≠ .asked := by
  have hcam : (updateCamAsk autoconfScrambled chan).channelReady = .ready ∧
      (updateCamAsk autoconfScrambled chan).freeCaMode = true := by
    rw [updateCamAsk]
    split <;> exact ⟨hready, hscrambled⟩
  rw [chanUpdateCam, if_neg (by rw [hready]; decide), updateScamAsk,
    if_pos (by rw [hcam.2, Bool.and_self])]
  split
  · exact ⟨hcam.1, hcam.2, fun hask => by cases hask⟩
  · split
    · exact ⟨hcam.1, hcam.2, fun hask => by cases hask⟩
    · rename_i hask
      exact ⟨hcam.1, hcam.2, hask⟩

theorem Asks.packet {mem : TableMemory} {pid : Nat} (h : Asks s) (hdone : s.phase = .done)
    (hcall : newPmt mem pid s = .ok s') : Asks s' := by
  obtain ⟨channel, htake, hs'⟩ := bind_eq_ok.mp hcall
  have hready := (takePmt_ready htake).trans h.ready
  obtain ⟨hhealthy, -⟩ := takePmt_outputs h.healthy htake
  dsimp only at hs'
  split at hs'
  · cases hs'
    exact ⟨hready, h.scrambled, hhealthy, fun _ => .inl rfl⟩
  · cases hs'
    refine ⟨hready, h.scrambled, hhealthy, fun hasked => ?_⟩
    obtain htaken | hsent := h.asked hasked
    · rw [hdone] at htaken
      cases htaken
    · exact .inr hsent

theorem Asks.update (h : Asks s) (autoconfScrambled : Bool) (pid : Nat) :
    Asks (updateCam autoconfScrambled pid s) := by
  obtain ⟨hready, hscrambled, hask⟩ :=
    chanUpdateCam_raises autoconfScrambled h.ready h.scrambled
  have hsame := (chanUpdateCam_same autoconfScrambled true s.chan).pmtPacket
  exact ⟨hready, hscrambled, hsame ▸ h.healthy, fun hasked => absurd hasked hask⟩

theorem Asks.scam {pid : Nat} (h : Asks s) (hupdated : s.phase = .updated pid)
    (hcall : scamNewPacket pid s = .ok s') : Asks s' := by
  have hsent : s.chan.needScamAsk = .asked → s.sent = some s.accepted := by
    intro hasked
    obtain htaken | hsent := h.asked hasked
    · rw [hupdated] at htaken
      cases htaken
    · exact hsent
  rw [scamNewPacket] at hcall
  split at hcall
  · obtain ⟨src, -, hcall⟩ := bind_eq_ok.mp hcall
    obtain ⟨copyData, -, hcall⟩ := bind_eq_ok.mp hcall
    cases hcall
    exact ⟨h.ready, h.scrambled, h.healthy, fun hasked => .inr (hsent hasked)⟩
  · cases hcall
    exact ⟨h.ready, h.scrambled, h.healthy, fun hasked => .inr (hsent hasked)⟩

theorem Asks.monitor (h : Asks s) (htimely : Timely s .monitor) : Asks (monitor s) := by
  rw [ScamPmt.monitor]
  split
  · rename_i hsends
    refine ⟨h.ready, h.scrambled, h.healthy, fun _ => ?_⟩
    obtain htaken | hcopy := htimely hsends
    · exact .inl htaken
    · exact .inr (congrArg some hcopy)
  · exact h

theorem asks_run (hrun : Run (system.restrict Timely) past s) : Asks s := by
  induction hrun with
  | start initial =>
    obtain ⟨⟨hzeroed, -⟩, hready, hscrambled, hask, -⟩ := initial
    exact ⟨hready, hscrambled, hzeroed ▸ healthy_zeroed, fun hasked => absurd hasked hask⟩
  | next _ step ih =>
    obtain ⟨htimely, hstep⟩ := step
    cases hstep with
    | packet done call => exact ih.packet done call
    | update => exact ih.update _ _
    | scam updated call => exact ih.scam updated call
    | monitor => exact ih.monitor htimely

/-- Where the monitor thread does not send an old copy between the request and the new copy, the
key server has the PMT accepted last. -/
theorem latest_timely (hrun : Run (system.restrict Timely) past s) : Latest s := by
  intro hdone hasked
  obtain htaken | hsent := (asks_run hrun).asked hasked
  · rw [hdone] at htaken
    cases htaken
  · exact hsent

end latest

/-- Version 1 in force. -/
def firstMemory : TableMemory :=
  ⟨[0x47, 0x41, 0x00, 0x10, 0x00] ++ emptyPmt 0xc3 [0x27, 0x36, 0x55, 0xa2] ++
    List.replicate 175 0xff, by decide +kernel⟩

/-- A scrambled channel for service 1 with PMT PID 256. -/
def scrambled : State where
  chan := { readyChannel with
    freeCaMode := true
    scamSupport := false
    needScamAsk := .noAsk }
  copyData := Buffer.fill _ 0
  copyLen := 0
  phase := .done
  accepted := []
  sent := none

theorem scrambled_initial : system.Initial scrambled :=
  ⟨⟨rfl, rfl⟩, rfl, rfl, (fun h => by cases h), rfl, rfl, rfl, rfl⟩

/-- What the program does in a step. -/
def handle (s : State) : Event → Checked State
  | .packet mem pid => if s.phase = .done then newPmt mem pid s else .error .outOfBounds
  | .update autoconfScrambled =>
    match s.phase with
    | .taken pid => .ok (updateCam autoconfScrambled pid s)
    | _ => .error .outOfBounds
  | .scam =>
    match s.phase with
    | .updated pid => scamNewPacket pid s
    | _ => .error .outOfBounds
  | .monitor => .ok (monitor s)

theorem step_handle {s s' : State} {e : Event} (h : handle s e = .ok s') :
    system.Step s e s' := by
  cases e with
  | packet mem pid =>
    rw [handle] at h
    split at h
    · rename_i hdone
      exact .packet hdone h
    · cases h
  | update autoconfScrambled =>
    rw [handle] at h
    split at h
    · rename_i htaken
      cases h
      exact .update htaken
    · cases h
  | scam =>
    rw [handle] at h
    split at h
    · rename_i hupdated
      exact .scam hupdated h
    · cases h
  | monitor =>
    cases h
    exact .monitor

/-- The first version is received and copied. -/
def firstVersion : List Event :=
  [.packet firstMemory 256, .scam, .packet firstMemory 256, .update true, .scam]

/-- Behind the third version the monitor thread comes in between the request and the copy. -/
def thirdVersion : List Event :=
  [.monitor, .packet thirdMemory 256, .scam, .packet thirdMemory 256, .update true, .monitor, .scam]

/-- The key server has the first version, and there is no request any more. -/
theorem not_latest_thirdVersion : ¬ ∀ past s, Run system past s → Latest s := by
  have h : ((firstVersion ++ thirdVersion).foldlM handle scrambled).map (fun s =>
      ((s.phase, s.chan.needScamAsk), s.sent.map (·.take 6), s.accepted.take 6)) =
      .ok ((.done, .asked), some [0x02, 0xb0, 0x0d, 0x00, 0x01, 0xc3],
        [0x02, 0xb0, 0x0d, 0x00, 0x01, 0xc7]) := by decide +kernel
  obtain ⟨s, hplay, hvalues⟩ := map_eq_ok h
  simp only [Prod.mk.injEq, Option.map_eq_some_iff] at hvalues
  obtain ⟨⟨hdone, hasked⟩, ⟨sent, hsent, hfirst⟩, hthird⟩ := hvalues
  intro hall
  have hrun := Run.foldlM id (fun _ _ _ => step_handle) (.start scrambled_initial) hplay
  have hlatest := hall _ s hrun hdone hasked
  rw [hsent, Option.some.injEq] at hlatest
  rw [hlatest, hthird] at hfirst
  exact absurd hfirst (by decide)

/-- What the program does in a step that meets the condition. -/
def handleTimely (s : State) (e : Event) : Checked State :=
  if Timely s e then handle s e else .error .outOfBounds

theorem step_handleTimely {s s' : State} {e : Event} (h : handleTimely s e = .ok s') :
    (system.restrict Timely).Step s e s' := by
  rw [handleTimely] at h
  split at h
  · rename_i htimely
    exact ⟨htimely, step_handle h⟩
  · cases h

theorem latest_firstVersion : ∃ past s, Run (system.restrict Timely) past s ∧
    s.phase = .done ∧ s.chan.needScamAsk = .asked ∧ s.sent = some s.accepted := by
  have h : ((firstVersion ++ [Event.monitor]).foldlM handleTimely scrambled).map (fun s =>
      (s.phase, s.chan.needScamAsk)) = .ok (.done, .asked) := by decide +kernel
  obtain ⟨s, hplay, hvalues⟩ := map_eq_ok h
  rw [Prod.mk.injEq] at hvalues
  obtain ⟨hdone, hasked⟩ := hvalues
  have hrun := Run.foldlM id (fun _ _ _ => step_handleTimely) (.start scrambled_initial) hplay
  exact ⟨_, s, hrun, hdone, hasked, latest_timely hrun hdone hasked⟩

end MuMuDVB.ScamPmt
