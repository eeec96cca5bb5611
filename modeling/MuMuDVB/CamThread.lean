import MuMuDVB.PermittedTrace
import MuMuDVB.CamPmt

/-!
# The thread of the CAM

`camthread_func` waits for the CAM to say what it supports, resets it or gives
up when it does not, and has it asked again for the channels that stay
scrambled, while the main loop asks it with the PMT of each channel. What the
two do is kept in a trace, the newest entry first.
-/
namespace MuMuDVB.CamThread

open CheckedMemory RecordedRun PermittedTrace MuMuDVB.TsHeader MuMuDVB.Ts MuMuDVB.Channel
open MuMuDVB.PmtDownload MuMuDVB.CamPmt

/-- What the configuration and the kind of interface fix. -/
structure CamParameters where
  camDelayPmtSend : Int
  camReaskInterval : Int
  camIntervalPmtSend : Int
  resetInterval : Int
  maxResetNumber : Int
  /-- `timeout_no_cam_init` at the start -/
  timeoutNoCamInit : Int
  /-- `cam_type==DVBCA_INTERFACE_LINK` -/
  linkInterface : Bool

inductive ExitCode where
  | cam | noCamInit
  deriving DecidableEq

inductive Entry where
  /-- `mumudvb_cam_ca_info_callback` -/
  | info (time : Int)
  /-- an iteration of the thread begins -/
  | wake (time : Int)
  /-- the thread finds that the CAM is to be asked again for a channel -/
  | found (i : Nat) (time : Int)
  /-- and has it asked -/
  | reask (i : Nat) (time : Int)
  /-- a section is sent: the times at the test of `cam_pmt_send_time`, when it is set, and in
  `cam_new_packet` -/
  | ask (i : Nat) (management : ListManagement) (checked stored time : Int)
  | reset (now : Int)
  /-- `set_interrupted` -/
  | exit (code : ExitCode) (now : Int)
  deriving DecidableEq

/-- Where the thread stands. -/
inductive ThreadAt where
  | top
  /-- in the loop over the channels -/
  | channel (i : Nat)
  /-- the channel is to be asked for again -/
  | reasking (i : Nat)
  /-- before the poll of the CAM -/
  | poll
  deriving DecidableEq

structure CamState where
  caInfoOkTime : Int
  caResourceConnected : Bool
  camPmtSendTime : Int
  needReset : Bool
  resetCounts : Int
  timeoutNoCamInit : Int
  realStartTime : Int
  /-- `tv.tv_sec` of the thread -/
  time : Int
  lastChannelCheck : Int
  errorOld : Int
  thread : ThreadAt
  channels : List Asking
  camAskingTime : Nat → Int
  trace : List Entry

namespace CamState

variable (p : CamParameters) (s : CamState)

def now : Int := s.time - s.realStartTime

def record (e : Entry) : CamState := { s with trace := e :: s.trace }

/-- The "safety" delay after the CA info is over. -/
def checkConnected : CamState :=
  if s.caInfoOkTime ≠ 0 ∧ s.caResourceConnected = false ∧
      p.camDelayPmtSend < s.time - s.caInfoOkTime then
    { s with caResourceConnected := true }
  else s

/-- The beginning of an iteration, up to the loop over the channels. -/
def wake (time : Int) : CamState :=
  let s := ({ s with time }.record (.wake time)).checkConnected p
  if s.caResourceConnected ∧ 0 < p.camReaskInterval ∧ 2 < s.now - s.lastChannelCheck then
    { s with lastChannelCheck := s.now, thread := .channel 0 }
  else { s with thread := .poll }

/-- Whether the CAM is asked again for a channel, which it was asked for a while ago. -/
def NeedsReask (down : Bool) (i : Nat) (c : Asking) : Prop :=
  down = true ∧ c.chan.needCamAsk = .asked ∧ c.chan.channelReady.isReady = true ∧
    p.camReaskInterval < s.time - s.camAskingTime i

instance (down : Bool) (i : Nat) (c : Asking) : Decidable (NeedsReask p s down i c) :=
  inferInstanceAs (Decidable (_ ∧ _))

/-- The test of a channel; `down` is what the monitor thread says of its traffic. -/
def look (down : Bool) (i : Nat) : CamState :=
  match s.channels[i]? with
  | none => { s with thread := .poll }
  | some c =>
    if NeedsReask p s down i c then
      { s with
        thread := .reasking i
        channels := s.channels.set i { c with reasking := true } }.record (.found i s.time)
    else { s with thread := .channel (i + 1) }

/-- The channel is marked for an update. -/
def reask (i : Nat) (c : Asking) : CamState :=
  { s with
    thread := .channel (i + 1)
    channels := s.channels.set i
      { c with
        chan := { c.chan with needCamAsk := .needUpdate }
        reasking := false }
    camAskingTime := Function.update s.camAskingTime i s.time }.record (.reask i s.time)

/-- `mumudvb_cam_ca_info_callback`, which the poll calls. -/
def caInfo (time : Int) : CamState := { s with caInfoOkTime := time }.record (.info time)

/-- After initialization an error of the transport layer is not good. -/
def checkError (errorNew : Int) : CamState :=
  if errorNew ≠ s.errorOld then
    let s := { s with errorOld := errorNew }
    if s.caResourceConnected then s.record (.exit .cam s.now) else s
  else s

/-- Whether the CAM has had its time to say what it supports. -/
def checkInit : CamState :=
  if s.caInfoOkTime = 0 ∧ 0 < s.timeoutNoCamInit ∧ s.timeoutNoCamInit < s.now ∧
      0 < p.resetInterval then
    if p.linkInterface then
      if s.needReset = false ∧ s.resetCounts < p.maxResetNumber then
        { s with
          needReset := true
          timeoutNoCamInit := s.now + p.resetInterval }
      else if p.maxResetNumber ≤ s.resetCounts then s.record (.exit .noCamInit s.now)
      else s
    else s.record (.exit .noCamInit s.now)
  else s

/-- The reset; the wait for the CAM to come out of it changes nothing. -/
def resetIfNeeded : CamState :=
  if s.needReset then
    { s with
      needReset := false
      resetCounts := s.resetCounts + 1 }.record (.reset s.now)
  else s

/-- The end of an iteration, from the poll on. -/
def poll (infos : List Int) (errorNew : Int) : CamState :=
  let s := ((infos.foldl caInfo s).checkError errorNew).checkInit p
  { s.resetIfNeeded with thread := .top }

end CamState

section main

variable (lib : Libucsi)

instance (pid : Nat) (c : Asking) : Decidable (Reaches pid c) :=
  inferInstanceAs (Decidable (_ ∧ _))

/-- `cam_new_packet` returns 1. -/
def Sends (pid : Nat) (cam : Cam) (c : Asking) : Prop :=
  Reaches pid c ∧ (mumudvbCamNewPmt lib cam c.chan.pmtPacket).1 = .sent

instance (pid : Nat) (cam : Cam) (c : Asking) : Decidable (Sends lib pid cam c) :=
  inferInstanceAs (Decidable (_ ∧ _))

/-- An update is for a channel that the CAM has already. -/
def managementOf (chan : CamChannel) : ListManagement :=
  if chan.needCamAsk = .needUpdate then .update else .add

/-- The main loop comes to a channel with a packet for it. -/
def CamState.ask (s : CamState) (i pid : Nat) (cam : Cam) (checked stored time : Int)
    (c : Asking) : CamState :=
  let channels := s.channels.set i (camNewPacket lib pid cam c)
  if Sends lib pid cam c then
    { s with
      channels
      camPmtSendTime := stored
      camAskingTime := Function.update s.camAskingTime i time }.record
        (.ask i (managementOf c.chan) checked stored time)
  else { s with channels }

end main

inductive Event where
  | wake (time : Int)
  | look (down : Bool)
  | reask
  /-- the poll may call back with CA infos, and the transport layer has an error code -/
  | poll (infos : List Int) (errorNew : Int)
  /-- what the main loop and the other threads do with the channels -/
  | other (e : CamPmt.Event)
  | ask (i pid : Nat) (cam : Cam) (checked stored time : Int)

/-- The event is not one of the CAM. -/
def IsOther : CamPmt.Event → Prop
  | .found _ | .reask _ | .cam _ _ _ => False
  | _ => True

inductive Step (lib : Libucsi) (p : CamParameters) : CamState → Event → CamState → Prop where
  | wake {s : CamState} {time : Int} (top : s.thread = .top) :
      Step lib p s (.wake time) (s.wake p time)
  | look {s : CamState} {down : Bool} {i : Nat} (channel : s.thread = .channel i) :
      Step lib p s (.look down) (s.look p down i)
  | reask {s : CamState} {i : Nat} {c : Asking} (reasking : s.thread = .reasking i)
      (here : s.channels[i]? = some c) : Step lib p s .reask (s.reask i c)
  | poll {s : CamState} {infos : List Int} {errorNew : Int} (poll : s.thread = .poll)
      (times : ∀ time ∈ infos, time ≠ 0) :
      Step lib p s (.poll infos errorNew) (s.poll p infos errorNew)
  | other {s : CamState} {e : CamPmt.Event} {channels : List Asking} (isOther : IsOther e)
      (step : CamPmt.Step lib s.channels e channels) :
      Step lib p s (.other e) { s with channels }
  | ask {s : CamState} {i pid : Nat} {cam : Cam} {checked stored time : Int} {c : Asking}
      (here : s.channels[i]? = some c) (connected : s.caResourceConnected = true)
      (interval : p.camIntervalPmtSend ≤ checked - s.camPmtSendTime) :
      Step lib p s (.ask i pid cam checked stored time)
        (s.ask lib i pid { cam with caResourceConnected := true } checked stored time c)

/-- The start of the thread; no channel has been asked for. -/
structure Initial (p : CamParameters) (s : CamState) : Prop where
  caInfoOkTime : s.caInfoOkTime = 0
  caResourceConnected : s.caResourceConnected = false
  needReset : s.needReset = false
  resetCounts : s.resetCounts = 0
  timeoutNoCamInit : s.timeoutNoCamInit = p.timeoutNoCamInit
  thread : s.thread = .top
  channels : ∀ c ∈ s.channels, FreshAsking c ∧ c.chan.needCamAsk ≠ .needUpdate
  trace : s.trace = []

def camSystem (lib : Libucsi) (p : CamParameters) : System CamState Event where
  Initial := Initial p
  Step := Step lib p

/-! What may happen, in terms of the trace alone. -/

section permitted

variable (p : CamParameters) (i : Nat) (before : List Entry)

/-- An iteration of the thread found that the delay after a CA info is over. -/
def Connected : Prop :=
  ∃ infoTime wakeTime, infoTime ≠ 0 ∧ p.camDelayPmtSend < wakeTime - infoTime ∧
    [.wake wakeTime, .info infoTime].Sublist before

/-- No CA info came. -/
def Unanswered : Prop := ∀ time, .info time ∉ before

/-- When the CAM was asked for the channel the last time, or to be asked again. -/
def lastAsked : Option Int :=
  before.findSome? fun
    | .ask j _ _ _ time | .reask j time => if j = i then some time else none
    | _ => none

/-- When the last section was sent, as far as the spacing goes. -/
def lastStored : Option Int :=
  before.findSome? fun
    | .ask _ _ _ stored _ => some stored
    | _ => none

def isReset : Entry → Bool
  | .reset _ => true
  | _ => false

def resets : Nat := before.countP isReset

/-- When the CAM has to be initialized, from the last reset on. -/
def deadline : Int :=
  (before.findSome? fun
    | .reset now => some (now + p.resetInterval)
    | _ => none).getD p.timeoutNoCamInit

/-- An entry of the thread. -/
def ofThread : Entry → Bool
  | .ask .. => false
  | _ => true

def Added : Prop := ∃ checked stored time, .ask i .add checked stored time ∈ before

/-- What may come after such a trace. -/
def Permitted : Entry → List Entry → Prop
  | .info time, _ => time ≠ 0
  | .wake _, _ => True
  | .found i time, before => 0 < p.camReaskInterval ∧ Connected p before ∧ Added i before ∧
      ∀ last, lastAsked i before = some last → p.camReaskInterval < time - last
  | .reask i time, before => before.find? ofThread = some (.found i time)
  | .ask i management checked _ _, before => Connected p before ∧
      (management = .update → Added i before) ∧
      ∀ stored, lastStored before = some stored → p.camIntervalPmtSend ≤ checked - stored
  | .reset now, before => Unanswered before ∧ p.linkInterface = true ∧
      (resets before : Int) < p.maxResetNumber ∧ deadline p before < now
  | .exit .noCamInit now, before => Unanswered before ∧ deadline p before < now ∧
      (p.linkInterface = true → p.maxResetNumber ≤ resets before)
  | .exit .cam _, before => Connected p before

end permitted

section traces

variable {p : CamParameters} {i : Nat} {e : Entry} {before : List Entry}

theorem Connected.cons (h : Connected p before) (e : Entry) : Connected p (e :: before) := by
  obtain ⟨infoTime, wakeTime, hinfo, hdelay, hsub⟩ := h
  exact ⟨infoTime, wakeTime, hinfo, hdelay, hsub.cons e⟩

theorem Added.cons (h : Added i before) (e : Entry) : Added i (e :: before) := by
  obtain ⟨checked, stored, time, hmem⟩ := h
  exact ⟨checked, stored, time, List.mem_cons_of_mem e hmem⟩

theorem Added.asked (h : Added i before) : ∃ last, lastAsked i before = some last := by
  obtain ⟨checked, stored, time, hmem⟩ := h
  rw [← Option.isSome_iff_exists, lastAsked, List.findSome?_isSome_iff]
  exact ⟨_, hmem, by simp⟩

/-- An entry that changes none of the times and counts. -/
def Neutral : Entry → Prop
  | .wake _ | .found _ _ | .exit _ _ => True
  | _ => False

theorem resets_cons : resets (e :: before) = resets before + (isReset e).toNat := by
  rw [resets, List.countP_cons]
  cases isReset e <;> rfl

end traces

/-- The CAM has the channel, as far as its flag tells. -/
def WasAdded (c : Asking) : Prop :=
  c.chan.needCamAsk = .asked ∨ c.chan.needCamAsk = .needUpdate

/-- What the variables say of the trace. -/
structure Core (p : CamParameters) (s : CamState) : Prop where
  lawful : Lawful (Permitted p) s.trace
  unanswered : s.caInfoOkTime = 0 → Unanswered s.trace
  answered : s.caInfoOkTime ≠ 0 → .info s.caInfoOkTime ∈ s.trace
  connected : s.caResourceConnected = true → Connected p s.trace
  sendTime : ∀ stored, lastStored s.trace = some stored → s.camPmtSendTime = stored
  askingTime : ∀ i last, lastAsked i s.trace = some last → s.camAskingTime i = last
  counts : s.resetCounts = resets s.trace
  deadline : s.timeoutNoCamInit = deadline p s.trace
  needReset : s.needReset = false
  added : ∀ i c, s.channels[i]? = some c → WasAdded c → Added i s.trace

section core

variable {p : CamParameters} {s : CamState} {e : Entry}

theorem Core.neutral (h : Core p s) (hpermitted : Permitted p e s.trace) (hneutral : Neutral e) :
    Core p (s.record e) := by
  have hadded : ∀ i c, s.channels[i]? = some c → WasAdded c → Added i (e :: s.trace) :=
    fun i c hc hwas => (h.added i c hc hwas).cons e
  have hanswered : s.caInfoOkTime ≠ 0 → .info s.caInfoOkTime ∈ e :: s.trace :=
    fun hne => List.mem_cons_of_mem e (h.answered hne)
  have hconnected : s.caResourceConnected = true → Connected p (e :: s.trace) :=
    fun hyes => (h.connected hyes).cons e
  have hunanswered : s.caInfoOkTime = 0 → Unanswered (e :: s.trace) := by
    intro hzero time hmem
    obtain rfl | hmem := List.mem_cons.mp hmem
    · cases hneutral
    · exact h.unanswered hzero time hmem
  cases e with
  | wake | found | exit =>
    exact ⟨⟨hpermitted, h.lawful⟩, hunanswered, hanswered, hconnected, h.sendTime, h.askingTime,
      h.counts, h.deadline, h.needReset, hadded⟩
  | _ => cases hneutral

/-- The delay is measured between the CA info and the wake-up that is recorded. -/
theorem Core.checkConnected {before : List Entry} (h : Core p s)
    (hwake : s.trace = .wake s.time :: before) : Core p (s.checkConnected p) := by
  rw [CamState.checkConnected]
  split
  · rename_i hover
    obtain ⟨hinfo, -, hdelay⟩ := hover
    have hmem := h.answered hinfo
    rw [hwake, List.mem_cons] at hmem
    have hconnected : Connected p s.trace := by
      refine ⟨s.caInfoOkTime, s.time, hinfo, hdelay, ?_⟩
      rw [hwake]
      exact (List.singleton_sublist.mpr (hmem.resolve_left nofun)).cons_cons _
    exact { h with connected := fun _ => hconnected }
  · exact h

theorem Core.caInfo {time : Int} (h : Core p s) (htime : time ≠ 0) : Core p (s.caInfo time) where
  lawful := ⟨htime, h.lawful⟩
  unanswered := fun hzero => absurd hzero htime
  answered := fun _ => List.mem_cons_self
  connected := fun hyes => (h.connected hyes).cons _
  sendTime := h.sendTime
  askingTime := h.askingTime
  counts := h.counts
  deadline := h.deadline
  needReset := h.needReset
  added := fun i c hc hwas => (h.added i c hc hwas).cons _

theorem Core.caInfos {infos : List Int} (h : Core p s) (htimes : ∀ time ∈ infos, time ≠ 0) :
    Core p (infos.foldl CamState.caInfo s) := by
  induction infos generalizing s with
  | nil => exact h
  | cons time infos ih =>
    exact ih (h.caInfo (htimes time List.mem_cons_self)) fun t ht =>
      htimes t (List.mem_cons_of_mem time ht)

theorem Core.checkError (h : Core p s) (errorNew : Int) : Core p (s.checkError errorNew) := by
  have hsame : Core p { s with errorOld := errorNew } := { h with }
  rw [CamState.checkError]
  split
  · dsimp only
    split
    · rename_i hconnected
      exact hsame.neutral (h.connected hconnected) trivial
    · exact hsame
  · exact h

/-- A reset takes the place of the one before, or of the start, in the deadline. -/
theorem Core.reset (h : Core p s) (hpermitted : Permitted p (.reset s.now) s.trace) :
    Core p ({ s with
      needReset := false
      resetCounts := s.resetCounts + 1
      timeoutNoCamInit := s.now + p.resetInterval }.record (.reset s.now)) where
  lawful := ⟨hpermitted, h.lawful⟩
  unanswered := fun hzero time hmem => by
    obtain heq | hmem := List.mem_cons.mp hmem
    · cases heq
    · exact h.unanswered hzero time hmem
  answered := fun hne => List.mem_cons_of_mem _ (h.answered hne)
  connected := fun hyes => (h.connected hyes).cons _
  sendTime := h.sendTime
  askingTime := h.askingTime
  counts := by
    rw [CamState.record, resets_cons, h.counts]
    rfl
  deadline := rfl
  needReset := rfl
  added := fun i c hc hwas => (h.added i c hc hwas).cons _

/-- The CAM has had its time. -/
def Late (p : CamParameters) (s : CamState) : Prop :=
  0 < p.resetInterval ∧ 0 < s.timeoutNoCamInit ∧ s.timeoutNoCamInit < s.now

/-- The outcomes of the check and the reset. -/
inductive InitOutcome (p : CamParameters) (s : CamState) : CamState → Prop where
  | waits (notYet : ¬ (s.caInfoOkTime = 0 ∧ Late p s)) : InitOutcome p s s
  | resets (unanswered : s.caInfoOkTime = 0) (late : Late p s)
      (left : p.linkInterface = true ∧ s.resetCounts < p.maxResetNumber) :
      InitOutcome p s ({ s with
        needReset := false
        resetCounts := s.resetCounts + 1
        timeoutNoCamInit := s.now + p.resetInterval }.record (.reset s.now))
  | exits (unanswered : s.caInfoOkTime = 0) (late : Late p s)
      (spent : ¬ (p.linkInterface = true ∧ s.resetCounts < p.maxResetNumber)) :
      InitOutcome p s (s.record (.exit .noCamInit s.now))

theorem checkInit_outcome (hneed : s.needReset = false) :
    InitOutcome p s (s.checkInit p).resetIfNeeded := by
  have hstays : ∀ e, (s.record e).resetIfNeeded = s.record e := fun e => by
    rw [CamState.resetIfNeeded, CamState.record, hneed]
    rfl
  rw [CamState.checkInit]
  split
  · rename_i hlate
    obtain ⟨hunanswered, hpositive, htime, hinterval⟩ := hlate
    split
    · rename_i hlink
      split
      · rename_i hleft
        exact .resets hunanswered ⟨hinterval, hpositive, htime⟩ ⟨hlink, hleft.2⟩
      · rename_i hspent
        have hmax : ¬ s.resetCounts < p.maxResetNumber := fun hless => hspent ⟨hneed, hless⟩
        rw [if_pos (Int.not_lt.mp hmax), hstays]
        exact .exits hunanswered ⟨hinterval, hpositive, htime⟩ fun hleft => hmax hleft.2
    · rename_i hhigh
      rw [hstays]
      exact .exits hunanswered ⟨hinterval, hpositive, htime⟩ fun hleft => hhigh hleft.1
  · rename_i hnot
    rw [CamState.resetIfNeeded, hneed]
    exact .waits fun hlate => hnot ⟨hlate.1, hlate.2.2.1, hlate.2.2.2, hlate.2.1⟩

theorem Core.checkInit (h : Core p s) : Core p (s.checkInit p).resetIfNeeded := by
  have houtcome : InitOutcome p s _ := checkInit_outcome h.needReset
  generalize (s.checkInit p).resetIfNeeded = s' at houtcome ⊢
  cases houtcome with
  | waits => exact h
  | resets unanswered late left =>
    rw [h.counts] at left
    have htime := late.2.2
    rw [h.deadline] at htime
    exact h.reset ⟨h.unanswered unanswered, left.1, left.2, htime⟩
  | exits unanswered late spent =>
    rw [h.counts] at spent
    have htime := late.2.2
    rw [h.deadline] at htime
    exact h.neutral ⟨h.unanswered unanswered, htime,
      fun hlink => Int.not_lt.mp fun hless => spent ⟨hlink, hless⟩⟩ trivial

theorem Core.poll {infos : List Int} (h : Core p s) (htimes : ∀ time ∈ infos, time ≠ 0)
    (errorNew : Int) : Core p (s.poll p infos errorNew) :=
  { ((h.caInfos htimes).checkError errorNew).checkInit with }

theorem caInfos_channels (s : CamState) (infos : List Int) :
    (infos.foldl CamState.caInfo s).channels = s.channels := by
  induction infos generalizing s with
  | nil => rfl
  | cons time infos ih => exact ih (s.caInfo time)

theorem checkError_channels (s : CamState) (errorNew : Int) :
    (s.checkError errorNew).channels = s.channels := by
  rw [CamState.checkError]
  split
  · dsimp only
    split <;> rfl
  · rfl

theorem poll_channels {infos : List Int} (h : Core p s) (htimes : ∀ time ∈ infos, time ≠ 0)
    (errorNew : Int) : (s.poll p infos errorNew).channels = s.channels := by
  have hbefore := (checkError_channels _ errorNew).trans (caInfos_channels s infos)
  have houtcome : InitOutcome p _ _ :=
    checkInit_outcome ((h.caInfos htimes).checkError errorNew).needReset
  rw [CamState.poll]
  generalize (((infos.foldl CamState.caInfo s).checkError errorNew).checkInit p).resetIfNeeded = s'
    at houtcome ⊢
  cases houtcome <;> exact hbefore

end core

/-- What every run keeps. -/
structure Inv (p : CamParameters) (s : CamState) : Prop where
  core : Core p s
  checking : ∀ i, s.thread = .channel i ∨ s.thread = .reasking i →
    0 < p.camReaskInterval ∧ Connected p s.trace
  found : ∀ i, s.thread = .reasking i →
    s.trace.find? ofThread = some (.found i s.time) ∧ Added i s.trace
  marked : ∀ i c, s.thread = .reasking i → s.channels[i]? = some c → c.reasking = true

section added

/-- What is done to a channel that the CAM has is no news for the CAM. -/
structure StaysAdded (c c' : Asking) : Prop where
  added : WasAdded c' → WasAdded c
  reasking : c'.reasking = c.reasking

theorem StaysAdded.refl (c : Asking) : StaysAdded c c := ⟨id, rfl⟩

/-- The flag of a PMT that is accepted. -/
theorem announce_added {channel : PmtChannel}
    (h : (announce channel).needCamAsk = .asked ∨ (announce channel).needCamAsk = .needUpdate) :
    channel.needCamAsk = .asked ∨ channel.needCamAsk = .needUpdate := by
  rw [announce] at h
  dsimp only at h
  split at h
  · exact .inl ‹_›
  · exact h

theorem chanPmtOk_needCamAsk (channel : PmtChannel) :
    (chanPmtOk channel).2.needCamAsk = channel.needCamAsk := by
  rw [chanPmtOk]
  (repeat' split) <;> rfl

theorem pmtLoop_added {fuel : Nat} {buf : Option Packet} {channel channel' : PmtChannel}
    (h : pmtLoop fuel buf channel = .ok channel')
    (hadded : channel'.needCamAsk = .asked ∨ channel'.needCamAsk = .needUpdate) :
    channel.needCamAsk = .asked ∨ channel.needCamAsk = .needUpdate := by
  induction fuel generalizing buf channel with
  | zero => cases h
  | succ fuel ih =>
    rw [pmtLoop] at h
    split at h
    · obtain ⟨⟨avail, pmtPacket⟩, -, h⟩ := bind_eq_ok.mp h
      dsimp only at h
      split at h
      · have hstep := ih h
        split at hstep
        · have hok := announce_added hstep
          rw [chanPmtOk_needCamAsk] at hok
          exact hok
        · rw [chanPmtOk_needCamAsk] at hstep
          exact hstep
      · cases h
        exact hadded
    · cases h
      exact hadded

theorem takePacket_added {mem : TableMemory} {pid : Nat} {c c' : Asking}
    (h : takePacket mem pid c = .ok c') : StaysAdded c c' := by
  obtain ⟨channel, htake, heq⟩ := bind_eq_ok.mp h
  cases heq
  refine ⟨fun hadded => ?_, rfl⟩
  rw [takePmt] at htake
  split at htake
  · obtain ⟨channel₁, hcheck, hloop⟩ := bind_eq_ok.mp htake
    have hbefore := pmtLoop_added hloop hadded
    have hsame : channel₁.needCamAsk = c.chan.needCamAsk := by
      split at hcheck
      · cases hcheck
        rfl
      · obtain rfl | rfl := chanPmtNeedUpdate_cases hcheck <;> rfl
    rw [hsame] at hbefore
    exact hbefore
  · cases htake
    exact hadded

theorem chanUpdateCam_added (autoconfScrambled scamSupport : Bool) (chan : CamChannel)
    (h : (chanUpdateCam autoconfScrambled scamSupport chan).needCamAsk = .asked ∨
      (chanUpdateCam autoconfScrambled scamSupport chan).needCamAsk = .needUpdate) :
    chan.needCamAsk = .asked ∨ chan.needCamAsk = .needUpdate := by
  have hscam : ∀ chan : CamChannel,
      (updateScamAsk scamSupport chan).needCamAsk = chan.needCamAsk := by
    intro chan
    rw [updateScamAsk]
    (repeat' split) <;> rfl
  rw [chanUpdateCam] at h
  split at h
  · exact h
  · rw [hscam, updateCamAsk] at h
    split at h
    · dsimp only at h
      cases hask : chan.needCamAsk <;> rw [hask] at h <;> simp [refreshed] at h ⊢
    · exact h

/-- What the threads other than that of the CAM do to the channels. -/
theorem other_added {lib : Libucsi} {channels channels' : List Asking} {e : CamPmt.Event}
    (hother : IsOther e) (h : CamPmt.Step lib channels e channels') (i : Nat) (c' : Asking)
    (hc' : channels'[i]? = some c') : ∃ c, channels[i]? = some c ∧ StaysAdded c c' := by
  have hset : ∀ {j : Nat} {old new : Asking}, channels[j]? = some old → StaysAdded old new →
      (channels.set j new)[i]? = some c' → ∃ c, channels[i]? = some c ∧ StaysAdded c c' := by
    intro j old new hold hnew hfound
    refine forall_set (Q := fun i c' => ∃ c, channels[i]? = some c ∧ StaysAdded c c') hold
      ⟨old, hold, hnew⟩ (fun k c _ hc => ⟨c, hc, .refl c⟩) i c' hfound
  cases h with
  | packet call =>
    have hall := mapM_eq_ok.mp call
    obtain ⟨hlen, hget⟩ := List.forall₂_iff_get.mp hall
    obtain ⟨hi, rfl⟩ := List.getElem?_eq_some_iff.mp hc'
    have hi' : i < channels.length := by omega
    exact ⟨channels[i], List.getElem?_eq_getElem hi', takePacket_added (hget i hi' hi)⟩
  | reset here =>
    refine hset here ?_ hc'
    exact ⟨id, rfl⟩
  | updateCam =>
    rw [List.getElem?_map] at hc'
    obtain ⟨c, hc, rfl⟩ := Option.map_eq_some_iff.mp hc'
    exact ⟨c, hc, chanUpdateCam_added _ _ c.chan, rfl⟩
  | found | reask | cam => cases hother
  | rest here same =>
    refine hset here ⟨fun hadded => ?_, same.reasking⟩ hc'
    rw [WasAdded, same.needCamAsk] at hadded
    exact hadded

end added

section steps

variable {lib : Libucsi} {p : CamParameters} {s s' : CamState} {e : Event}

theorem Initial.core (h : Initial p s) : Core p s where
  lawful := by
    rw [h.trace]
    trivial
  unanswered := fun _ time hmem => by
    rw [h.trace] at hmem
    cases hmem
  answered := fun hne => absurd h.caInfoOkTime hne
  connected := fun hyes => absurd (h.caResourceConnected.symm.trans hyes) (by decide)
  sendTime := fun stored hstored => by
    rw [h.trace] at hstored
    cases hstored
  askingTime := fun i last hlast => by
    rw [h.trace] at hlast
    cases hlast
  counts := by
    rw [h.trace, h.resetCounts]
    rfl
  deadline := by
    rw [h.trace, h.timeoutNoCamInit]
    rfl
  needReset := h.needReset
  added := fun i c hc hwas => by
    obtain ⟨hfresh, hupdate⟩ := h.channels c (List.mem_of_getElem? hc)
    exact absurd hwas (not_or.mpr ⟨hfresh.2.1, hupdate⟩)

/-- Outside the loop over the channels only the core matters. -/
theorem Core.inv (h : Core p s) (hthread : s.thread = .top ∨ s.thread = .poll) : Inv p s where
  core := h
  checking := fun i hat => by
    obtain hthread | hthread := hthread <;> rw [hthread] at hat <;> simp at hat
  found := fun i hat => by
    obtain hthread | hthread := hthread <;> rw [hthread] at hat <;> cases hat
  marked := fun i c hat => by
    obtain hthread | hthread := hthread <;> rw [hthread] at hat <;> cases hat

theorem Inv.wake (h : Inv p s) (time : Int) : Inv p (s.wake p time) := by
  have hcore : Core p (({ s with time }.record (.wake time)).checkConnected p) := by
    have hsame : Core p { s with time } := { h.core with }
    exact (hsame.neutral (e := .wake time) trivial trivial).checkConnected rfl
  rw [CamState.wake]
  split
  · rename_i hchecks
    exact ⟨{ hcore with }, fun i _ => ⟨hchecks.2.1, hcore.connected hchecks.1⟩,
      fun i hat => (by cases hat), fun i c hat => (by cases hat)⟩
  · exact Core.inv { hcore with } (.inr rfl)

theorem Inv.look {i : Nat} (h : Inv p s) (hat : s.thread = .channel i) (down : Bool) :
    Inv p (s.look p down i) := by
  obtain ⟨hinterval, hconnected⟩ := h.checking i (.inl hat)
  rw [CamState.look]
  split
  · exact Core.inv { h.core with } (.inr rfl)
  · rename_i c hc
    split
    · rename_i hneeds
      obtain ⟨-, hasked, -, hlate⟩ := hneeds
      have hadded : Added i s.trace := h.core.added i c hc (.inl hasked)
      have hpermitted : Permitted p (.found i s.time) s.trace := by
        refine ⟨hinterval, hconnected, hadded, fun last hlast => ?_⟩
        rw [← h.core.askingTime i last hlast]
        exact hlate
      have hcore := h.core.neutral hpermitted trivial
      refine ⟨{ hcore with added := ?_ }, fun j _ => ⟨hinterval, hconnected.cons _⟩, ?_, ?_⟩
      · exact forall_set hc (fun _ => hadded.cons _)
          (fun j d _ hd hwas => (h.core.added j d hd hwas).cons _)
      · intro j hj
        cases hj
        exact ⟨rfl, hadded.cons _⟩
      · intro j d hj hd
        cases hj
        dsimp only [CamState.record] at hd
        rw [List.getElem?_set_self (List.getElem?_eq_some_iff.mp hc).1] at hd
        cases hd
        rfl
    · exact ⟨{ h.core with }, fun j _ => ⟨hinterval, hconnected⟩, fun j hat => (by cases hat),
        fun j d hat => (by cases hat)⟩

/-- The times of the other channels stay. -/
theorem lastAsked_update {i : Nat} {time : Int} {e : Entry} {before : List Entry}
    {times : Nat → Int} (h : ∀ j last, lastAsked j before = some last → times j = last)
    (hsame : ∀ j, lastAsked j (e :: before) = if i = j then some time else lastAsked j before) :
    ∀ j last, lastAsked j (e :: before) = some last → Function.update times i time j = last := by
  intro j last hlast
  rw [hsame] at hlast
  by_cases hij : i = j
  · subst hij
    rw [if_pos rfl] at hlast
    cases hlast
    exact Function.update_self i time times
  · rw [if_neg hij] at hlast
    rw [Function.update_of_ne (Ne.symm hij)]
    exact h j last hlast

theorem lastAsked_reask (i j : Nat) (time : Int) (before : List Entry) :
    lastAsked j (.reask i time :: before) =
      if i = j then some time else lastAsked j before := by
  rw [lastAsked, List.findSome?_cons]
  dsimp only
  by_cases hij : i = j
  · rw [if_pos hij, if_pos hij]
  · rw [if_neg hij, if_neg hij]
    rfl

theorem lastAsked_ask (i j : Nat) (management : ListManagement) (checked stored time : Int)
    (before : List Entry) : lastAsked j (.ask i management checked stored time :: before) =
      if i = j then some time else lastAsked j before := by
  rw [lastAsked, List.findSome?_cons]
  dsimp only
  by_cases hij : i = j
  · rw [if_pos hij, if_pos hij]
  · rw [if_neg hij, if_neg hij]
    rfl

theorem Inv.reask {i : Nat} {c : Asking} (h : Inv p s) (hat : s.thread = .reasking i)
    (hc : s.channels[i]? = some c) : Inv p (s.reask i c) := by
  obtain ⟨hinterval, hconnected⟩ := h.checking i (.inr hat)
  obtain ⟨hfound, hadded⟩ := h.found i hat
  refine ⟨⟨⟨hfound, h.core.lawful⟩, fun hzero time hmem => ?_,
    fun hne => List.mem_cons_of_mem _ (h.core.answered hne),
    fun hyes => (h.core.connected hyes).cons _, h.core.sendTime,
    lastAsked_update h.core.askingTime (lastAsked_reask i · s.time s.trace),
    h.core.counts, h.core.deadline, h.core.needReset, ?_⟩,
    fun j _ => ⟨hinterval, hconnected.cons _⟩, fun j hat => (by cases hat),
    fun j d hat => (by cases hat)⟩
  · obtain heq | hmem := List.mem_cons.mp hmem
    · cases heq
    · exact h.core.unanswered hzero time hmem
  · exact forall_set hc (fun _ => hadded.cons _)
      (fun j d _ hd hwas => (h.core.added j d hd hwas).cons _)

theorem Inv.other {channels : List Asking} {e : CamPmt.Event} (h : Inv p s)
    (hother : IsOther e) (hstep : CamPmt.Step lib s.channels e channels) :
    Inv p { s with channels } := by
  have hsame := other_added hother hstep
  refine ⟨{ h.core with added := fun i c' hc' hwas => ?_ }, h.checking, h.found,
    fun i c' hat hc' => ?_⟩
  · obtain ⟨c, hc, hstays⟩ := hsame i c' hc'
    exact h.core.added i c hc (hstays.added hwas)
  · obtain ⟨c, hc, hstays⟩ := hsame i c' hc'
    exact hstays.reasking.trans (h.marked i c hat hc)

/-- What `cam_new_packet` does to the flag of a channel. -/
theorem camNewPacket_needCamAsk (lib : Libucsi) (pid : Nat) (cam : Cam) (c : Asking) :
    (camNewPacket lib pid cam c).chan.needCamAsk =
        (if Sends lib pid cam c then .asked else c.chan.needCamAsk) ∧
      (camNewPacket lib pid cam c).reasking = c.reasking := by
  rw [camNewPacket]
  by_cases hreaches : Reaches pid c
  · obtain ⟨hflag, hpid, hlen, hdone, hcheck⟩ := hreaches
    rw [if_pos ⟨hflag, hpid⟩, if_pos ⟨hlen, hdone⟩, if_pos hcheck]
    dsimp only
    by_cases hret : (mumudvbCamNewPmt lib cam c.chan.pmtPacket).1 = .sent
    · have hsends : Sends lib pid cam c := ⟨⟨hflag, hpid, hlen, hdone, hcheck⟩, hret⟩
      rw [if_pos hret, if_pos hsends]
      exact ⟨rfl, rfl⟩
    · have hnot : ¬ Sends lib pid cam c := fun hsends => hret hsends.2
      rw [if_neg hret, if_neg hnot]
      exact ⟨rfl, rfl⟩
  · have hnot : ¬ Sends lib pid cam c := fun hsends => hreaches hsends.1
    rw [if_neg hnot]
    split
    · rename_i hflag
      split
      · rename_i hready
        split
        · rename_i hcheck
          exact absurd ⟨hflag.1, hflag.2, hready.1, hready.2, hcheck⟩ hreaches
        · exact ⟨rfl, rfl⟩
      · exact ⟨rfl, rfl⟩
    · exact ⟨rfl, rfl⟩

/-- A channel that is asked for has been added, now or before. -/
theorem Core.ask {i pid : Nat} {cam : Cam} {checked stored time : Int} {c : Asking} (h : Core p s)
    (hc : s.channels[i]? = some c) (hconnected : s.caResourceConnected = true)
    (hinterval : p.camIntervalPmtSend ≤ checked - s.camPmtSendTime) :
    Core p (s.ask lib i pid cam checked stored time c) := by
  obtain ⟨hflag, -⟩ := camNewPacket_needCamAsk lib pid cam c
  rw [CamState.ask]
  split
  · rename_i hsends
    have hupdate : managementOf c.chan = .update → Added i s.trace := by
      intro hmanagement
      rw [managementOf] at hmanagement
      split at hmanagement
      · exact h.added i c hc (.inr ‹_›)
      · cases hmanagement
    have hadded : Added i (.ask i (managementOf c.chan) checked stored time :: s.trace) := by
      cases hmanagement : managementOf c.chan with
      | add => exact ⟨checked, stored, time, List.mem_cons_self⟩
      | update => exact (hupdate hmanagement).cons _
    have hspaced : ∀ last, lastStored s.trace = some last →
        p.camIntervalPmtSend ≤ checked - last := by
      intro last hlast
      rw [← h.sendTime last hlast]
      exact hinterval
    refine ⟨⟨⟨h.connected hconnected, hupdate, hspaced⟩, h.lawful⟩, fun hzero t hmem => ?_,
      fun hne => List.mem_cons_of_mem _ (h.answered hne), fun hyes => (h.connected hyes).cons _,
      fun last hlast => Option.some.inj hlast,
      lastAsked_update h.askingTime
        (lastAsked_ask i · (managementOf c.chan) checked stored time s.trace),
      h.counts, h.deadline, h.needReset, ?_⟩
    · obtain heq | hmem := List.mem_cons.mp hmem
      · cases heq
      · exact h.unanswered hzero t hmem
    · exact forall_set hc (fun _ => hadded)
        (fun j d _ hd hwas => (h.added j d hd hwas).cons _)
  · rename_i hnot
    rw [if_neg hnot] at hflag
    refine { h with
      added := forall_set hc (fun hwas => ?_) fun j d _ hd hwas => h.added j d hd hwas }
    rw [WasAdded, hflag] at hwas
    exact h.added i c hc hwas

theorem Inv.ask {i pid : Nat} {cam : Cam} {checked stored time : Int} {c : Asking} (h : Inv p s)
    (hc : s.channels[i]? = some c) (hconnected : s.caResourceConnected = true)
    (hinterval : p.camIntervalPmtSend ≤ checked - s.camPmtSendTime) :
    Inv p (s.ask lib i pid cam checked stored time c) := by
  have hcore : Core p (s.ask lib i pid cam checked stored time c) :=
    h.core.ask hc hconnected hinterval
  obtain ⟨-, hreasking⟩ := camNewPacket_needCamAsk lib pid cam c
  have hmarked : ∀ (j : Nat) (d : Asking),
      (s.channels.set i (camNewPacket lib pid cam c))[j]? = some d →
        s.thread = .reasking j → d.reasking = true :=
    forall_set hc (fun hat => hreasking.trans (h.marked i c hat hc))
      (fun j d _ hd hat => h.marked j d hat hd)
  rw [CamState.ask] at hcore ⊢
  split at hcore
  · rename_i hsends
    rw [if_pos hsends]
    refine ⟨hcore, fun j hat => ?_, fun j hat => ?_, fun j d hat hd => hmarked j d hd hat⟩
    · obtain ⟨hpositive, hconnected⟩ := h.checking j hat
      exact ⟨hpositive, hconnected.cons _⟩
    · obtain ⟨hfound, hadded⟩ := h.found j hat
      exact ⟨hfound, hadded.cons _⟩
  · rename_i hnot
    rw [if_neg hnot]
    exact ⟨hcore, h.checking, h.found, fun j d hat hd => hmarked j d hd hat⟩

theorem Inv.step (h : Inv p s) (hstep : Step lib p s e s') : Inv p s' := by
  cases hstep with
  | wake top => exact h.wake _
  | look channel => exact h.look channel _
  | reask reasking here => exact h.reask reasking here
  | poll poll times => exact (h.core.poll times _).inv (.inl rfl)
  | other isOther step => exact h.other isOther step
  | ask here connected interval => exact h.ask here connected interval

end steps

section runs

variable {lib : Libucsi} {p : CamParameters} {past : List Event} {s s' : CamState}

/-- In the model of the asking that knows no times, the same steps are steps, or nothing. -/
theorem step_asking {e : Event} (h : Inv p s) (hstep : Step lib p s e s') :
    s'.channels = s.channels ∨ ∃ e', CamPmt.Step lib s.channels e' s'.channels := by
  cases hstep with
  | wake top =>
    rw [CamState.wake, CamState.checkConnected]
    (repeat' split) <;> exact .inl rfl
  | look channel =>
    rw [CamState.look]
    split
    · exact .inl rfl
    · rename_i c hc
      split
      · rename_i hneeds
        exact .inr ⟨_, .found hc hneeds.2.1 hneeds.2.2.1⟩
      · exact .inl rfl
  | reask reasking here => exact .inr ⟨_, .reask here (h.marked _ _ reasking here)⟩
  | poll poll times => exact .inl (poll_channels h.core times _)
  | other isOther step => exact .inr ⟨_, step⟩
  | ask here connected interval =>
    rw [CamState.ask]
    split <;> exact .inr ⟨_, .cam here⟩

theorem camSystem_inv (hrun : Run (camSystem lib p) past s) :
    Inv p s ∧ ∃ past', Run (CamPmt.system lib) past' s.channels := by
  refine Run.invariant
    (P := fun _ s => Inv p s ∧ ∃ past', Run (CamPmt.system lib) past' s.channels) ?_ ?_ hrun
  · exact fun s h => ⟨h.core.inv (.inl h.thread), [], .start fun c hc => (h.channels c hc).1⟩
  · rintro past s e s' ⟨hinv, past', hasking⟩ hstep
    refine ⟨hinv.step hstep, ?_⟩
    obtain hsame | ⟨e', hstep'⟩ := step_asking hinv hstep
    · exact ⟨past', hsame ▸ hasking⟩
    · exact ⟨e' :: past', hasking.next hstep'⟩

/-- However the two threads take turns: a section is sent only after the delay behind a CA info,
with the interval to the one before, as an update only after it was added, and the CAM is asked
again for a channel only after the interval; a CAM that does not answer is reset only so often.
The channels go through a run of the asking. -/
theorem camSystem_lawful (hrun : Run (camSystem lib p) past s) :
    Lawful (Permitted p) s.trace ∧ ∃ past', Run (CamPmt.system lib) past' s.channels :=
  ⟨(camSystem_inv hrun).1.core.lawful, (camSystem_inv hrun).2⟩

end runs

section patience

variable {lib : Libucsi} {p : CamParameters} {past : List Event} {s : CamState}
  {before : List Entry}

theorem resets_le (h : Lawful (Permitted p) before) :
    (resets before : Int) ≤ max 0 p.maxResetNumber := by
  induction before with
  | nil => exact Int.le_max_left _ _
  | cons e before ih =>
    obtain ⟨hpermitted, hbefore⟩ := h
    have hle := ih hbefore
    rw [resets_cons]
    cases e with
    | reset now =>
      obtain ⟨-, -, hless, -⟩ := hpermitted
      simp only [isReset, Bool.toNat_true]
      omega
    | _ => exact hle

/-- Every reset moves the deadline by more than the interval. -/
theorem deadline_ge (h : Lawful (Permitted p) before) :
    p.timeoutNoCamInit + resets before * p.resetInterval ≤ deadline p before := by
  induction before with
  | nil => simp [resets, deadline]
  | cons e before ih =>
    obtain ⟨hpermitted, hbefore⟩ := h
    have hle := ih hbefore
    cases e with
    | reset now =>
      obtain ⟨-, -, -, hlate⟩ := hpermitted
      have hdeadline : deadline p (.reset now :: before) = now + p.resetInterval := rfl
      have hresets : resets (.reset now :: before) = resets before + 1 := resets_cons
      rw [hdeadline, hresets, Int.natCast_add, Int.natCast_one, Int.add_mul, Int.one_mul]
      omega
    | _ => exact hle

theorem not_connected (h : Unanswered before) : ¬ Connected p before := by
  rintro ⟨infoTime, wakeTime, -, -, hsub⟩
  exact h infoTime (hsub.subset (by simp))

/-- What an iteration makes of a CAM that has not said what it supports, in terms of the trace. -/
def awaited (p : CamParameters) (now : Int) (before : List Entry) : List Entry :=
  if 0 < p.resetInterval ∧ 0 < deadline p before ∧ deadline p before < now then
    if p.linkInterface ∧ (resets before : Int) < p.maxResetNumber then .reset now :: before
    else .exit .noCamInit now :: before
  else before

theorem poll_unanswered (h : Core p s) (hunanswered : Unanswered s.trace) (errorNew : Int) :
    (s.poll p [] errorNew).trace = awaited p s.now s.trace := by
  have hnone : s.caInfoOkTime = 0 := by
    by_contra hsome
    exact hunanswered s.caInfoOkTime (h.answered hsome)
  have hconnected : s.caResourceConnected = false :=
    Bool.eq_false_iff.mpr fun hyes => not_connected hunanswered (h.connected hyes)
  have herror : s.checkError errorNew = { s with errorOld := errorNew } := by
    rw [CamState.checkError]
    split
    · exact if_neg (ne_true_of_eq_false hconnected)
    · rename_i hsame
      rw [not_not.mp hsame]
  have hcore : Core p { s with errorOld := errorNew } := { h with }
  have houtcome : InitOutcome p { s with errorOld := errorNew } _ :=
    checkInit_outcome hcore.needReset
  rw [CamState.poll, List.foldl_nil, herror, awaited, ← h.deadline, ← h.counts]
  generalize ({ s with errorOld := errorNew }.checkInit p).resetIfNeeded = s' at houtcome ⊢
  cases houtcome with
  | waits notYet => exact (if_neg fun hlate => notYet ⟨hnone, hlate⟩).symm
  | resets _ late left => exact ((if_pos late).trans (if_pos left)).symm
  | exits _ late spent => exact ((if_pos late).trans (if_neg spent)).symm

/-- A CAM that does not say what it supports is given its time: the first timeout, and the
interval after each of the resets, all of which are made before the program ends. -/
theorem camSystem_patient (hrun : Run (camSystem lib p) past s) :
    (resets s.trace : Int) ≤ max 0 p.maxResetNumber ∧
    (∀ after now before, s.trace = after ++ .exit .noCamInit now :: before →
      Unanswered before ∧ p.timeoutNoCamInit + resets before * p.resetInterval < now ∧
        (p.linkInterface = true → (resets before : Int) = max 0 p.maxResetNumber)) ∧
    (∀ errorNew, Unanswered s.trace →
      (s.poll p [] errorNew).trace = awaited p s.now s.trace) := by
  have hcore := (camSystem_inv hrun).1.core
  refine ⟨resets_le hcore.lawful, fun after now before hsplit => ?_, fun errorNew hunanswered =>
    poll_unanswered hcore hunanswered errorNew⟩
  have hlawful := hcore.lawful
  rw [hsplit] at hlawful
  obtain ⟨hunanswered, hlate, hspent⟩ := hlawful.at_entry
  have hbefore := hlawful.of_append.2
  refine ⟨hunanswered, Int.lt_of_le_of_lt (deadline_ge hbefore) hlate, fun hlink => ?_⟩
  have hle := resets_le hbefore
  have hge := hspent hlink
  omega

end patience

/-! A CAM that answers at once, and one that does not. -/

def quick : CamParameters where
  camDelayPmtSend := 0
  camReaskInterval := 0
  camIntervalPmtSend := 3
  resetInterval := 1
  maxResetNumber := 1
  timeoutNoCamInit := 1
  linkInterface := true

def startWith (channels : List Asking) : CamState where
  caInfoOkTime := 0
  caResourceConnected := false
  camPmtSendTime := 0
  needReset := false
  resetCounts := 0
  timeoutNoCamInit := 1
  realStartTime := 100
  time := 0
  lastChannelCheck := 0
  errorOld := 0
  thread := .top
  channels
  camAskingTime _ := 0
  trace := []

theorem startWith_asking : Initial quick (startWith [asking 1]) := by
  refine ⟨rfl, rfl, rfl, rfl, rfl, rfl, fun c hc => ?_, rfl⟩
  rw [List.mem_singleton.mp hc]
  exact ⟨asking_fresh 1, by decide⟩

/-- The channel after its PMT has been received. -/
theorem received_sends : ([firstMemory, firstMemory].foldlM
    (fun (channels : List Asking) mem => channels.mapM (takePacket mem 256)) [asking 1]).map
      (fun channels => channels.map fun c =>
        (decide (Sends plain 256 ready c), managementOf c.chan)) = .ok [(true, .add)] := by
  decide +kernel

/-- The CAM answers, and is asked for the channel. -/
theorem camSystem_lawful_quick : ∃ past s, Run (camSystem plain quick) past s ∧
    s.trace = [.ask 0 .add 3 3 102, .wake 102, .info 100, .wake 100] ∧
    Lawful (Permitted quick) s.trace := by
  obtain ⟨channels, hplay, hvalues⟩ := map_eq_ok received_sends
  obtain ⟨channels₁, hfirst, hplay⟩ := bind_eq_ok.mp hplay
  obtain ⟨channels₂, hsecond, heq⟩ := bind_eq_ok.mp hplay
  cases heq
  obtain ⟨c, rfl, hc⟩ := List.map_eq_singleton_iff.mp hvalues
  obtain ⟨hsends, hadd⟩ := Prod.mk.inj hc
  have hask : ∀ s : CamState, s.ask plain 0 256 ready 3 3 102 c =
      { s with
        channels := s.channels.set 0 (camNewPacket plain 256 ready c)
        camPmtSendTime := 3
        camAskingTime := Function.update s.camAskingTime 0 102 }.record (.ask 0 .add 3 3 102) := by
    intro s
    rw [CamState.ask, if_pos (of_decide_eq_true hsends), hadd]
  have hstart : Run (camSystem plain quick) [] (startWith [asking 1]) := .start startWith_asking
  have hrun := ((((hstart.next
    (show (camSystem plain quick).Step _ (.other (.packet firstMemory 256)) _ from
      .other trivial (.packet hfirst))).next
    (show (camSystem plain quick).Step _ (.other (.packet firstMemory 256)) _ from
      .other trivial (.packet hsecond))).next
    (show (camSystem plain quick).Step _ (.wake 100) _ from .wake rfl)).next
    (show (camSystem plain quick).Step _ (.poll [100] 0) _ from .poll rfl (by simp))).next
    (show (camSystem plain quick).Step _ (.wake 102) _ from .wake rfl)
  have hlast := hrun.next
    (show (camSystem plain quick).Step _ (.ask 0 256 ready 3 3 102) _ from
      .ask rfl rfl (show (3 : Int) ≤ 3 - 0 by decide))
  refine ⟨_, _, hlast, ?_, (camSystem_lawful hlast).1⟩
  exact congrArg CamState.trace (hask _)

/-- Without an answer there is a reset, and then the end. -/
theorem camSystem_patient_quick : ∃ past s, Run (camSystem plain quick) past s ∧
    s.trace = [.exit .noCamInit 4, .wake 104, .reset 2, .wake 102] ∧
    (resets s.trace : Int) ≤ max 0 quick.maxResetNumber := by
  have hstart : Run (camSystem plain quick) [] (startWith []) :=
    .start ⟨rfl, rfl, rfl, rfl, rfl, rfl, fun c hc => (by cases hc), rfl⟩
  have hrun := (((hstart.next
    (show (camSystem plain quick).Step _ (.wake 102) _ from .wake rfl)).next
    (show (camSystem plain quick).Step _ (.poll [] 0) _ from .poll rfl (by simp))).next
    (show (camSystem plain quick).Step _ (.wake 104) _ from .wake rfl)).next
    (show (camSystem plain quick).Step _ (.poll [] 0) _ from .poll rfl (by simp))
  exact ⟨_, _, hrun, rfl, (camSystem_patient hrun).1⟩

end MuMuDVB.CamThread
