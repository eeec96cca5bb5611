import Mathlib.Algebra.Order.Field.Rat
import MuMuDVB.OutputFrames
import MuMuDVB.RecordedRun
import MuMuDVB.TwoThresholds

/-!
# The monitor thread

Each round of `monitor_func` looks at the counters of the channels and decides
which are up and which are scrambled. The thread takes the lock of one channel's
counters at a time, so packets that another thread sends are counted between any
two of its critical sections. A channel is an entry of the array of all channels;
one that is not in use is not ready.
-/
namespace MuMuDVB.Monitor

open CheckedMemory RecordedRun TwoThresholds MuMuDVB.TsHeader MuMuDVB.Channel MuMuDVB.OutputFrames

/-- The values of `scrambled_channel`. -/
inductive ScramblingState where
  | fullyUnscrambled | partiallyUnscrambled | highlyScrambled
  deriving DecidableEq, Repr

/-- The channel as the monitor sees it, with the counters of its output. -/
structure MonitoredChannel extends OutputChannel where
  channelReady : ChanStatus
  hasTraffic : Bool
  ratioScrambled : Nat
  scrambledChannel : ScramblingState
  /-- `pid_i.pids_scrambled` -/
  pidsScrambled : List Bool
  /-- in kilobytes a second -/
  traffic : ℚ

structure MonitorParameters where
  dontSendScrambled : Bool
  computeTrafficInterval : Int
  upThreshold : Int
  downThreshold : Int
  timeoutNoDiff : Int
  tuningNoDiff : Int
  /-- `read_file_path` is not empty -/
  readsFile : Bool

/-- The traffic of the time that has passed; the bytes are counted anew. -/
def computeTraffic (timeInterval : Int) (c : MonitoredChannel) : MonitoredChannel :=
  { c with
    traffic := if timeInterval ≠ 0 then (c.sentData : ℚ) / timeInterval * 1 / 1000 else 0
    sentData := 0 }

/-- The percentage of scrambled packets, if there are more than a few. -/
def ratioOf (numPacket numScrambledPackets : Nat) : Nat :=
  if 0 < numPacket ∧ 10 < numScrambledPackets then numScrambledPackets * 100 / numPacket else 0

def checkScrambled (c : MonitoredChannel) : MonitoredChannel :=
  let ratio := ratioOf c.numPacket c.numScrambledPackets
  let state := c.scrambledChannel
  let state := if ratio < 2 ∧ state ≠ .fullyUnscrambled then .fullyUnscrambled else state
  let state :=
    if 5 ≤ ratio ∧ ratio ≤ 75 ∧ state ≠ .partiallyUnscrambled then .partiallyUnscrambled else state
  let state := if 80 < ratio ∧ state ≠ .highlyScrambled then .highlyScrambled else state
  { c with
    ratioScrambled := ratio
    scrambledChannel := state
    pidsScrambled := c.pids.map fun entry => decide (0 < entry.numScrambledPackets)
    pids := c.pids.map fun entry => { entry with numScrambledPackets := 0 } }

/-- `packets_per_sec`. -/
def packetsPerSec (dontSendScrambled : Bool) (elapsed : Int) (numPacket numScrambledPackets : Nat) :
    ℚ :=
  let numScrambled := if dontSendScrambled then numScrambledPackets else 0
  if 0 < elapsed then ((numPacket : ℚ) - numScrambled) / elapsed else 0

def checkUpDown (p : MonitorParameters) (elapsed : Int) (c : MonitoredChannel) : MonitoredChannel :=
  let rate := packetsPerSec p.dontSendScrambled elapsed c.numPacket c.numScrambledPackets
  if (p.upThreshold : ℚ) ≤ rate ∧ c.hasTraffic = false then { c with hasTraffic := true }
  else if c.hasTraffic = true ∧ rate < (p.downThreshold : ℚ) then { c with hasTraffic := false }
  else c

def reinit (c : MonitoredChannel) : MonitoredChannel :=
  { c with numPacket := 0, numScrambledPackets := 0 }

/-- One critical section of a round, and what comes behind the loops. -/
inductive Task where
  | traffic (i : Nat) (timeInterval : Int)
  | scrambled (i : Nat)
  | upDown (i : Nat) (elapsed : Int)
  | reinit (i : Nat)
  | count
  deriving DecidableEq

/-- The variables of the thread, and what it has still to do in this round. -/
structure MonitorVars where
  monitorNow : Int
  lastUpdownCheck : Int
  timeNoDiff : Int
  computeTrafficTime : Int
  todo : List Task

/-- The start of a round: `computeTrafficTime` is set, and the loops are laid out. -/
def beginRound (p : MonitorParameters) (numberOfChannels : Nat) (monitorNow : Int)
    (v : MonitorVars) : MonitorVars :=
  let all := List.range numberOfChannels
  let since := if v.computeTrafficTime = 0 then monitorNow else v.computeTrafficTime
  let due : Bool := p.computeTrafficInterval ≤ monitorNow - since
  { v with
    monitorNow := monitorNow
    computeTrafficTime := if due then monitorNow else since
    todo :=
      (if due then all.map fun i => .traffic i (monitorNow - since) else []) ++
      all.map .scrambled ++
      (if v.lastUpdownCheck ≠ 0 then all.map fun i => .upDown i (monitorNow - v.lastUpdownCheck)
        else []) ++
      all.map .reinit ++ [.count] }

/-- The timer of the time without traffic. -/
def timer (monitorNow timeNoDiff : Int) (active : Bool) : Int :=
  if active then 0 else if timeNoDiff = 0 then monitorNow else timeNoDiff

/-- The timer has run longer than a limit that is set. -/
def expired (monitorNow timeNoDiff limit : Int) : Bool :=
  limit ≠ 0 ∧ timeNoDiff ≠ 0 ∧ limit < monitorNow - timeNoDiff

/-- Packets that are looked at together, in the time since the round before. -/
structure Check where
  window : List Packet
  elapsed : Int

/-- A channel, with a record of its counters. -/
structure Watched where
  channel : MonitoredChannel
  /-- the packets counted since the channel was initialised -/
  counted : List Packet
  /-- those counted since the counters were last reset -/
  window : List Packet
  /-- what the checks for traffic saw -/
  checks : List Check
  /-- what the checks for scrambled packets saw -/
  looks : List (List Packet)
  /-- the bytes sent, and those of them that are in a measurement of the traffic -/
  sent : Nat
  measured : Nat

/-- What a round has found. -/
structure Round where
  time : Int
  active : Bool
  exits : Bool
  tunes : Bool

structure MonitorState where
  watched : List Watched
  vars : MonitorVars
  interrupted : Int
  /-- the rounds so far, the last one first -/
  rounds : List Round

/-- `ERROR_NO_DIFF<<8`. -/
def errorNoDiff : Int := 8 * 256

/-- `set_interrupted`. -/
def setInterrupted (value interrupted : Int) : Int :=
  if value ≠ 0 ∧ interrupted = 0 then value else interrupted

/-- A packet of the channel that the counters take: its PID is one of the channel, not the PMT's. -/
def counts (settings : Settings) (tsPacket : Packet) : Bool :=
  (settings.pids.any fun entry => entry.pid = pid tsPacket.cells ∨ entry.pid = 8192) ∧
    (pid tsPacket.cells : Int) ≠ settings.pmtPid

def isScrambled (tsPacket : Packet) : Bool := 0 < transportScramblingControl tsPacket.cells

def numScrambled (window : List Packet) : Nat := (window.filter isScrambled).length

/-- The bytes of a datagram, with its headers. -/
def sentBytes (rtp : Bool) (sending : Option Sending) : Nat :=
  (sending.map fun sending => sending.payload.length + 20 + 8 +
    (if rtp then rtpHeaderLen else 0)).getD 0

namespace Watched

variable (w : Watched)

def computeTraffic (timeInterval : Int) : Watched :=
  { w with
    channel := Monitor.computeTraffic timeInterval w.channel
    measured := w.measured + w.channel.sentData }

def checkScrambled : Watched :=
  if w.channel.channelReady.isReady then
    { w with channel := Monitor.checkScrambled w.channel, looks := w.looks ++ [w.window] }
  else w

def checkUpDown (p : MonitorParameters) (elapsed : Int) : Watched :=
  if w.channel.channelReady.isReady then
    { w with
      channel := Monitor.checkUpDown p elapsed w.channel
      checks := w.checks ++ [⟨w.window, elapsed⟩] }
  else w

def reinit : Watched :=
  if w.channel.channelReady.isReady then
    { w with channel := Monitor.reinit w.channel, window := [] }
  else w

/-- After `buffer_func`. -/
def packet (tsPacket : Packet) (channel : OutputChannel) (sending : Option Sending) : Watched :=
  let counted := if counts w.channel.toSettings tsPacket then [tsPacket] else []
  { w with
    channel := { w.channel with toOutputChannel := channel }
    counted := w.counted ++ counted
    window := w.window ++ counted
    sent := w.sent + sentBytes w.channel.rtp sending }

/-- After `mumu_init_chan`, as far as the counters go. -/
def mumuInitChan : Watched :=
  { w with
    channel := { w.channel with
      numPacket := 0
      hasTraffic := true
      numScrambledPackets := 0
      scrambledChannel := .fullyUnscrambled }
    counted := []
    window := []
    checks := []
    looks := [] }

/-- After a change by the rest of the program. -/
def configure (settings : Settings) (channelReady : ChanStatus) : Watched :=
  { w with channel := { w.channel with toSettings := settings, channelReady := channelReady } }

end Watched

/-- What comes behind the loops over the channels. -/
def finishRound (p : MonitorParameters) (s : MonitorState) : MonitorState :=
  let now := s.vars.monitorNow
  let active := s.watched.any fun w => w.channel.hasTraffic && w.channel.channelReady.isReady
  let timeNoDiff := timer now s.vars.timeNoDiff active
  let exits := expired now timeNoDiff p.timeoutNoDiff
  let tunes := expired now timeNoDiff p.tuningNoDiff && !p.readsFile
  { s with
    vars := { s.vars with
      lastUpdownCheck := now
      timeNoDiff := if tunes then 0 else timeNoDiff }
    interrupted := if exits then setInterrupted errorNoDiff s.interrupted else s.interrupted
    rounds := ⟨now, active, exits, tunes⟩ :: s.rounds }

def runTask (p : MonitorParameters) (s : MonitorState) : Task → MonitorState
  | .traffic i timeInterval =>
    { s with watched := s.watched.modify i (Watched.computeTraffic · timeInterval) }
  | .scrambled i => { s with watched := s.watched.modify i Watched.checkScrambled }
  | .upDown i elapsed => { s with watched := s.watched.modify i (Watched.checkUpDown · p elapsed) }
  | .reinit i => { s with watched := s.watched.modify i Watched.reinit }
  | .count => finishRound p s

inductive Event where
  /-- a packet for channel `i`, from the thread that sends -/
  | packet (i : Nat) (tsPacket : Packet) (nowTime : UInt64)
  /-- the monitor begins a round -/
  | begin (monitorNow : Int)
  /-- the next task of the round -/
  | task
  | init (i : Nat)
  | configure (i : Nat) (settings : Settings) (channelReady : ChanStatus)
  /-- another thread stops the program -/
  | interrupt (value : Int)

/-- A channel before anything is sent. -/
structure Watched.Fresh (w : Watched) : Prop where
  initialised : w = w.mumuInitChan
  sentData : w.channel.sentData = 0
  sent : w.sent = 0
  measured : w.measured = 0

/-- The monitor and what goes on beside it. -/
def monitoring (p : MonitorParameters) : System MonitorState Event where
  Initial s := (∀ w ∈ s.watched, w.Fresh) ∧ s.vars.lastUpdownCheck = 0 ∧ s.vars.timeNoDiff = 0 ∧
    s.vars.todo = [] ∧ s.interrupted = 0 ∧ s.rounds = []
  Step s e s' :=
    match e with
    | .packet i tsPacket nowTime => ∃ w channel sending, s.watched[i]? = some w ∧
        bufferFunc p.dontSendScrambled nowTime w.channel.toOutputChannel tsPacket =
          .ok (channel, sending) ∧
        s' = { s with watched := s.watched.set i (w.packet tsPacket channel sending) }
    | .begin monitorNow => s.vars.todo = [] ∧
        s' = { s with vars := beginRound p s.watched.length monitorNow s.vars }
    | .task => ∃ task rest, s.vars.todo = task :: rest ∧
        s' = runTask p { s with vars := { s.vars with todo := rest } } task
    | .init i => s' = { s with watched := s.watched.modify i Watched.mumuInitChan }
    | .configure i settings channelReady =>
        s' = { s with watched := s.watched.modify i (Watched.configure · settings channelReady) }
    | .interrupt value => s' = { s with interrupted := setInterrupted value s.interrupted }

section counters

variable {p : MonitorParameters} {w : Watched}

/-- The rate of a check, as the packets themselves tell it. -/
def Check.rate (p : MonitorParameters) (c : Check) : ℚ :=
  packetsPerSec p.dontSendScrambled c.elapsed c.window.length (numScrambled c.window)

def Check.IsHigh (p : MonitorParameters) (c : Check) : Prop := (p.upThreshold : ℚ) ≤ c.rate p
def Check.IsLow (p : MonitorParameters) (c : Check) : Prop := c.rate p < (p.downThreshold : ℚ)

instance (c : Check) : Decidable (c.IsHigh p) := inferInstanceAs (Decidable (_ ≤ _))
instance (c : Check) : Decidable (c.IsLow p) := inferInstanceAs (Decidable (_ < _))

/-- The state that a ratio stands for; between the three ranges it stands for none. -/
def stateOf (ratio : Nat) : Option ScramblingState :=
  if ratio < 2 then some .fullyUnscrambled
  else if 5 ≤ ratio ∧ ratio ≤ 75 then some .partiallyUnscrambled
  else if 80 < ratio then some .highlyScrambled
  else none

def windowState (window : List Packet) : Option ScramblingState :=
  stateOf (ratioOf window.length (numScrambled window))

/-- The counters and the decisions of a channel are what its record says. -/
structure Tracks (p : MonitorParameters) (w : Watched) : Prop where
  numPacket : w.channel.numPacket = w.window.length
  numScrambledPackets : w.channel.numScrambledPackets = numScrambled w.window
  hasTraffic : w.channel.hasTraffic =
    w.checks.foldl (next (Check.IsHigh p) (Check.IsLow p)) true
  scrambledChannel : w.channel.scrambledChannel =
    w.looks.foldl (fun state window => (windowState window).getD state) .fullyUnscrambled
  bytes : w.measured + w.channel.sentData = w.sent

theorem countPid_fst (pid : Nat) (scrambled : Bool) (pids : List CountedPid) :
    (countPid pid scrambled pids).1 = pids.any fun entry => entry.pid = pid ∨ entry.pid = 8192 := by
  induction pids with
  | nil => rfl
  | cons entry pids ih =>
    rw [countPid, List.any_cons]
    by_cases h : entry.pid = pid ∨ entry.pid = 8192
    · simp [h]
    · simp [h, ih]

/-- The counters after a packet. -/
theorem countPacket_counts (channel : OutputChannel) (tsPacket : Packet) :
    (countPacket channel tsPacket).numPacket =
        channel.numPacket + (counts channel.toSettings tsPacket).toNat ∧
      (countPacket channel tsPacket).numScrambledPackets = channel.numScrambledPackets +
        (counts channel.toSettings tsPacket && isScrambled tsPacket).toNat ∧
      (countPacket channel tsPacket).sentData = channel.sentData ∧
      (countPacket channel tsPacket).rtp = channel.rtp := by
  simp [countPacket, counts, isScrambled, countPid_fst]

theorem sendMulticast_counts {channel channel' : OutputChannel} {nowTime : UInt64}
    {payload : List UInt8} {datagram : Option Datagram}
    (h : sendMulticast channel nowTime payload = .ok (channel', datagram)) :
    channel'.numPacket = channel.numPacket ∧
      channel'.numScrambledPackets = channel.numScrambledPackets ∧
      channel'.sentData = channel.sentData := by
  obtain ⟨header, datagram', hsend, -⟩ := sendMulticast_spec channel nowTime payload
  rw [hsend] at h
  cases h
  exact ⟨rfl, rfl, rfl⟩

theorem sendFunc_counts {channel channel' : OutputChannel} {nowTime : UInt64} {sending : Sending}
    (h : sendFunc channel nowTime = .ok (channel', sending)) :
    channel'.numPacket = channel.numPacket ∧
      channel'.numScrambledPackets = channel.numScrambledPackets ∧
      channel'.sentData = channel.sentData + sentBytes channel.rtp (some sending) := by
  obtain ⟨payload, hslice, h⟩ := bind_eq_ok.mp h
  obtain ⟨⟨next, datagram⟩, hsend, h⟩ := bind_eq_ok.mp h
  cases h
  obtain ⟨hpackets, hscrambled, hsent⟩ := sendMulticast_counts hsend
  refine ⟨hpackets, hscrambled, hsent.trans ?_⟩
  have hlength : payload.length = channel.nbBytes := by
    by_cases hbound : 0 + channel.nbBytes ≤ maxUdpSize
    · rw [Buffer.slice_ok _ hbound] at hslice
      cases hslice
      rw [List.drop_zero, List.length_take, channel.buf.length_cells]
      omega
    · rw [Buffer.slice, if_neg hbound] at hslice
      cases hslice
  rw [sentBytes, Option.map_some, Option.getD_some, hlength]

/-- The end of `buffer_func`. -/
theorem sendIfFull_counts {channel channel' : OutputChannel} {nowTime : UInt64}
    {sending : Option Sending}
    (h : (if isFull channel then do
        let (channel, sending) ← sendFunc channel nowTime
        return (channel, some sending)
      else return (channel, none) : Checked (OutputChannel × Option Sending)) =
        .ok (channel', sending)) :
    channel'.numPacket = channel.numPacket ∧
      channel'.numScrambledPackets = channel.numScrambledPackets ∧
      channel'.sentData = channel.sentData + sentBytes channel.rtp sending := by
  split at h
  · obtain ⟨⟨next, sending'⟩, hsend, h⟩ := bind_eq_ok.mp h
    cases h
    exact sendFunc_counts hsend
  · cases h
    exact ⟨rfl, rfl, rfl⟩

theorem bufferFunc_counts {channel channel' : OutputChannel} {dontSendScrambled : Bool}
    {nowTime : UInt64} {tsPacket : Packet} {sending : Option Sending}
    (h : bufferFunc dontSendScrambled nowTime channel tsPacket = .ok (channel', sending)) :
    channel'.numPacket = channel.numPacket + (counts channel.toSettings tsPacket).toNat ∧
      channel'.numScrambledPackets = channel.numScrambledPackets +
        (counts channel.toSettings tsPacket && isScrambled tsPacket).toNat ∧
      channel'.sentData = channel.sentData + sentBytes channel.rtp sending := by
  obtain ⟨hpackets, hscrambled, hsent, hrtp⟩ := countPacket_counts channel tsPacket
  rw [← hpackets, ← hscrambled, ← hsent, ← hrtp]
  rw [bufferFunc] at h
  split at h
  · obtain ⟨buf, -, h⟩ := bind_eq_ok.mp h
    rw [pure_ok, bind_ok] at h
    exact @sendIfFull_counts { countPacket channel tsPacket with
      buf, nbBytes := (countPacket channel tsPacket).nbBytes + tsPacketSize } _ _ _ h
  · rw [pure_ok, bind_ok] at h
    exact sendIfFull_counts h

/-- A packet goes to the counters and to the record. -/
theorem Tracks.packet (h : Tracks p w) {tsPacket : Packet} {nowTime : UInt64}
    {channel : OutputChannel} {sending : Option Sending}
    (hsend : bufferFunc p.dontSendScrambled nowTime w.channel.toOutputChannel tsPacket =
      .ok (channel, sending)) :
    Tracks p (w.packet tsPacket channel sending) := by
  obtain ⟨hpackets, hscrambled, hsent⟩ := bufferFunc_counts hsend
  have hbytes := h.bytes
  refine ⟨?_, ?_, h.hasTraffic, h.scrambledChannel, ?_⟩
  · show channel.numPacket = _
    rw [hpackets, h.numPacket, Watched.packet, List.length_append]
    cases counts w.channel.toSettings tsPacket <;> rfl
  · show channel.numScrambledPackets = _
    rw [hscrambled, h.numScrambledPackets, Watched.packet, numScrambled, numScrambled,
      List.filter_append, List.length_append]
    cases counts w.channel.toSettings tsPacket <;> cases hs : isScrambled tsPacket <;> simp [hs]
  · show w.measured + channel.sentData = w.sent + sentBytes w.channel.rtp sending
    rw [hsent]
    omega

/-- The three comparisons one after the other are one choice. -/
theorem checkScrambled_state (c : MonitoredChannel) :
    (checkScrambled c).scrambledChannel =
      (stateOf (ratioOf c.numPacket c.numScrambledPackets)).getD c.scrambledChannel := by
  rw [checkScrambled, stateOf]
  dsimp only
  generalize ratioOf c.numPacket c.numScrambledPackets = ratio
  by_cases hlow : ratio < 2
  · have hmiddle : ¬ 5 ≤ ratio := by omega
    have hhigh : ¬ 80 < ratio := by omega
    cases c.scrambledChannel <;> simp [hlow, hmiddle, hhigh]
  · by_cases hmiddle : 5 ≤ ratio ∧ ratio ≤ 75
    · have hhigh : ¬ 80 < ratio := by omega
      cases c.scrambledChannel <;> simp [hlow, hmiddle, hhigh]
    · by_cases hhigh : 80 < ratio
      · have hnot : ¬ ratio ≤ 75 := by omega
        cases c.scrambledChannel <;> simp [hlow, hnot, hhigh]
      · have hneither : ∀ P : Prop, ¬ (5 ≤ ratio ∧ ratio ≤ 75 ∧ P) := fun P hP =>
          hmiddle ⟨hP.1, hP.2.1⟩
        simp [hlow, hmiddle, hhigh, hneither]

theorem checkUpDown_hasTraffic (elapsed : Int) (c : MonitoredChannel) {window : List Packet}
    (hpackets : c.numPacket = window.length)
    (hscrambled : c.numScrambledPackets = numScrambled window) :
    (checkUpDown p elapsed c).hasTraffic =
      next (Check.IsHigh p) (Check.IsLow p) c.hasTraffic ⟨window, elapsed⟩ := by
  rw [checkUpDown, hpackets, hscrambled, next]
  by_cases hup : Check.IsHigh p ⟨window, elapsed⟩ ∧ c.hasTraffic = false
  · exact (congrArg MonitoredChannel.hasTraffic (if_pos hup)).trans (if_pos hup).symm
  · rw [if_neg hup]
    refine (congrArg MonitoredChannel.hasTraffic (if_neg hup)).trans ?_
    by_cases hdown : c.hasTraffic = true ∧ Check.IsLow p ⟨window, elapsed⟩
    · exact (congrArg MonitoredChannel.hasTraffic (if_pos hdown)).trans (if_pos hdown).symm
    · exact (congrArg MonitoredChannel.hasTraffic (if_neg hdown)).trans (if_neg hdown).symm

theorem Tracks.computeTraffic (h : Tracks p w) (timeInterval : Int) :
    Tracks p (w.computeTraffic timeInterval) :=
  ⟨h.numPacket, h.numScrambledPackets, h.hasTraffic, h.scrambledChannel, h.bytes⟩

theorem Tracks.checkScrambled (h : Tracks p w) : Tracks p w.checkScrambled := by
  rw [Watched.checkScrambled]
  split
  · refine ⟨h.numPacket, h.numScrambledPackets, h.hasTraffic, ?_, h.bytes⟩
    show (Monitor.checkScrambled w.channel).scrambledChannel = _
    rw [checkScrambled_state, List.foldl_append, ← h.scrambledChannel, h.numPacket,
      h.numScrambledPackets]
    rfl
  · exact h

theorem Tracks.checkUpDown (h : Tracks p w) (elapsed : Int) :
    Tracks p (w.checkUpDown p elapsed) := by
  have hdecides := checkUpDown_hasTraffic (p := p) elapsed w.channel h.numPacket
    h.numScrambledPackets
  have hsame : (Monitor.checkUpDown p elapsed w.channel).toOutputChannel = w.channel.toOutputChannel
      ∧ (Monitor.checkUpDown p elapsed w.channel).scrambledChannel = w.channel.scrambledChannel := by
    rw [Monitor.checkUpDown]
    split
    · exact ⟨rfl, rfl⟩
    · split <;> exact ⟨rfl, rfl⟩
  rw [Watched.checkUpDown]
  split
  · refine ⟨?_, ?_, ?_, hsame.2.trans h.scrambledChannel, ?_⟩
    · rw [← h.numPacket, ← hsame.1]
    · rw [← h.numScrambledPackets, ← hsame.1]
    · rw [List.foldl_append, ← h.hasTraffic]
      exact hdecides
    · rw [← h.bytes, ← hsame.1]
  · exact h

theorem Tracks.reinit (h : Tracks p w) : Tracks p w.reinit := by
  rw [Watched.reinit]
  split
  · exact ⟨rfl, rfl, h.hasTraffic, h.scrambledChannel, h.bytes⟩
  · exact h

theorem Tracks.mumuInitChan (h : Tracks p w) : Tracks p w.mumuInitChan :=
  ⟨rfl, rfl, rfl, rfl, h.bytes⟩

theorem Tracks.configure (h : Tracks p w) (settings : Settings) (channelReady : ChanStatus) :
    Tracks p (w.configure settings channelReady) :=
  ⟨h.numPacket, h.numScrambledPackets, h.hasTraffic, h.scrambledChannel, h.bytes⟩

theorem Watched.Fresh.tracks (h : w.Fresh) : Tracks p w := by
  have hbytes : w.mumuInitChan.measured + w.mumuInitChan.channel.sentData = w.mumuInitChan.sent := by
    show w.measured + w.channel.sentData = w.sent
    rw [h.measured, h.sentData, h.sent]
  rw [h.initialised]
  exact ⟨rfl, rfl, rfl, rfl, hbytes⟩

end counters

section rounds

variable {p : MonitorParameters} {cond : MonitorState → Event → Prop}

/-- The rest of a round, when nothing is sent. -/
def runTasks (p : MonitorParameters) (s : MonitorState) (tasks : List Task) : MonitorState :=
  match tasks with
  | [] => { s with vars := { s.vars with todo := [] } }
  | task :: rest => runTasks p (runTask p { s with vars := { s.vars with todo := rest } } task) rest

/-- A whole round. -/
def round (p : MonitorParameters) (monitorNow : Int) (s : MonitorState) : MonitorState :=
  let vars := beginRound p s.watched.length monitorNow s.vars
  runTasks p { s with vars := vars } vars.todo

theorem run_tasks (hcond : ∀ s, cond s .task) {tasks : List Task} {past : List Event}
    {s : MonitorState} (hrun : Run ((monitoring p).restrict cond) past s)
    (htodo : s.vars.todo = tasks) :
    ∃ past', Run ((monitoring p).restrict cond) past' (runTasks p s tasks) := by
  induction tasks generalizing s past with
  | nil =>
    refine ⟨past, ?_⟩
    rw [runTasks, ← htodo]
    exact hrun
  | cons task rest ih =>
    have hstep : (monitoring p).Step s .task
        (runTask p { s with vars := { s.vars with todo := rest } } task) :=
      ⟨task, rest, htodo, rfl⟩
    refine ih (hrun.next ⟨hcond s, hstep⟩) ?_
    cases task <;> rfl

theorem runTasks_todo (s : MonitorState) (tasks : List Task) :
    (runTasks p s tasks).vars.todo = [] := by
  induction tasks generalizing s with
  | nil => rfl
  | cons task rest ih => exact ih _

theorem run_round (hcond : ∀ s, cond s .task) {past : List Event} {s : MonitorState}
    (hrun : Run ((monitoring p).restrict cond) past s) (htodo : s.vars.todo = [])
    {monitorNow : Int} (hbegin : cond s (.begin monitorNow)) :
    ∃ past', Run ((monitoring p).restrict cond) past' (round p monitorNow s) := by
  have hstep : (monitoring p).Step s (.begin monitorNow)
      { s with vars := beginRound p s.watched.length monitorNow s.vars } := ⟨htodo, rfl⟩
  exact run_tasks hcond (hrun.next ⟨hbegin, hstep⟩) rfl

/-- The defaults of the statistics, and a limit of one second. -/
def oneSecond : MonitorParameters where
  dontSendScrambled := false
  computeTrafficInterval := 10
  upThreshold := 80
  downThreshold := 30
  timeoutNoDiff := 1
  tuningNoDiff := 0
  readsFile := false

def quietChannel : Watched where
  channel := {
    pids := [], pmtPid := 0, rtp := false, socketOut4 := 0, socketOut6 := 0
    numPacket := 0, numScrambledPackets := 0, bufWithRtpHeader := Buffer.fill _ 0
    buf := Buffer.fill _ 0, nbBytes := 0, sentData := 0, rtpPacketNum := 0
    channelReady := .ready, hasTraffic := true, ratioScrambled := 0
    scrambledChannel := .fullyUnscrambled, pidsScrambled := [], traffic := 0 }
  counted := []
  window := []
  checks := []
  looks := []
  sent := 0
  measured := 0

def quietStart : MonitorState where
  watched := [quietChannel]
  vars := ⟨0, 0, 0, 0, []⟩
  interrupted := 0
  rounds := []

/-- Rounds after one, two and four seconds without a packet. -/
def quietRounds : MonitorState :=
  round oneSecond 4 (round oneSecond 2 (round oneSecond 1 quietStart))

theorem run_quietRounds (hcond : ∀ s, cond s .task) (hone : cond quietStart (.begin 1))
    (htwo : cond (round oneSecond 1 quietStart) (.begin 2))
    (hfour : cond (round oneSecond 2 (round oneSecond 1 quietStart)) (.begin 4)) :
    ∃ past, Run ((monitoring oneSecond).restrict cond) past quietRounds := by
  have hfresh : ∀ w ∈ quietStart.watched, w.Fresh := by
    intro w hw
    rw [List.mem_singleton.mp hw]
    exact ⟨rfl, rfl, rfl, rfl⟩
  have hstart : Run ((monitoring oneSecond).restrict cond) [] quietStart :=
    .start ⟨hfresh, rfl, rfl, rfl, rfl, rfl⟩
  obtain ⟨_, hfirst⟩ := run_round hcond hstart rfl hone
  obtain ⟨_, hsecond⟩ := run_round hcond hfirst (runTasks_todo _ _) htwo
  exact run_round hcond hsecond (runTasks_todo _ _) hfour

theorem quietRounds_down : (quietRounds.watched.map fun w => w.channel.hasTraffic) = [false] ∧
    (quietRounds.watched.map fun w => w.checks.length) = [2] := by
  decide +kernel

end rounds

section runs

variable {p : MonitorParameters} {s s' : MonitorState}

theorem forall_mem_modify {α : Type} {P : α → Prop} {f : α → α} {xs : List α}
    (h : ∀ x ∈ xs, P x) (hf : ∀ x, P x → P (f x)) (i : Nat) : ∀ x ∈ xs.modify i f, P x := by
  intro x hx
  obtain ⟨j, hj⟩ := List.mem_iff_getElem?.mp hx
  rw [List.getElem?_modify] at hj
  obtain ⟨y, hy, rfl⟩ := Option.map_eq_some_iff.mp hj
  have hmem := h y (List.mem_of_getElem? hy)
  split
  · exact hf y hmem
  · exact hmem

theorem runTask_tracks (h : ∀ w ∈ s.watched, Tracks p w) (task : Task) :
    ∀ w ∈ (runTask p s task).watched, Tracks p w := by
  cases task with
  | traffic i timeInterval => exact forall_mem_modify h (fun w hw => hw.computeTraffic _) i
  | scrambled i => exact forall_mem_modify h (fun w hw => hw.checkScrambled) i
  | upDown i elapsed => exact forall_mem_modify h (fun w hw => hw.checkUpDown _) i
  | reinit i => exact forall_mem_modify h (fun w hw => hw.reinit) i
  | count => exact h

theorem monitoring_tracks {past : List Event} (hrun : Run (monitoring p) past s) :
    ∀ w ∈ s.watched, Tracks p w := by
  refine hrun.invariant (P := fun _ s => ∀ w ∈ s.watched, Tracks p w)
    (fun s h w hw => (h.1 w hw).tracks) ?_
  rintro past s e s' h hstep
  cases e with
  | packet i tsPacket nowTime =>
    obtain ⟨w, channel, sending, hw, hsend, rfl⟩ := hstep
    exact forall_mem_set_of h hw fun hw => hw.packet hsend
  | begin monitorNow =>
    obtain ⟨-, rfl⟩ := hstep
    exact h
  | task =>
    obtain ⟨task, rest, -, rfl⟩ := hstep
    exact runTask_tracks (by exact h) task
  | init i =>
    subst hstep
    exact forall_mem_modify h (fun w hw => hw.mumuInitChan) i
  | configure i settings channelReady =>
    subst hstep
    exact forall_mem_modify h (fun w hw => hw.configure _ _) i
  | interrupt value =>
    subst hstep
    exact h

/-- In every run, whatever is sent between the critical sections: a channel is up exactly when its
last check with a rate above the upper threshold was followed by none below the lower one, if the
thresholds are in order; its scrambling state is that of the last check that was decisive; and
every byte that was sent is in exactly one measurement of the traffic, or still to be measured. -/
theorem monitoring_decides {past : List Event} (hthresholds : p.downThreshold ≤ p.upThreshold)
    (hrun : Run (monitoring p) past s) {w : Watched} (hw : w ∈ s.watched) :
    (w.channel.hasTraffic = true ↔ LastHigh (Check.IsHigh p) (Check.IsLow p) true w.checks) ∧
      w.channel.scrambledChannel =
        (w.looks.reverse.findSome? windowState).getD .fullyUnscrambled ∧
      w.measured + w.channel.sentData = w.sent := by
  have h := monitoring_tracks hrun w hw
  refine ⟨?_, ?_, h.bytes⟩
  · rw [h.hasTraffic]
    refine foldl_next_iff (fun c hhigh hlow => ?_) true w.checks
    have hle : (p.downThreshold : ℚ) ≤ (p.upThreshold : ℚ) := by exact_mod_cast hthresholds
    exact absurd (lt_of_lt_of_le hlow (hle.trans hhigh)) (lt_irrefl _)
  · rw [h.scrambledChannel, foldl_choice]

/-- The channel without a packet goes down. -/
theorem monitoring_decides_quiet : ∃ past, Run (monitoring oneSecond) past quietRounds ∧
    ∀ w ∈ quietRounds.watched, w.channel.hasTraffic = false ∧
      ¬ LastHigh (Check.IsHigh oneSecond) (Check.IsLow oneSecond) true w.checks := by
  obtain ⟨past, hrun⟩ := @run_quietRounds (fun _ _ => True) (fun _ => trivial) trivial trivial trivial
  refine ⟨past, hrun.of_restrict, fun w hw => ?_⟩
  have hdown : w.channel.hasTraffic = false :=
    List.mem_singleton.mp (quietRounds_down.1 ▸ List.mem_map_of_mem hw)
  have hiff := (monitoring_decides (by decide) hrun.of_restrict hw).1
  exact ⟨hdown, fun hlast => absurd (hiff.mpr hlast) (by rw [hdown]; decide)⟩

end runs

section once

variable {p : MonitorParameters} {s s' : MonitorState} {w : Watched} {i j : Nat} {e : Int}
  {task : Task} {todo rest : List Task}

/-- The packets that some check for traffic has seen. -/
def Watched.judged (w : Watched) : List Packet := w.checks.flatMap Check.window

/-- The check of channel `i` is done in this round, or not due, and its counters are to be reset. -/
def Pending (todo : List Task) (i : Nat) : Prop :=
  Task.reinit i ∈ todo ∧ ∀ e, Task.upDown i e ∉ todo

/-- Behind the check of a channel stands the reset of its counters, and no other check of it. -/
def Ordered : List Task → Prop
  | [] => True
  | .upDown i _ :: rest => Pending rest i ∧ Ordered rest
  | _ :: rest => Ordered rest

/-- The packets seen by the checks come from the stream of counted packets, in order and each once;
and so do those in the counters, unless they have been seen and are to be reset. -/
def Once (todo : List Task) (i : Nat) (w : Watched) : Prop :=
  w.judged.Sublist w.counted ∧
    (¬ (w.channel.channelReady.isReady = true ∧ Pending todo i) →
      (w.judged ++ w.window).Sublist w.counted)

/-- A channel becomes ready, or ceases to be, between two rounds only. -/
def KeepsReadiness (s : MonitorState) : Event → Prop
  | .configure i _ channelReady => s.vars.todo = [] ∨
      ∀ w, s.watched[i]? = some w → channelReady.isReady = w.channel.channelReady.isReady
  | _ => True

theorem Ordered.tail (h : Ordered (task :: rest)) : Ordered rest := by
  cases task <;> first | exact h.2 | exact h

theorem ordered_append {first : List Task} (hfirst : ∀ t ∈ first, ∀ i e, t ≠ .upDown i e)
    (h : Ordered rest) : Ordered (first ++ rest) := by
  induction first with
  | nil => exact h
  | cons t first ih =>
    have hrest := ih fun t ht => hfirst t (List.mem_cons_of_mem _ ht)
    have hne := hfirst t List.mem_cons_self
    cases t with
    | upDown i e => exact absurd rfl (hne i e)
    | traffic _ _ => exact hrest
    | scrambled _ => exact hrest
    | reinit _ => exact hrest
    | count => exact hrest

theorem ordered_checks (elapsed : Int) {indices : List Nat} (hnodup : indices.Nodup)
    (hreinit : ∀ i ∈ indices, Pending rest i) (h : Ordered rest) :
    Ordered (indices.map (fun i => Task.upDown i elapsed) ++ rest) := by
  induction indices with
  | nil => exact h
  | cons i indices ih =>
    obtain ⟨hi, hnodup⟩ := List.nodup_cons.mp hnodup
    obtain ⟨hmem, hnone⟩ := hreinit i List.mem_cons_self
    refine ⟨⟨List.mem_append_right _ hmem, fun e he => ?_⟩,
      ih hnodup fun j hj => hreinit j (List.mem_cons_of_mem _ hj)⟩
    rcases List.mem_append.mp he with he | he
    · obtain ⟨j, hj, heq⟩ := List.mem_map.mp he
      cases heq
      exact hi hj
    · exact hnone e he

theorem beginRound_ordered (n : Nat) (monitorNow : Int) (v : MonitorVars) :
    Ordered (beginRound p n monitorNow v).todo := by
  have hend : Ordered ((List.range n).map Task.reinit ++ [Task.count]) :=
    ordered_append (by simp) trivial
  have hpending : ∀ i ∈ List.range n, Pending ((List.range n).map Task.reinit ++ [Task.count]) i :=
    fun i hi => ⟨List.mem_append_left _ (List.mem_map_of_mem hi), by simp⟩
  rw [beginRound]
  dsimp only
  generalize (if v.computeTrafficTime = 0 then monitorNow else v.computeTrafficTime) = since
  simp only [List.append_assoc]
  refine ordered_append ?_ (ordered_append (by simp) ?_)
  · intro t ht i e
    split at ht
    · obtain ⟨j, -, rfl⟩ := List.mem_map.mp ht
      exact Task.noConfusion
    · cases ht
  · split
    · exact ordered_checks _ List.nodup_range hpending hend
    · exact hend

theorem pending_cons (hreinit : task ≠ .reinit i) (hupDown : ∀ e, task ≠ .upDown i e) :
    Pending (task :: rest) i ↔ Pending rest i := by
  simp only [Pending, List.mem_cons, not_or]
  exact ⟨fun h => ⟨h.1.resolve_left (Ne.symm hreinit), fun e => (h.2 e).2⟩,
    fun h => ⟨.inr h.1, fun e => ⟨(hupDown e).symm, h.2 e⟩⟩⟩

theorem Once.tail (h : Once (task :: rest) i w) (hreinit : task ≠ .reinit i)
    (hupDown : ∀ e, task ≠ .upDown i e) : Once rest i w :=
  ⟨h.1, fun hnot => h.2 fun hready => hnot ⟨hready.1, (pending_cons hreinit hupDown).mp hready.2⟩⟩

theorem Once.packet (h : Once todo i w) (tsPacket : Packet) (channel : OutputChannel)
    (sending : Option Sending) : Once todo i (w.packet tsPacket channel sending) := by
  refine ⟨h.1.trans (List.sublist_append_left _ _), fun hnot => ?_⟩
  have hstrong := (h.2 hnot).append (List.Sublist.refl
    (if counts w.channel.toSettings tsPacket then [tsPacket] else []))
  rwa [List.append_assoc] at hstrong

/-- The check moves the packets of the window to those seen. -/
theorem Once.checkUpDown (h : Once (.upDown i e :: rest) i w) (hrest : Pending rest i) :
    Once rest i (w.checkUpDown p e) := by
  have hstrong := h.2 fun hpending => hpending.2.2 e List.mem_cons_self
  rw [Watched.checkUpDown]
  split
  next hready =>
    have hkept : (Monitor.checkUpDown p e w.channel).channelReady = w.channel.channelReady := by
      rw [Monitor.checkUpDown]
      split
      · rfl
      · split <;> rfl
    refine ⟨?_, fun hnot => absurd ⟨?_, hrest⟩ hnot⟩
    · rw [Watched.judged, List.flatMap_append, List.flatMap_singleton]
      exact hstrong
    · show (Monitor.checkUpDown p e w.channel).channelReady.isReady = true
      rw [hkept, hready]
  next => exact ⟨h.1, fun _ => hstrong⟩

theorem Once.reinit (h : Once (.reinit i :: rest) i w) : Once rest i w.reinit := by
  rw [Watched.reinit]
  split
  next => exact ⟨h.1, fun _ => (List.append_nil w.judged).symm ▸ h.1⟩
  next hready => exact ⟨h.1, fun _ => h.2 fun hpending => hready hpending.1⟩

/-- What holds of each entry, with its index, holds after a change of one of them. -/
theorem getElem?_modify_of {α : Type} {P Q : Nat → α → Prop} {f : α → α} {xs : List α}
    (h : ∀ j x, xs[j]? = some x → P j x) (hchanged : ∀ x, P i x → Q i (f x))
    (hother : ∀ j x, j ≠ i → P j x → Q j x) :
    ∀ j x, (xs.modify i f)[j]? = some x → Q j x := by
  intro j x hj
  rw [List.getElem?_modify] at hj
  obtain ⟨y, hy, rfl⟩ := Option.map_eq_some_iff.mp hj
  split
  next hij =>
    subst hij
    exact hchanged y (h _ y hy)
  next hij => exact hother j y (Ne.symm hij) (h j y hy)

theorem runTask_once (hordered : Ordered (task :: rest))
    (h : ∀ i w, s.watched[i]? = some w → Once (task :: rest) i w) :
    ∀ i w, (runTask p s task).watched[i]? = some w → Once rest i w := by
  cases task with
  | traffic i timeInterval =>
    exact getElem?_modify_of h (fun w hw => hw.tail (by simp) (by simp))
      fun j w _ hw => hw.tail (by simp) (by simp)
  | scrambled i =>
    refine getElem?_modify_of h (fun w hw => ?_) fun j w _ hw => hw.tail (by simp) (by simp)
    have hkept := hw.tail (by simp) (by simp)
    rw [Watched.checkScrambled]
    split <;> exact hkept
  | upDown i e =>
    refine getElem?_modify_of h (fun w hw => hw.checkUpDown hordered.1) fun j w hj hw =>
      hw.tail (by simp) fun e' heq => ?_
    cases heq
    exact hj rfl
  | reinit i =>
    refine getElem?_modify_of h (fun w hw => hw.reinit) fun j w hj hw =>
      hw.tail (fun heq => ?_) (by simp)
    cases heq
    exact hj rfl
  | count => exact fun i w hw => (h i w hw).tail (by simp) (by simp)

theorem monitoring_once_at {past : List Event}
    (hrun : Run ((monitoring p).restrict KeepsReadiness) past s) :
    Ordered s.vars.todo ∧ ∀ i w, s.watched[i]? = some w → Once s.vars.todo i w := by
  refine hrun.invariant (P := fun _ s => Ordered s.vars.todo ∧
    ∀ i w, s.watched[i]? = some w → Once s.vars.todo i w) ?_ ?_
  · rintro s ⟨hfresh, -, -, htodo, -⟩
    rw [htodo]
    refine ⟨trivial, fun i w hw => ?_⟩
    rw [(hfresh w (List.mem_of_getElem? hw)).initialised]
    exact ⟨List.nil_sublist _, fun _ => List.nil_sublist _⟩
  rintro past s e s' ⟨hordered, honce⟩ ⟨hkeeps, hstep⟩
  cases e with
  | packet i tsPacket nowTime =>
    obtain ⟨w, channel, sending, hw, -, rfl⟩ := hstep
    refine ⟨hordered, fun j x hx => ?_⟩
    rw [List.getElem?_set] at hx
    split at hx
    next hij =>
      subst hij
      split at hx
      · cases hx
        exact (honce _ w hw).packet _ _ _
      · cases hx
    next => exact honce j x hx
  | begin monitorNow =>
    obtain ⟨htodo, rfl⟩ := hstep
    refine ⟨beginRound_ordered _ _ _, fun i w hw => ?_⟩
    have hall := honce i w hw
    have hnot : ¬ Pending s.vars.todo i := fun h => by
      rw [htodo] at h
      cases h.1
    exact ⟨hall.1, fun _ => hall.2 fun h => hnot h.2⟩
  | task =>
    obtain ⟨task, rest, htodo, rfl⟩ := hstep
    rw [htodo] at hordered honce
    have htodo' : (runTask p { s with vars := { s.vars with todo := rest } } task).vars.todo =
        rest := by
      cases task <;> rfl
    rw [htodo']
    exact ⟨hordered.tail, runTask_once hordered honce⟩
  | init i =>
    subst hstep
    refine ⟨hordered, getElem?_modify_of honce (fun w hw => ?_) fun j w _ hw => hw⟩
    exact ⟨List.nil_sublist _, fun _ => List.nil_sublist _⟩
  | configure i settings channelReady =>
    subst hstep
    refine ⟨hordered, fun j x hx => ?_⟩
    rw [List.getElem?_modify] at hx
    obtain ⟨w, hw, rfl⟩ := Option.map_eq_some_iff.mp hx
    have hall := honce j w hw
    split
    next hij =>
      subst hij
      refine ⟨hall.1, fun hnot => hall.2 fun h => hnot ⟨?_, h.2⟩⟩
      rcases hkeeps with htodo | hsame
      · have hnone := h.2.1
        rw [htodo] at hnone
        cases hnone
      · show channelReady.isReady = true
        rw [hsame w hw, h.1]
    next => exact hall
  | interrupt value =>
    subst hstep
    exact ⟨hordered, honce⟩

end once

end MuMuDVB.Monitor
