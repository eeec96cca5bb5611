import MuMuDVB.CardThread
import MuMuDVB.MainLoop
import MuMuDVB.OutputFrames

/-!
# From the card to the datagrams

The thread that reads the card, the loop over the channels and the buffers of
the channels as one system. Where nothing is rewritten, the datagrams of a
channel carry the packets of the card that have one of its PIDs, in order and
each once, up to those that are still on their way.
-/
namespace MuMuDVB.DataPath

open CheckedMemory RecordedRun MuMuDVB.TsHeader MuMuDVB.Channel MuMuDVB.MainLoop MuMuDVB.CardThread

/-- What the main loop does not change, when T2-MI is not used. -/
structure PathParameters where
  filterTransportError : Bool
  /-- `asked_pid[pid] != PID_NOT_ASKED` -/
  asked : Nat → Bool
  psiTablesFiltering : Nat
  /-- `tune_p.fe_type==FE_ATSC` -/
  atsc : Bool
  dontSendScrambled : Bool

/-- The sync byte is wrong or the error bit is set. -/
def isDamaged (packet : Packet) : Bool :=
  byteAt packet.cells 0 ≠ 0x47 || (byteAt packet.cells 1).toNat / 128 = 1

/-- The packet gets as far as the loop over the channels. -/
def isLooped (p : PathParameters) (packet : Packet) : Bool :=
  !(isDamaged packet && p.filterTransportError) && (p.asked 8192 || p.asked (pid packet.cells))

/-- The loop over the channels, as far as `buffer_func`, which decides itself whether to drop a
scrambled packet. -/
def handing (p : PathParameters) (behind : Buffer UInt8 4) (packet : Packet) : LoopParameters where
  pid := pid packet.cells
  behind := behind
  psiTablesFiltering := p.psiTablesFiltering
  atsc := p.atsc
  dontSendScrambled := false

/-- The packets that a channel is handed, each at its time. -/
def hand (dontSendScrambled : Bool) (times : Nat → UInt64) (output : OutputFrames.Output)
    (packets : List Packet) : Checked OutputFrames.Output :=
  packets.zipIdx.foldlM (fun output (packet, k) =>
    OutputFrames.step dontSendScrambled output (.packet packet (times k))) output

/-- Each channel is handed its own packets. -/
def handAll (dontSendScrambled : Bool) (times : Nat → UInt64) :
    List OutputFrames.Output → List (List Packet) → Checked (List OutputFrames.Output)
  | output :: outputs, packets :: rest => do
    let output ← hand dontSendScrambled times output packets
    let outputs ← handAll dontSendScrambled times outputs rest
    return output :: outputs
  | outputs, _ => .ok outputs

structure PathState (n : Nat) where
  card : CardState Packet n
  shared : Shared
  channels : List MumudvbChannel
  outputs : List OutputFrames.Output

/-- The packet that the main loop takes next from the reading buffer. -/
def nextPacket {α : Type} {n : Nat} (s : CardState α n) : Option α :=
  match s.main with
  | .processing readBuffPos =>
    if readBuffPos < s.bytesRead then (s.reading.read readBuffPos).toOption else none
  | _ => none

/-- The body of the loop over the packets. -/
def processPacket (p : PathParameters) (behind : Buffer UInt8 4) (times : Nat → UInt64)
    {n : Nat} (s : PathState n) (packet : Packet) : Checked (PathState n) :=
  if isLooped p packet then do
    let (handed, shared, channels) ←
      channelLoop (handing p behind packet) { s.shared with actualTsPacket := packet } s.channels
    let outputs ← handAll p.dontSendScrambled times s.outputs handed
    return { s with shared, channels, outputs }
  else .ok s

inductive Event where
  /-- a step of the reading thread, or of the main loop outside its loop over the packets -/
  | thread (e : CardThread.Event Packet)
  /-- the main loop in its loop over the packets -/
  | process (behind : Buffer UInt8 4) (times : Nat → UInt64)
  /-- other sockets for a channel, or RTP -/
  | configure (i : Nat) (settings : OutputFrames.Settings)

/-- The settings of a channel that take part in what it is sent. -/
structure SamePids (settings settings' : OutputFrames.Settings) : Prop where
  pids : settings'.pids = settings.pids
  pmtPid : settings'.pmtPid = settings.pmtPid

def configured (output : OutputFrames.Output) (settings : OutputFrames.Settings) :
    OutputFrames.Output :=
  { output with channel := { output.channel with toSettings := settings } }

/-- Nothing is rewritten, and no channel is descrambled by software. -/
structure Plain (shared : Shared) (channels : List MumudvbChannel) : Prop where
  rewritePmt : shared.vars.rewritePmt ≠ .on
  rewritePat : shared.vars.rewritePat ≠ .on
  rewriteSdt : shared.vars.rewriteSdt ≠ .on
  rewriteEit : shared.vars.rewriteEit ≠ .on
  scam : ∀ channel ∈ channels, channel.scamSupportStarted = false

/-- The start: nothing is read, and the buffers of the channels are empty. -/
structure PathInitial {n : Nat} (s : PathState n) : Prop where
  card : CardThread.Initial s.card
  plain : Plain s.shared s.channels
  length : s.channels.length = s.outputs.length
  opened : ∀ output ∈ s.outputs, output = OutputFrames.opened output.channel
  pmtPid : ∀ (i : Nat) (channel : MumudvbChannel) (output : OutputFrames.Output),
    s.channels[i]? = some channel → s.outputs[i]? = some output →
      output.channel.pmtPid = channel.pmtPid

/-- The threads, the channels and their buffers; `card_read` returns at most `dvrBufferSize`
packets. -/
def path (p : PathParameters) (n dvrBufferSize : Nat) : System (PathState n) Event where
  Initial := PathInitial
  Step s e s' :=
    match e with
    | .thread e => e ≠ .process ∧ ∃ card, CardThread.step dvrBufferSize s.card e = some card ∧
        s' = { s with card := card }
    | .process behind times => ∃ card, CardThread.step dvrBufferSize s.card .process = some card ∧
        match nextPacket s.card with
        | none => s' = { s with card := card }
        | some packet => processPacket p behind times { s with card := card } packet = .ok s'
    | .configure i settings => ∃ output, s.outputs[i]? = some output ∧
        SamePids output.channel.toSettings settings ∧
        s' = { s with outputs := s.outputs.set i (configured output settings) }

/-- When the main loop comes out of its wait, something has been read, or nothing ever was. -/
def FreshEvent {n : Nat} (s : PathState n) : Event → Prop
  | .thread e => Fresh s.card e
  | _ => True

/-- The packet is one that the channel sends. -/
def passes (p : PathParameters) (channel : MumudvbChannel) (packet : Packet) : Bool :=
  isLooped p packet && (channel.channelReady.isReady &&
    sendsPid (handing p (Buffer.fill 4 0) packet) channel &&
    decide (psiPasses (handing p (Buffer.fill 4 0) packet))) &&
    OutputFrames.accepts p.dontSendScrambled channel.pmtPid packet

section plain

variable {p : PathParameters} {lp : LoopParameters} {s : Shared} {channel : MumudvbChannel}
  {channels : List MumudvbChannel}

/-- Without rewriting the body of the loop passes the packet on or not. -/
theorem channelStep_plain (h : Plain s channels) (hmem : channel ∈ channels)
    (hdrop : lp.dontSendScrambled = false) :
    channelStep lp s channel = .ok
      (if channel.channelReady.isReady ∧ sendsPid lp channel ∧ psiPasses lp then
        [s.actualTsPacket] else [], s, channel) := by
  have hbuffer : MainLoop.bufferFunc lp channel s.actualTsPacket = [s.actualTsPacket] := by
    rw [MainLoop.bufferFunc, h.scam channel hmem, hdrop]
    simp
  have hpmt : ¬ IsPmtPacket lp s.vars channel := fun hpmt => h.rewritePmt hpmt.2.1
  have heit : ¬ IsEitPacket lp s.vars channel := fun heit => h.rewriteEit heit.2.2
  have hpat : ¬ (lp.pid = 0 ∧ s.vars.rewritePat = .on) := fun hpat => h.rewritePat hpat.2
  have hsdt : ¬ (lp.pid = 17 ∧ s.vars.rewriteSdt = .on ∧ channel.sdtRewriteSkip = false) :=
    fun hsdt => h.rewriteSdt hsdt.2.1
  have hafter : afterPmt lp s channel =
      .ok (if psiPasses lp then [s.actualTsPacket] else [], s, channel) := by
    rw [afterPmt, patBranch, if_neg hpat, bind_ok]
    dsimp only
    rw [if_pos rfl, sdtBranch, if_neg hsdt, bind_ok]
    dsimp only
    rw [if_pos rfl, sendBranch, if_neg heit]
    split
    · rw [hbuffer]
    · rfl
  rw [channelStep]
  by_cases hready : channel.channelReady.isReady = true ∧ sendsPid lp channel = true
  · rw [if_pos hready, pmtBranch, if_neg fun hboth => hpmt hboth.1, bind_ok]
    dsimp only
    rw [if_pos rfl, hafter]
    simp only [hready.1, hready.2, true_and]
  · rw [if_neg hready, if_neg fun hall => hready ⟨hall.1, hall.2.1⟩]

theorem channelLoop_plain (h : Plain s channels) (hdrop : lp.dontSendScrambled = false) :
    channelLoop lp s channels = .ok (channels.map fun channel =>
      if channel.channelReady.isReady ∧ sendsPid lp channel ∧ psiPasses lp then
        [s.actualTsPacket] else [], s, channels) := by
  have hall : ∀ some : List MumudvbChannel, (∀ channel ∈ some, channel ∈ channels) →
      channelLoop lp s some = .ok (some.map fun channel =>
        if channel.channelReady.isReady ∧ sendsPid lp channel ∧ psiPasses lp then
          [s.actualTsPacket] else [], s, some) := by
    intro some hsome
    induction some with
    | nil => rfl
    | cons channel some ih =>
      have hlater := ih fun channel hmem => hsome channel (List.mem_cons_of_mem _ hmem)
      rw [channelLoop] at hlater ⊢
      rw [SharedLoop.loop, channelStep_plain h (hsome channel List.mem_cons_self) hdrop, bind_ok]
      dsimp only
      rw [hlater]
      rfl
  exact hall channels fun channel hmem => hmem

end plain

section card

variable {α : Type} {n d : Nat} {s s' : CardState α n} {e : CardThread.Event α}

@[simp] theorem signal_processed (s : CardState α n) : s.signal.processed = s.processed := by
  rw [CardState.signal]
  split <;> rfl

/-- Only the loop over the packets processes one. -/
theorem step_processed (hne : e ≠ .process) (h : CardThread.step d s e = some s') :
    s'.processed = s.processed := by
  cases e with
  | process => exact absurd rfl hne
  | timeout =>
    obtain ⟨-, ⟨⟩⟩ := Option.ite_none_right_eq_some.mp h
    exact signal_processed s
  | full =>
    obtain ⟨-, ⟨⟩⟩ := Option.ite_none_right_eq_some.mp h
    exact signal_processed s
  | room =>
    obtain ⟨-, ⟨⟩⟩ := Option.ite_none_right_eq_some.mp h
    rfl
  | cardRead packets =>
    obtain ⟨-, h⟩ := Option.ite_none_right_eq_some.mp h
    cases hread : s.cardRead packets with
    | error fault =>
      rw [hread] at h
      cases h
    | ok read =>
      rw [hread] at h
      cases h
      obtain ⟨b, -, heq⟩ := bind_eq_ok.mp hread
      cases heq
      exact signal_processed _
  | check =>
    obtain ⟨-, ⟨⟩⟩ := Option.ite_none_right_eq_some.mp h
    rfl
  | wait =>
    obtain ⟨-, ⟨⟩⟩ := Option.ite_none_right_eq_some.mp h
    rfl
  | spurious =>
    obtain ⟨-, ⟨⟩⟩ := Option.ite_none_right_eq_some.mp h
    rfl
  | lock =>
    obtain ⟨-, ⟨⟩⟩ := Option.ite_none_right_eq_some.mp h
    exact (CardThread.locked_processed s).1

theorem process_processed (h : CardThread.step d s .process = some s') :
    s'.processed = s.processed ++ (nextPacket s).toList := by
  rw [CardThread.step] at h
  rw [nextPacket]
  cases hmain : s.main with
  | processing pos =>
    rw [hmain] at h
    change (if pos < s.bytesRead then _ else _) = some s' at h
    show _ = s.processed ++
      (if pos < s.bytesRead then (s.reading.read pos).toOption else none).toList
    by_cases hlt : pos < s.bytesRead
    · rw [if_pos hlt] at h ⊢
      cases hread : s.reading.read pos with
      | ok packet =>
        rw [hread] at h
        cases h
        rfl
      | error e =>
        rw [hread] at h
        cases h
    · rw [if_neg hlt] at h ⊢
      cases h
      exact (List.append_nil _).symm
  | _ =>
    rw [hmain] at h
    cases h

end card

section outputs

variable {dontSendScrambled : Bool} {times : Nat → UInt64} {output output' : OutputFrames.Output}

theorem sendFunc_pmtPid {channel channel' : OutputFrames.OutputChannel} {nowTime : UInt64}
    {sending : OutputFrames.Sending}
    (h : OutputFrames.sendFunc channel nowTime = .ok (channel', sending)) :
    channel'.pmtPid = channel.pmtPid := by
  obtain ⟨payload, -, h⟩ := bind_eq_ok.mp h
  obtain ⟨⟨next, datagram⟩, hsend, h⟩ := bind_eq_ok.mp h
  cases h
  obtain ⟨header, datagram', hspec, -⟩ := OutputFrames.sendMulticast_spec
    { channel with sentData := channel.sentData + (channel.nbBytes + 20 + 8 +
      (if channel.rtp then OutputFrames.rtpHeaderLen else 0)) } nowTime payload
  rw [hspec] at hsend
  cases hsend
  rfl

theorem bufferFunc_pmtPid {channel channel' : OutputFrames.OutputChannel} {nowTime : UInt64}
    {packet : Packet} {sending : Option OutputFrames.Sending}
    (h : OutputFrames.bufferFunc dontSendScrambled nowTime channel packet =
      .ok (channel', sending)) :
    channel'.pmtPid = channel.pmtPid := by
  have hend : ∀ {filled : OutputFrames.OutputChannel}, filled.pmtPid = channel.pmtPid →
      (if OutputFrames.isFull filled then
        OutputFrames.sendFunc filled nowTime >>= fun sent => pure (sent.1, some sent.2)
      else pure (filled, none) : Checked (OutputFrames.OutputChannel × Option _)) =
        .ok (channel', sending) → channel'.pmtPid = channel.pmtPid := by
    intro filled hfilled h
    split at h
    · obtain ⟨⟨next, sending'⟩, hsend, h⟩ := bind_eq_ok.mp h
      cases h
      exact (sendFunc_pmtPid hsend).trans hfilled
    · cases h
      exact hfilled
  rw [OutputFrames.bufferFunc] at h
  split at h
  · obtain ⟨buf, -, h⟩ := bind_eq_ok.mp h
    rw [pure_ok, bind_ok] at h
    exact hend (by rfl) h
  · rw [pure_ok, bind_ok] at h
    exact hend (by rfl) h

/-- What a channel has been sent is what was accepted, and its PMT is that of the channel. -/
structure Carries (p : PathParameters) (channel : MumudvbChannel) (processed : List Packet)
    (output : OutputFrames.Output) : Prop where
  framed : ∃ first, OutputFrames.Inv first output
  pmtPid : output.channel.pmtPid = channel.pmtPid
  accepted : output.accepted = processed.filter (passes p channel)

theorem Carries.hand {p : PathParameters} {channel : MumudvbChannel} {processed : List Packet}
    {packet : Packet} (h : Carries p channel processed output) (times : Nat → UInt64)
    (hlooped : isLooped p packet = true) (behind : Buffer UInt8 4) :
    ∃ output', hand p.dontSendScrambled times output
        (if channel.channelReady.isReady ∧ sendsPid (handing p behind packet) channel ∧
          psiPasses (handing p behind packet) then [packet] else []) = .ok output' ∧
      Carries p channel (processed ++ [packet]) output' := by
  obtain ⟨first, hinv⟩ := h.framed
  by_cases hsends : channel.channelReady.isReady = true ∧
      sendsPid (handing p behind packet) channel = true ∧ psiPasses (handing p behind packet)
  · obtain ⟨output', hstep, hinv', -⟩ :=
      @OutputFrames.Inv.packet p.dontSendScrambled output first hinv packet (times 0)
    refine ⟨output', ?_, ⟨first, hinv'⟩, ?_, ?_⟩
    · rw [if_pos hsends, DataPath.hand]
      exact (congrArg (· >>= pure) hstep).trans (bind_ok _ _)
    · obtain ⟨⟨channel', sending⟩, hbuffer, heq⟩ := bind_eq_ok.mp hstep
      cases heq
      exact (bufferFunc_pmtPid hbuffer).trans h.pmtPid
    · obtain ⟨⟨channel', sending⟩, hbuffer, heq⟩ := bind_eq_ok.mp hstep
      cases heq
      have hpasses : passes p channel packet =
          OutputFrames.accepts p.dontSendScrambled output.channel.pmtPid packet := by
        have hpsi : psiPasses (handing p (Buffer.fill 4 0) packet) := hsends.2.2
        have hpid : sendsPid (handing p (Buffer.fill 4 0) packet) channel = true := hsends.2.1
        rw [passes, hlooped, hsends.1, hpid, decide_eq_true hpsi, h.pmtPid]
        rfl
      dsimp only
      rw [List.filter_append, h.accepted, List.filter_singleton, hpasses]
      cases OutputFrames.accepts p.dontSendScrambled output.channel.pmtPid packet <;> rfl
  · refine ⟨output, ?_, ⟨first, hinv⟩, h.pmtPid, ?_⟩
    · rw [if_neg hsends]
      rfl
    · have hpasses : passes p channel packet = false := by
        rw [passes, Bool.and_eq_false_iff, Bool.and_eq_false_iff]
        refine .inl (.inr (Bool.eq_false_iff.mpr fun hall => hsends ?_))
        simp only [Bool.and_eq_true, decide_eq_true_eq] at hall
        exact ⟨hall.1.1, hall.1.2, hall.2⟩
      rw [List.filter_append, h.accepted, List.filter_singleton, hpasses]
      exact (List.append_nil _).symm

/-- A channel that is not handed the packet does not send it either. -/
theorem Carries.skip {p : PathParameters} {channel : MumudvbChannel} {processed : List Packet}
    {packet : Packet} (h : Carries p channel processed output)
    (hlooped : isLooped p packet = false) : Carries p channel (processed ++ [packet]) output := by
  refine ⟨h.framed, h.pmtPid, ?_⟩
  have hpasses : passes p channel packet = false := by
    rw [passes, hlooped]
    rfl
  rw [List.filter_append, h.accepted, List.filter_singleton, hpasses]
  exact (List.append_nil _).symm

theorem Carries.configured {p : PathParameters} {channel : MumudvbChannel}
    {processed : List Packet} {settings : OutputFrames.Settings}
    (h : Carries p channel processed output)
    (hsame : SamePids output.channel.toSettings settings) :
    Carries p channel processed (configured output settings) := by
  obtain ⟨first, hinv⟩ := h.framed
  obtain ⟨output', hstep, hinv', -⟩ :=
    @OutputFrames.Inv.step false output first hinv (.configure settings)
  cases hstep
  exact ⟨⟨first, hinv'⟩, hsame.pmtPid.trans h.pmtPid, h.accepted⟩

/-- Channel by channel. -/
def AllCarry (p : PathParameters) (processed : List Packet) (channels : List MumudvbChannel)
    (outputs : List OutputFrames.Output) : Prop :=
  channels.length = outputs.length ∧
    ∀ (i : Nat) (channel : MumudvbChannel) (output : OutputFrames.Output),
      channels[i]? = some channel → outputs[i]? = some output →
        Carries p channel processed output

theorem AllCarry.handAll {p : PathParameters} {processed : List Packet} {packet : Packet}
    {channels : List MumudvbChannel} {outputs : List OutputFrames.Output}
    (h : AllCarry p processed channels outputs) (times : Nat → UInt64)
    (hlooped : isLooped p packet = true) (behind : Buffer UInt8 4) :
    ∃ outputs', handAll p.dontSendScrambled times outputs (channels.map fun channel =>
        if channel.channelReady.isReady ∧ sendsPid (handing p behind packet) channel ∧
          psiPasses (handing p behind packet) then [packet] else []) = .ok outputs' ∧
      AllCarry p (processed ++ [packet]) channels outputs' := by
  induction channels generalizing outputs with
  | nil =>
    obtain rfl := List.length_eq_zero_iff.mp h.1.symm
    exact ⟨[], rfl, rfl, fun i channel output hchannel => by cases hchannel⟩
  | cons channel channels ih =>
    obtain ⟨output, outputs, rfl⟩ := List.exists_cons_of_length_eq_add_one h.1.symm
    obtain ⟨output', hhand, hcarries⟩ :=
      (h.2 0 channel output rfl rfl).hand times hlooped behind
    obtain ⟨outputs', hrest, hlen, hall⟩ := ih ⟨Nat.succ.inj h.1, fun i => h.2 (i + 1)⟩
    refine ⟨output' :: outputs', ?_, congrArg (· + 1) hlen, ?_⟩
    · rw [List.map_cons, DataPath.handAll, hhand, bind_ok, hrest]
      rfl
    · intro i some sent hsome hsent
      cases i with
      | zero =>
        cases hsome
        cases hsent
        exact hcarries
      | succ i => exact hall i some sent hsome hsent

end outputs

section runs

variable {p : PathParameters} {n d : Nat} {past : List Event} {s s' : PathState n}

/-- What every run keeps. -/
structure PathInvariant (p : PathParameters) (d : Nat) {n : Nat} (s : PathState n) : Prop where
  card : CardThread.Invariant d s.card
  plain : Plain s.shared s.channels
  carry : AllCarry p s.card.processed s.channels s.outputs

theorem PathInitial.invariant (h : PathInitial s) : PathInvariant p d s where
  card := h.card.invariant
  plain := h.plain
  carry := by
    refine ⟨h.length, fun i channel output hchannel houtput => ?_⟩
    have hopened := h.opened output (List.mem_of_getElem? houtput)
    have hinv := OutputFrames.inv_opened output.channel
    rw [← hopened] at hinv
    refine ⟨⟨_, hinv⟩, h.pmtPid i channel output hchannel houtput, ?_⟩
    rw [h.card.processed, hopened]
    rfl

theorem processPacket_card {behind : Buffer UInt8 4} {times : Nat → UInt64} {packet : Packet}
    (h : processPacket p behind times s packet = .ok s') : s'.card = s.card := by
  rw [processPacket] at h
  split at h
  · obtain ⟨⟨handed, shared, channels⟩, -, h⟩ := bind_eq_ok.mp h
    obtain ⟨outputs, -, h⟩ := bind_eq_ok.mp h
    cases h
    rfl
  · cases h
    rfl

/-- A packet is handed to the channels without a fault. -/
theorem PathInvariant.processPacket {card : CardState Packet n} {packet : Packet}
    (h : PathInvariant p d s) (hcard : CardThread.Invariant d card)
    (hprocessed : card.processed = s.card.processed ++ [packet]) (behind : Buffer UInt8 4)
    (times : Nat → UInt64) :
    ∃ s', processPacket p behind times { s with card := card } packet = .ok s' ∧
      PathInvariant p d s' := by
  cases hlooped : isLooped p packet with
  | false =>
    refine ⟨{ s with card := card }, by rw [DataPath.processPacket, hlooped]; rfl, hcard,
      h.plain, h.carry.1, fun i channel output hchannel houtput => ?_⟩
    rw [hprocessed]
    exact (h.carry.2 i channel output hchannel houtput).skip hlooped
  | true =>
    obtain ⟨outputs, hhand, hcarry⟩ := h.carry.handAll times hlooped behind
    have hplain : Plain { s.shared with actualTsPacket := packet } s.channels :=
      ⟨h.plain.rewritePmt, h.plain.rewritePat, h.plain.rewriteSdt, h.plain.rewriteEit, h.plain.scam⟩
    refine ⟨{ s with
      card := card
      shared := { s.shared with actualTsPacket := packet }
      outputs := outputs }, ?_, hcard, hplain, hprocessed ▸ hcarry⟩
    rw [DataPath.processPacket, if_pos hlooped, channelLoop_plain hplain rfl, bind_ok]
    dsimp only
    rw [hhand]
    rfl

theorem PathInvariant.step {e : Event} (h : PathInvariant p d s) (hfresh : FreshEvent s e)
    (hstep : (path p n d).Step s e s') : PathInvariant p d s' := by
  cases e with
  | thread e =>
    obtain ⟨hne, card, hcard, rfl⟩ := hstep
    refine ⟨h.card.step hfresh hcard, h.plain, ?_⟩
    rw [step_processed hne hcard]
    exact h.carry
  | process behind times =>
    obtain ⟨card, hcard, hstep⟩ := hstep
    have hinv := h.card.step (e := .process) trivial hcard
    have hprocessed := process_processed hcard
    cases hnext : nextPacket s.card with
    | none =>
      rw [hnext] at hstep hprocessed
      cases hstep
      refine ⟨hinv, h.plain, ?_⟩
      rw [hprocessed, Option.toList_none, List.append_nil]
      exact h.carry
    | some packet =>
      rw [hnext] at hstep hprocessed
      obtain ⟨s'', heq, hinv'⟩ := h.processPacket hinv hprocessed behind times
      cases heq.symm.trans hstep
      exact hinv'
  | configure i settings =>
    obtain ⟨output, houtput, hsame, rfl⟩ := hstep
    have hall : ∀ (j : Nat) (sent : OutputFrames.Output),
        (s.outputs.set i (configured output settings))[j]? = some sent →
          ∀ channel, s.channels[j]? = some channel → Carries p channel s.card.processed sent :=
      forall_set houtput
        (fun channel hchannel => (h.carry.2 i channel output hchannel houtput).configured hsame)
        (fun j sent _ hsent channel hchannel => h.carry.2 j channel sent hchannel hsent)
    exact ⟨h.card, h.plain, by rw [List.length_set]; exact h.carry.1,
      fun j channel sent hchannel hsent => hall j sent hsent channel hchannel⟩

theorem pathInvariant_run (hrun : Run ((path p n d).restrict FreshEvent) past s) :
    PathInvariant p d s := by
  have hstart : ∀ s : PathState n, PathInitial s → PathInvariant p d s := fun s h => h.invariant
  refine Run.invariant (P := fun _ s => PathInvariant p d s) hstart ?_ hrun
  rintro past s e s' hinv ⟨hfresh, hstep⟩
  exact hinv.step hfresh hstep

/-- However the threads take turns and the sockets come and go: the emptyings of a channel's
buffer carry, in order and once, the packets the card delivered that the channel sends, up to
those that are still in the buffers, and the next packet is processed without a fault. -/
theorem path_delivers (hrun : Run ((path p n d).restrict FreshEvent) past s) :
    s.card.Delivers ∧
    (∀ (i : Nat) (channel : MumudvbChannel) (output : OutputFrames.Output),
      s.channels[i]? = some channel → s.outputs[i]? = some output →
      output.sendings.flatMap OutputFrames.Sending.payload ++ OutputFrames.buffered output.channel =
          OutputFrames.bytes (s.card.processed.filter (passes p channel)) ∧
        (OutputFrames.buffered output.channel).length < 7 * tsPacketSize) ∧
    ∀ behind times pos, s.card.main = .processing pos →
      ∃ s', (path p n d).Step s (.process behind times) s' := by
  have hinv := pathInvariant_run hrun
  refine ⟨hinv.card.delivers, fun i channel output hchannel houtput => ?_, ?_⟩
  · have hcarries := hinv.carry.2 i channel output hchannel houtput
    obtain ⟨first, hframed⟩ := hcarries.framed
    obtain ⟨blocks, held, -, hcollects, -, -⟩ := hframed.collected
    refine ⟨by rw [hframed.inOrder, hcarries.accepted], ?_⟩
    have hbytes := hcollects.nbBytes
    have hroom := hcollects.room
    rw [OutputFrames.buffered, List.length_take]
    simp only [tsPacketSize] at *
    omega
  · intro behind times pos hmain
    by_cases hpos : pos < s.card.bytesRead
    · obtain ⟨packet, hread, -⟩ :=
        process_delivers hinv.card.delivers hmain hinv.card.read hpos
      have hstep : CardThread.step d s.card .process = some { s.card with
          main := .processing (pos + 1)
          processed := s.card.processed ++ [packet] } := by
        rw [CardThread.step, hmain]
        simp only [if_pos hpos, hread]
      have hnext : nextPacket s.card = some packet := by
        rw [nextPacket, hmain]
        simp only [if_pos hpos, hread]
        rfl
      obtain ⟨s', hprocess, -⟩ := hinv.processPacket (hinv.card.step (e := .process) trivial hstep)
        rfl behind times
      refine ⟨s', _, hstep, ?_⟩
      rw [hnext]
      exact hprocess
    · have hnext : nextPacket s.card = none := by
        rw [nextPacket, hmain]
        exact if_neg hpos
      refine ⟨{ s with card := { s.card with main := .top } }, { s.card with main := .top }, ?_, ?_⟩
      · rw [CardThread.step, hmain]
        exact if_neg hpos
      · rw [hnext]

end runs

/-! One channel with one PID: a packet of it is read and processed. -/

def mediaPacket : Packet :=
  ⟨[0x47, 0x02, 0x00, 0x10] ++ List.replicate 184 0, by
    rw [List.length_append, List.length_replicate]
    rfl⟩

def mediaChannel : MumudvbChannel := { zeroedChannel with channelReady := .ready, pids := [512] }

def mediaOutput : OutputFrames.Output := OutputFrames.opened {
  pids := [⟨512, 0⟩]
  pmtPid := 0
  rtp := false
  socketOut4 := 0
  socketOut6 := 0
  numPacket := 0
  numScrambledPackets := 0
  bufWithRtpHeader := Buffer.fill _ 0
  buf := Buffer.fill _ 0
  nbBytes := 0
  sentData := 0
  rtpPacketNum := 0 }

def allAsked : PathParameters where
  filterTransportError := false
  asked _ := true
  psiTablesFiltering := 0
  atsc := false
  dontSendScrambled := false

/-- The state before the packet is processed, and at the start. -/
def stateWith (card : CardState Packet 1) : PathState 1 :=
  ⟨card, ⟨zeroPacket, zeroPacket, initRewrV⟩, [mediaChannel], [mediaOutput]⟩

def cardStart : CardState Packet 1 :=
  ⟨⟨[zeroPacket], rfl⟩, ⟨[zeroPacket], rfl⟩, 1, 0, 0, false, .top, .polling, [], []⟩

def cardLocked : CardState Packet 1 :=
  ⟨⟨[zeroPacket], rfl⟩, ⟨[mediaPacket], rfl⟩, 2, 1, 0, false, .processing 0, .polling,
    [mediaPacket], []⟩

theorem locked_run : Run ((path allAsked 1 1).restrict FreshEvent)
    [.thread .lock, .thread .check, .thread (.cardRead [mediaPacket]), .thread .room]
    (stateWith cardLocked) := by
  have hstart : Run ((path allAsked 1 1).restrict FreshEvent) [] (stateWith cardStart) := by
    refine .start ⟨⟨rfl, rfl, rfl, rfl, rfl, rfl, rfl, rfl⟩, ⟨by decide, by decide, by decide,
      by decide, by simp [stateWith, mediaChannel, zeroedChannel]⟩, rfl,
      by simp [stateWith, mediaOutput, OutputFrames.opened], ?_⟩
    intro i channel output hchannel hsent
    cases i with
    | zero =>
      cases hchannel
      cases hsent
      rfl
    | succ i => cases hchannel
  exact .next (.next (.next (.next hstart ⟨trivial, nofun, _, rfl, rfl⟩)
    ⟨trivial, nofun, _, rfl, rfl⟩) ⟨trivial, nofun, _, rfl, rfl⟩) ⟨nofun, nofun, _, rfl, rfl⟩

/-- After it the packet waits in the buffer of the channel. -/
theorem path_delivers_media : ∃ past s, Run ((path allAsked 1 1).restrict FreshEvent) past s ∧
    s.card.processed = [mediaPacket] ∧
    ∀ (i : Nat) (channel : MumudvbChannel) (output : OutputFrames.Output),
      s.channels[i]? = some channel → s.outputs[i]? = some output →
      output.sendings.flatMap OutputFrames.Sending.payload ++ OutputFrames.buffered output.channel =
        OutputFrames.bytes ([mediaPacket].filter (passes allAsked channel)) := by
  obtain ⟨s', hstep⟩ := (path_delivers locked_run).2.2 (Buffer.fill 4 0) (fun _ => 0) 0 rfl
  have hfresh : FreshEvent (stateWith cardLocked) (.process (Buffer.fill 4 0) fun _ => 0) := trivial
  have hrun := locked_run.next ⟨hfresh, hstep⟩
  have hprocessed : s'.card.processed = [mediaPacket] := by
    obtain ⟨card, hcard, hnext⟩ := hstep
    rw [processPacket_card (show processPacket allAsked _ _ _ mediaPacket = _ from hnext)]
    exact process_processed hcard
  refine ⟨_, s', hrun, hprocessed, fun i channel output hchannel hsent => ?_⟩
  rw [← hprocessed]
  exact ((path_delivers hrun).2.1 i channel output hchannel hsent).1

end MuMuDVB.DataPath
