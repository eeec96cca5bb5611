import MuMuDVB.SharedLoop
import MuMuDVB.RewritePat
import MuMuDVB.RewriteSdt
import MuMuDVB.RewritePmt
import MuMuDVB.RewriteEit

/-!
# The loop over the channels

For each packet of the stream the main loop goes over the channels. It decides
whether a channel gets the packet, lets the rewriters work in place on the one
packet buffer, and appends what comes out to the buffer of the channel. The
conditional access modules read the packet only and are left out.
-/
namespace MuMuDVB.MainLoop

open CheckedMemory MuMuDVB.TsHeader MuMuDVB.Ts MuMuDVB.Channel
open MuMuDVB.RewritePat MuMuDVB.RewriteSdt MuMuDVB.RewritePmt MuMuDVB.RewriteEit

/-- What the loop does not change. -/
structure LoopParameters where
  /-- of the packet, read before the loop -/
  pid : Nat
  /-- the four bytes behind the packet in memory -/
  behind : Buffer UInt8 4
  psiTablesFiltering : Nat
  /-- `tune_p.fe_type==FE_ATSC` -/
  atsc : Bool
  dontSendScrambled : Bool

/-- What the channels share. -/
structure Shared where
  actualTsPacket : Packet
  pmtTsPacket : Packet
  vars : RewriteParameters

/-- `mandatory_pid`. -/
def mandatoryPid : List Nat := [0, 1, 16, 17, 18, 20]

@[simp] abbrev psipPid : Nat := 8187
@[simp] abbrev tsPaddingPid : Nat := 8191

/-- Whether the channel gets the PID at all. -/
def sendsPid (p : LoopParameters) (channel : MumudvbChannel) : Bool :=
  decide (p.pid ≠ tsPaddingPid) &&
    (mandatoryPid.contains p.pid || (decide (p.pid = psipPid) && p.atsc) ||
      channel.pids.any fun pid => decide (pid = p.pid) || decide (pid = 8192))

/-- `buffer_func`: what is appended to the output of the channel. -/
def bufferFunc (p : LoopParameters) (channel : MumudvbChannel) (packet : Packet) : List Packet :=
  if channel.scamSupportStarted then [packet]
  else if p.dontSendScrambled ∧ 0 < transportScramblingControl packet.cells ∧ channel.pmtPid ≠ 0
    then []
  else [packet]

/-- The packet buffer with the memory behind it. -/
def memoryOf (p : LoopParameters) (packet : Packet) : PacketMemory :=
  ⟨packet.cells ++ p.behind.cells, by
    rw [List.length_append, packet.length_cells, p.behind.length_cells]⟩

/-- The PMT of this channel is rewritten, and the packet is on its PID. -/
def IsPmtPacket (p : LoopParameters) (vars : RewriteParameters) (channel : MumudvbChannel) : Prop :=
  (p.pid : Int) = channel.pmtPid ∧ vars.rewritePmt = .on ∧ channel.pmtRewrite = 1

instance (p : LoopParameters) (vars : RewriteParameters) (channel : MumudvbChannel) :
    Decidable (IsPmtPacket p vars channel) := by
  unfold IsPmtPacket
  infer_instance

/-- The branch of the PMT rewriter. -/
def pmtBranch (p : LoopParameters) (s : Shared) (channel : MumudvbChannel) :
    Checked (Bool × Shared × MumudvbChannel) :=
  if IsPmtPacket p s.vars channel ∧ channel.pmtPid ≠ 0 then do
    let (send, pmtTsPacket, channel) ←
      pmtRewriteNewChannelPacket (memoryOf p s.actualTsPacket) s.pmtTsPacket channel
    return (send, { s with pmtTsPacket := pmtTsPacket }, channel)
  else .ok (true, s, channel)

/-- The branch of the PAT rewriter. -/
def patBranch (p : LoopParameters) (s : Shared) (channel : MumudvbChannel) :
    Checked (Bool × Shared × MumudvbChannel) :=
  if p.pid = 0 ∧ s.vars.rewritePat = .on then do
    let (send, st) ← patRewriteNewChannelPacket s.vars channel s.actualTsPacket
    return (send, { s with actualTsPacket := st.buf, vars := st.vars }, st.channel)
  else .ok (true, s, channel)

/-- The branch of the SDT rewriter. -/
def sdtBranch (p : LoopParameters) (s : Shared) (channel : MumudvbChannel) :
    Checked (Bool × Shared × MumudvbChannel) :=
  if p.pid = 17 ∧ s.vars.rewriteSdt = .on ∧ channel.sdtRewriteSkip = false then do
    let (send, st) ← sdtRewriteNewChannelPacket s.vars channel s.actualTsPacket
    return (send, { s with actualTsPacket := st.buf, vars := st.vars }, st.channel)
  else .ok (true, s, channel)

/-- The EIT is sent by its own rewriter. -/
def IsEitPacket (p : LoopParameters) (vars : RewriteParameters) (channel : MumudvbChannel) : Prop :=
  p.pid = 18 ∧ channel.serviceId ≠ 0 ∧ vars.rewriteEit = .on

instance (p : LoopParameters) (vars : RewriteParameters) (channel : MumudvbChannel) :
    Decidable (IsEitPacket p vars channel) := by
  unfold IsEitPacket
  infer_instance

/-- `psi_tables_filtering` lets the PID through. -/
def psiPasses (p : LoopParameters) : Prop :=
  ¬ (p.pid < 32 ∧ ((p.psiTablesFiltering = 1 ∧ 1 < p.pid) ∨ (p.psiTablesFiltering = 2 ∧ 0 < p.pid)))

instance (p : LoopParameters) : Decidable (psiPasses p) := by
  unfold psiPasses
  infer_instance

/-- The end of the loop body, for a packet that is sent so far. -/
def sendBranch (p : LoopParameters) (s : Shared) (channel : MumudvbChannel) :
    Checked (List Packet × Shared × MumudvbChannel) :=
  if IsEitPacket p s.vars channel then do
    let (packets, channel) ← eitRewriteNewChannelPacket s.vars channel s.actualTsPacket
    return (packets.flatMap (bufferFunc p channel), s, channel)
  else if psiPasses p then
    if IsPmtPacket p s.vars channel then .ok (bufferFunc p channel s.pmtTsPacket, s, channel)
    else .ok (bufferFunc p channel s.actualTsPacket, s, channel)
  else .ok ([], s, channel)

/-- The body of the loop after the branch of the PMT. -/
def afterPmt (p : LoopParameters) (s : Shared) (channel : MumudvbChannel) :
    Checked (List Packet × Shared × MumudvbChannel) := do
  let (send, s, channel) ← patBranch p s channel
  if send then
    let (send, s, channel) ← sdtBranch p s channel
    if send then sendBranch p s channel else return ([], s, channel)
  else return ([], s, channel)

/-- The body of the loop. -/
def channelStep (p : LoopParameters) (s : Shared) (channel : MumudvbChannel) :
    Checked (List Packet × Shared × MumudvbChannel) :=
  if channel.channelReady.isReady ∧ sendsPid p channel then do
    let (send, s, channel) ← pmtBranch p s channel
    if send then afterPmt p s channel else return ([], s, channel)
  else .ok ([], s, channel)

/-- The loop over the channels for one packet. -/
def channelLoop (p : LoopParameters) :
    Shared → List MumudvbChannel → Checked (List (List Packet) × Shared × List MumudvbChannel) :=
  SharedLoop.loop (channelStep p)

end MuMuDVB.MainLoop
