import MuMuDVB.RecordedRun
import MuMuDVB.RewritePmt

/-!
# Runs of the PMT rewriter

The loop over the channels gives each PMT packet to
`pmt_rewrite_new_channel_packet`, together with one buffer for all channels,
and sends that buffer when the function returns 1. A run is any sequence of
such calls, for any channels, between which the other fields of the channels
may change.
-/
namespace MuMuDVB.PmtRuns

open CheckedMemory RecordedRun MuMuDVB.TsHeader MuMuDVB.Ts MuMuDVB.Channel
open MuMuDVB.RewriteSection MuMuDVB.RewritePmt

/-- Two states of a channel that agree in what the PMT rewriter keeps there. -/
structure SamePmt (channel channel' : MumudvbChannel) : Prop where
  generatedPmt : channel'.generatedPmt = channel.generatedPmt
  partNum : channel'.pmtPartNum = channel.pmtPartNum
  partCount : channel'.pmtPartCount = channel.pmtPartCount
  originalPmt : channel'.originalPmt = channel.originalPmt
  ready : channel'.originalPmtReady = channel.originalPmtReady
  version : channel'.generatedPmtVersion = channel.generatedPmtVersion
  counter : channel'.pmtContinuityCounter = channel.pmtContinuityCounter

structure Channels where
  channels : List MumudvbChannel
  /-- the local buffer of the main loop -/
  pmtTsPacket : Packet

/-- What happens: a packet for a channel, with the state the channel is in, or a change of the
settings of a channel. -/
inductive Event where
  | packet (i : Nat) (mem : PacketMemory) (channel : MumudvbChannel)
  | configure (i : Nat)

inductive Step : Channels → Event → Channels → Prop where
  | packet {s : Channels} {i : Nat} {mem : PacketMemory} {channel channel' : MumudvbChannel}
      {sent : Bool} {pmtTsPacket : Packet} (found : s.channels[i]? = some channel)
      (call : pmtRewriteNewChannelPacket mem s.pmtTsPacket channel =
        .ok (sent, pmtTsPacket, channel')) :
      Step s (.packet i mem channel)
        { channels := s.channels.set i channel', pmtTsPacket := pmtTsPacket }
  | configure {s : Channels} {i : Nat} {channel channel' : MumudvbChannel}
      (found : s.channels[i]? = some channel) (same : SamePmt channel channel') :
      Step s (.configure i) { s with channels := s.channels.set i channel' }

/-- The channels begin as zeroed memory; the buffer is not initialised. -/
def pmtSystem : System Channels Event where
  Initial s := ∀ channel ∈ s.channels, SamePmt zeroedChannel channel
  Step := Step

/-- The event is a successful `pmt_channel_rewrite` of channel `i`, which makes packet `p`. -/
def Event.Rewrites : Event → Nat → Packet → Prop
  | .packet j mem channel, i, p => j = i ∧ channel.channelReady.isReady = true ∧
      ∃ collected rewritten, pmtNeedUpdate mem channel = .ok (1, collected) ∧
        pmtChannelRewrite collected = .ok (true, rewritten) ∧ rewritten.generatedPmt = p
  | .configure _, _, _ => False

def Produced (past : List Event) (i : Nat) (p : Packet) : Prop := ∃ e ∈ past, e.Rewrites i p

/-- What the claim about a call says: the buffer is the generated PMT of the channel with its
counter, and that PMT comes from a successful rewrite of this channel. -/
structure Current (past : List Event) (i : Nat) (pmtTsPacket : Packet) (channel : MumudvbChannel) :
    Prop where
  buffer : pmtTsPacket = setCounter channel.generatedPmt channel.pmtContinuityCounter
  produced : Produced past i channel.generatedPmt

/-- What holds of a channel in every run. -/
structure Inv (past : List Event) (i : Nat) (channel : MumudvbChannel) : Prop where
  produced : channel.originalPmtReady = true → Produced past i channel.generatedPmt
  tableId : channel.originalPmtReady = true ∨ 0 < channel.pmtPartNum →
    tableId (channel.originalPmt.cells.drop 5) = 0x02
  untouched : channel.originalPmtReady = false → channel.pmtPartNum = 0 →
    ∀ p, ¬ Produced past i p

variable {past : List Event} {i : Nat} {mem : PacketMemory} {e : Event}
  {channel channel' : MumudvbChannel} {p : Packet}

theorem Produced.later (h : Produced past i p) : Produced (e :: past) i p := by
  obtain ⟨e', he', hrewrites⟩ := h
  exact ⟨e', List.mem_cons_of_mem _ he', hrewrites⟩

theorem produced_cons : Produced (e :: past) i p ↔ e.Rewrites i p ∨ Produced past i p := by
  simp [Produced]

/-- An event that rewrites nothing for the channel, which keeps its state. -/
theorem Inv.keep (h : Inv past i channel) (he : ∀ p, ¬ e.Rewrites i p)
    (hsame : SamePmt channel channel') : Inv (e :: past) i channel' := by
  refine ⟨?_, ?_, ?_⟩
  · rw [hsame.ready, hsame.generatedPmt]
    exact fun hready => (h.produced hready).later
  · rw [hsame.ready, hsame.partNum, hsame.originalPmt]
    exact h.tableId
  · rw [hsame.ready, hsame.partNum]
    intro hready hnum p hp
    rcases produced_cons.mp hp with hp | hp
    · exact he p hp
    · exact h.untouched hready hnum p hp

theorem SamePmt.refl (channel : MumudvbChannel) : SamePmt channel channel :=
  ⟨rfl, rfl, rfl, rfl, rfl, rfl, rfl⟩

/-- No call that needs no update rewrites anything. -/
theorem not_rewrites {result : Nat} (hcall : pmtNeedUpdate mem channel = .ok (result, channel'))
    (hone : result ≠ 1) (p : Packet) : ¬ (Event.packet i mem channel).Rewrites i p := by
  rintro ⟨-, -, collected, _, hneed, -⟩
  rw [hcall] at hneed
  cases hneed
  exact hone rfl

theorem byteAt_firstPart {j : Nat} (hj : j < 188) :
    byteAt (firstPart channel mem).cells j = byteAt mem.cells j := by
  rw [firstPart_cells, byteAt_append_left (by rw [mem.packet.length_cells]; exact hj),
    byteAt_packet mem hj]

theorem byteAt_splice_below {xs src : List UInt8} {j k : Nat} (hj : j < k) (hk : k ≤ xs.length) :
    byteAt (splice xs k src) j = byteAt xs j := by
  rw [splice, List.append_assoc, byteAt_append_left (by rw [List.length_take]; omega),
    byteAt_take hj]

/-- Collecting another packet keeps the table id. -/
theorem tableId_collected {originalPmt : Buffer UInt8 originalPmtSize} {k : Nat} {src : List UInt8}
    (hcells : originalPmt.cells = splice channel.originalPmt.cells (188 * (k + 1)) src)
    (hsrc : src.length = 188) : tableId (originalPmt.cells.drop 5) =
      tableId (channel.originalPmt.cells.drop 5) := by
  have hsize := channel.originalPmt.length_cells
  have hnext := originalPmt.length_cells
  rw [tableId, tableId, byteAt_drop, byteAt_drop]
  by_cases hin : 188 * (k + 1) ≤ 1880
  · rw [hcells, byteAt_splice_below (by omega) (by rw [hsize]; exact hin)]
  · -- a copy beyond the array is not possible
    rw [hcells, splice] at hnext
    simp only [List.length_append, List.length_take, List.length_drop, hsize, hsrc,
      originalPmtSize] at hnext
    omega

theorem tableId_started {len : Nat} :
    tableId ((started channel mem len).originalPmt.cells.drop 5) = tableId (mem.cells.drop 5) := by
  rw [tableId, tableId, byteAt_drop, byteAt_drop, started, byteAt_firstPart (by decide)]

/-- What the channel collects always begins with a PMT. -/
theorem pmtNeedUpdate_tableId {result : Nat}
    (h : channel.originalPmtReady = true ∨ 0 < channel.pmtPartNum →
      tableId (channel.originalPmt.cells.drop 5) = 0x02)
    (hcall : pmtNeedUpdate mem channel = .ok (result, channel'))
    (hset : channel'.originalPmtReady = true ∨ 0 < channel'.pmtPartNum) :
    tableId (channel'.originalPmt.cells.drop 5) = 0x02 := by
  obtain ⟨-, rfl, -⟩ | ⟨ht, -, -, rfl⟩ | ⟨-, -, hnum, originalPmt, hcells, -, rfl⟩ :=
    pmtNeedUpdate_cases hcall
  · exact h hset
  · rw [tableId_started]
    exact ht
  · exact (tableId_collected hcells (by simp)).trans (h (.inr hnum))

theorem pmtChannelRewrite_true (ht : tableId (channel.originalPmt.cells.drop 5) = 0x02) {r : Bool}
    (h : pmtChannelRewrite channel = .ok (r, channel')) :
    r = true ∧ channel'.originalPmtReady = channel.originalPmtReady ∧
      tableId (channel'.originalPmt.cells.drop 5) = 0x02 := by
  unfold pmtChannelRewrite at h
  dsimp only at h
  rw [if_neg (by simpa using ht)] at h
  simp only [bind_eq_ok, pure_ok, Except.ok.injEq, Prod.mk.injEq] at h
  obtain ⟨dest₀, -, dest, -, generated, -, rfl, rfl⟩ := h
  refine ⟨rfl, rfl, ?_⟩
  have hstart : tableId ((startHeader channel.originalPmt).cells.drop 5) = 0x02 := by
    rw [tableId, byteAt_drop, startHeader, byteAt_set_ne (by decide), setPayloadUnitStart,
      byteAt_set_ne (by decide), ← byteAt_drop (i := 5) (j := 0)]
    exact ht
  have h5 : ((startHeader channel.originalPmt).cells.take 5).length = 5 := by
    rw [List.length_take, (startHeader channel.originalPmt).length_cells]
    rfl
  rw [onlySectionAt, tsHeaderLen, List.drop_left' h5, tableId,
    byteAt_makeOnlySection (by decide) (by decide) (by decide)]
  exact hstart

/-- What a call does for a ready channel that collects only PMTs: it sends, it rewrites, or it
waits for more. -/
theorem pmtRewriteNewChannelPacket_cases {sent : Bool} {before after : Packet}
    (htable : channel.originalPmtReady = true ∨ 0 < channel.pmtPartNum →
      tableId (channel.originalPmt.cells.drop 5) = 0x02)
    (hready : channel.channelReady.isReady = true)
    (hcall : pmtRewriteNewChannelPacket mem before channel = .ok (sent, after, channel')) :
    (pmtNeedUpdate mem channel = .ok (0, channel) ∧ sent = true ∧
      (after, channel') = pmtSendPacket channel) ∨
    (∃ collected, pmtNeedUpdate mem channel = .ok (1, collected) ∧
      collected.originalPmtReady = true ∧
      pmtChannelRewrite collected = .ok (true, channel') ∧ sent = true ∧ after = before) ∨
    (pmtNeedUpdate mem channel = .ok (2, channel') ∧ sent = false) := by
  rw [pmtRewriteNewChannelPacket, if_pos hready] at hcall
  obtain ⟨⟨result, collected⟩, hneed, hrest⟩ := bind_eq_ok.mp hcall
  clear hcall
  dsimp only at hrest
  have hcases := pmtNeedUpdate_cases hneed
  split at hrest
  case isTrue hzero =>
    subst hzero
    have hsame : collected = channel := by
      obtain ⟨-, h, -⟩ | ⟨-, -, h, -⟩ | ⟨-, -, -, -, -, h, -⟩ := hcases
      · exact h
      · split at h <;> cases h
      · split at h <;> cases h
    subst hsame
    rw [pure_ok, Except.ok.injEq, Prod.mk.injEq] at hrest
    exact .inl ⟨hneed, hrest.1.symm, hrest.2.symm⟩
  case isFalse hzero =>
    split at hrest
    case isTrue hone =>
      subst hone
      have hset : collected.originalPmtReady = true := by
        obtain ⟨h, -⟩ | ⟨-, -, h, rfl⟩ | ⟨-, -, -, -, -, h, rfl⟩ := hcases
        · cases h
        · split at h
          case isTrue hnum => simp [started, hnum]
          case isFalse => cases h
        · split at h
          case isTrue hnum => simp [hnum]
          case isFalse => cases h
      obtain ⟨⟨rewritten, channel₂⟩, hrewrite, hlast⟩ := bind_eq_ok.mp hrest
      obtain ⟨rfl, -, -⟩ := pmtChannelRewrite_true
        (pmtNeedUpdate_tableId htable hneed (.inl hset)) hrewrite
      cases hlast
      exact .inr (.inl ⟨collected, hneed, hset, hrewrite, rfl, rfl⟩)
    case isFalse hone =>
      cases hrest
      have htwo : result = 2 := by
        obtain ⟨h, -⟩ | ⟨-, -, h, -⟩ | ⟨-, -, -, -, -, h, -⟩ := hcases
        · exact absurd h hzero
        · split at h
          · exact absurd h hone
          · exact h
        · split at h
          · exact absurd h hone
          · exact h
      subst htwo
      exact .inr (.inr ⟨hneed, rfl⟩)

/-- A channel that waits for more is not ready, and has begun. -/
theorem pmtNeedUpdate_two (hneed : pmtNeedUpdate mem channel = .ok (2, channel')) :
    channel'.originalPmtReady = false ∧ 0 < channel'.pmtPartNum := by
  obtain ⟨h, -⟩ | ⟨-, -, h, rfl⟩ | ⟨-, -, hnum, -, -, h, rfl⟩ := pmtNeedUpdate_cases hneed
  · cases h
  · split at h
    case isTrue => cases h
    case isFalse hmore => exact ⟨by simp [started, hmore], Nat.pos_of_ne_zero hmore⟩
  · split at h
    case isTrue => cases h
    case isFalse hmore => exact ⟨by simp [hmore], hnum⟩

/-- One call keeps the invariant of its channel. -/
theorem Inv.call {sent : Bool} {before after : Packet} (h : Inv past i channel)
    (hcall : pmtRewriteNewChannelPacket mem before channel = .ok (sent, after, channel')) :
    Inv (.packet i mem channel :: past) i channel' := by
  by_cases hready : channel.channelReady.isReady = true
  · obtain ⟨hneed, -, hsend⟩ | ⟨collected, hneed, hset, hrewrite, -⟩ | ⟨hneed, -⟩ :=
      pmtRewriteNewChannelPacket_cases h.tableId hready hcall
    · have hkeep := h.keep (not_rewrites (i := i) hneed (by decide)) (SamePmt.refl channel)
      cases hsend
      exact ⟨hkeep.produced, hkeep.tableId, hkeep.untouched⟩
    · obtain ⟨-, hset', htable⟩ := pmtChannelRewrite_true
        (pmtNeedUpdate_tableId h.tableId hneed (.inl hset)) hrewrite
      rw [hset] at hset'
      refine ⟨fun _ => ⟨_, List.mem_cons_self, rfl, hready, collected, channel', hneed, hrewrite,
        rfl⟩, fun _ => htable, fun hnot => ?_⟩
      rw [hset'] at hnot
      cases hnot
    · obtain ⟨hwait, hnum⟩ := pmtNeedUpdate_two hneed
      refine ⟨fun hset => ?_, pmtNeedUpdate_tableId h.tableId hneed, fun _ hzero => ?_⟩
      · rw [hwait] at hset
        cases hset
      · omega
  · rw [pmtRewriteNewChannelPacket, if_neg hready] at hcall
    cases hcall
    exact h.keep (fun p hp => hready hp.2.1) (SamePmt.refl channel)

/-- In every run, for every channel. -/
theorem inv_run {s : Channels} (hrun : Run pmtSystem past s) :
    ∀ i channel, s.channels[i]? = some channel → Inv past i channel := by
  refine hrun.invariant (P := fun past s =>
    ∀ i channel, s.channels[i]? = some channel → Inv past i channel) ?_ ?_
  · intro s hinit i channel hfound
    have hzero := hinit channel (List.mem_of_getElem? hfound)
    refine ⟨fun hready => ?_, fun hset => ?_, fun _ _ p ⟨e, he, _⟩ => by cases he⟩
    · rw [hzero.ready] at hready
      cases hready
    · rw [hzero.ready, hzero.partNum] at hset
      rcases hset with h | h <;> cases h
  · intro past s e s' ih hstep
    cases hstep with
    | @packet j mem before after sent pmtTsPacket hbefore hcall =>
      exact forall_set hbefore ((ih _ _ hbefore).call hcall) fun i channel hij hfound =>
        (ih i channel hfound).keep (fun p hp => hij hp.1) (SamePmt.refl channel)
    | @configure j before after hbefore hsame =>
      exact forall_set hbefore ((ih _ _ hbefore).keep (fun p hp => hp) hsame)
        fun i channel hij hfound => (ih i channel hfound).keep (fun p hp => hp)
          (SamePmt.refl channel)

/-- A packet can hold another byte than a given one. -/
theorem exists_ne (p : Packet) : ∃ q : Packet, q ≠ p := by
  refine ⟨Buffer.fill _ (byteAt p.cells 0 + 1), fun h => ?_⟩
  have hbyte := byteAt_fill (n := 188) (i := 0) (byteAt p.cells 0 + 1) (by decide)
  rw [show Buffer.fill 188 (byteAt p.cells 0 + 1) = p from h] at hbyte
  exact succ_ne _ hbyte.symm

/-- In every run, a call that returns 1 leaves the current PMT of its channel in the buffer,
whatever was there before, exactly when the channel has its PMT and the packet brings no other. -/
theorem pmtRewriteNewChannelPacket_current_iff {s : Channels} (hrun : Run pmtSystem past s)
    (hfound : s.channels[i]? = some channel)
    (hsent : ∃ before after channel',
      pmtRewriteNewChannelPacket mem before channel = .ok (true, after, channel')) :
    (∀ before after channel',
      pmtRewriteNewChannelPacket mem before channel = .ok (true, after, channel') →
      Current (.packet i mem channel :: past) i after channel') ↔ Settled mem channel := by
  have hinv := inv_run hrun i channel hfound
  obtain ⟨before₀, after₀, channel₀, hcall₀⟩ := hsent
  have hready : channel.channelReady.isReady = true := by
    by_contra hnot
    rw [pmtRewriteNewChannelPacket, if_neg hnot] at hcall₀
    cases hcall₀
  constructor
  · intro hcurrent
    obtain ⟨hneed, -, hsend⟩ | ⟨collected, hneed, -, hrewrite, -⟩ | ⟨-, hsent⟩ :=
      pmtRewriteNewChannelPacket_cases hinv.tableId hready hcall₀
    · obtain ⟨-, -, hsettled | ⟨-, hwait, hnum⟩⟩ | ⟨-, -, h, -⟩ | ⟨-, -, -, -, -, h, -⟩ :=
        pmtNeedUpdate_cases hneed
      · exact hsettled
      · -- nothing has been collected yet
        have hproduced := (hcurrent _ _ _ hcall₀).produced
        rcases produced_cons.mp hproduced with hp | hp
        · exact absurd hp (not_rewrites hneed (by decide) _)
        · exact absurd hp (hinv.untouched hwait hnum _)
      · split at h <;> cases h
      · split at h <;> cases h
    · -- the PMT has just been rewritten: the buffer is what it was
      obtain ⟨other, hother⟩ := exists_ne
        (setCounter channel₀.generatedPmt channel₀.pmtContinuityCounter)
      have hcall : pmtRewriteNewChannelPacket mem other channel = .ok (true, other, channel₀) := by
        rw [pmtRewriteNewChannelPacket, if_pos hready, hneed, bind_ok]
        dsimp only
        rw [if_neg (by decide), if_pos rfl, hrewrite, bind_ok]
        rfl
      exact absurd (hcurrent _ _ _ hcall).buffer hother
    · cases hsent
  · intro hsettled before after channel' hcall
    obtain ⟨hneed, -, hsend⟩ | ⟨collected, hneed, -, -⟩ | ⟨-, hsent⟩ :=
      pmtRewriteNewChannelPacket_cases hinv.tableId hready hcall
    · cases hsend
      exact ⟨rfl, (hinv.produced hsettled.1).later⟩
    · obtain ⟨h, -⟩ | ⟨-, hnot, -⟩ | ⟨-, hwait, -⟩ := pmtNeedUpdate_cases hneed
      · cases h
      · exact absurd hsettled hnot
      · rw [hsettled.1] at hwait
        cases hwait
    · cases hsent

def readyChannel : MumudvbChannel := { zeroedChannel with channelReady := .ready }

def emptyPmtMemory : PacketMemory := memoryWith 0xff emptyPmtPacket

def oneChannel : Channels := { channels := [readyChannel], pmtTsPacket := zeroPacket }

theorem oneChannel_run : Run pmtSystem [] oneChannel := by
  refine .start fun channel hchannel => ?_
  rw [List.mem_singleton.mp hchannel]
  exact ⟨rfl, rfl, rfl, rfl, rfl, rfl, rfl⟩

/-- The first call rewrites the PMT, and leaves the buffer alone. -/
theorem first_call : ∃ after channel',
    pmtRewriteNewChannelPacket emptyPmtMemory zeroPacket readyChannel =
      .ok (true, after, channel') ∧
    after ≠ setCounter channel'.generatedPmt channel'.pmtContinuityCounter ∧
    channel'.channelReady = .ready ∧ Settled emptyPmtMemory channel' := by
  have h : ((pmtRewriteNewChannelPacket emptyPmtMemory zeroPacket readyChannel).map fun r =>
      (r.1, r.2.1 == setCounter r.2.2.generatedPmt r.2.2.pmtContinuityCounter,
        r.2.2.channelReady, r.2.2.originalPmtReady,
        decide ((versionNumber (emptyPmtMemory.cells.drop 5) : Int) = r.2.2.generatedPmtVersion)))
      = .ok (true, false, .ready, true, true) := by
    decide +kernel
  cases hcall : pmtRewriteNewChannelPacket emptyPmtMemory zeroPacket readyChannel with
  | error f =>
    rw [hcall] at h
    cases h
  | ok r =>
    obtain ⟨sent, after, channel'⟩ := r
    rw [hcall] at h
    simp only [Except.map, Except.ok.injEq, Prod.mk.injEq, beq_eq_false_iff_ne,
      decide_eq_true_eq] at h
    obtain ⟨rfl, hbuffer, hready, hset, hversion⟩ := h
    exact ⟨after, channel', rfl, hbuffer, hready, hset, fun _ => hversion⟩

/-- The second call sends it. -/
theorem current_emptyPmt : ∃ past s channel, Run pmtSystem past s ∧
    s.channels[0]? = some channel ∧
    ((∀ before after channel',
      pmtRewriteNewChannelPacket emptyPmtMemory before channel = .ok (true, after, channel') →
      Current (.packet 0 emptyPmtMemory channel :: past) 0 after channel') ↔
        Settled emptyPmtMemory channel) := by
  obtain ⟨after, channel, hcall, -, hready, hsettled⟩ := first_call
  have hrun : Run pmtSystem [.packet 0 emptyPmtMemory readyChannel]
      { channels := [channel], pmtTsPacket := after } :=
    .next oneChannel_run (.packet (s := oneChannel) rfl hcall)
  have hneed : pmtNeedUpdate emptyPmtMemory channel = .ok (0, channel) := by
    have htable : tableId (emptyPmtMemory.cells.drop 5) = 0x02 := by decide +kernel
    unfold pmtNeedUpdate
    simp only [tsHeaderLen]
    rw [if_pos htable, if_pos ⟨hsettled.1, hsettled.2 htable⟩]
  refine ⟨_, _, channel, hrun, rfl, pmtRewriteNewChannelPacket_current_iff hrun rfl
    ⟨after, (pmtSendPacket channel).1, (pmtSendPacket channel).2, ?_⟩⟩
  rw [pmtRewriteNewChannelPacket, hready, if_pos (show ChanStatus.ready.isReady = true from rfl),
    hneed]
  rfl

theorem not_current_emptyPmt : Run pmtSystem [] oneChannel ∧
    oneChannel.channels[0]? = some readyChannel ∧ ∃ after channel',
    pmtRewriteNewChannelPacket emptyPmtMemory oneChannel.pmtTsPacket readyChannel =
      .ok (true, after, channel') ∧
    ¬ Current [.packet 0 emptyPmtMemory readyChannel] 0 after channel' := by
  obtain ⟨after, channel', hcall, hbuffer, -⟩ := first_call
  exact ⟨oneChannel_run, rfl, after, channel', hcall, fun h => hbuffer h.buffer⟩

end MuMuDVB.PmtRuns
