import MuMuDVB.RewriteSection

/-!
# PMT rewriting

The rewriter of the PMT has its own reassembly (`pmt_need_update` collects the
packets of a PMT in `original_pmt`), the same construction of a new section as
the other two, and a copy of its result in a buffer of the main loop.
-/
namespace MuMuDVB.RewritePmt

open CheckedMemory MuMuDVB.TsHeader MuMuDVB.Ts MuMuDVB.TsAssembler MuMuDVB.Channel
open MuMuDVB.RewriteSection MuMuDVB.TsReassembly

/-- Size of the PMT header. -/
@[simp] abbrev pmtLen : Nat := 12
/-- Size of the header of one elementary stream. -/
@[simp] abbrev pmtInfoLen : Nat := 5

/-- A packet in memory, with the four bytes that follow it: a copy of `TS_PACKET_SIZE` bytes from
`ts_packet + 4` reads them. -/
abbrev PacketMemory := Buffer UInt8 192

def PacketMemory.packet (mem : PacketMemory) : Packet :=
  ⟨mem.cells.take 188, by rw [List.length_take, mem.length_cells]; rfl⟩

/-- The number of continuation packets, as `pmt_need_update` computes it. -/
def pmtPartNumber (pmtLength : Nat) : Nat :=
  if (pmtLength + tsPacketSize) % tsPacketSize ≠ 0 then pmtLength / tsPacketSize
  else pmtLength / tsPacketSize - 1

/-- `pmt_need_update`. -/
def pmtNeedUpdate (mem : PacketMemory) (channel : MumudvbChannel) :
    Checked (Nat × MumudvbChannel) :=
  let pmt := mem.cells.drop tsHeaderLen
  if tableId pmt = 0x02 then
    if channel.originalPmtReady ∧ (versionNumber pmt : Int) = channel.generatedPmtVersion then
      .ok (0, channel)
    else do
      let partNum := pmtPartNumber (sectionLength pmt + 3)
      let src ← mem.slice 0 tsPacketSize
      let originalPmt ← channel.originalPmt.write 0 src
      let channel := { channel with
        pmtPartNum := partNum
        pmtPartCount := 0
        originalPmt := originalPmt }
      if partNum = 0 then return (1, { channel with originalPmtReady := true })
      else return (2, { channel with originalPmtReady := false })
  else if ¬ channel.originalPmtReady ∧ 0 < channel.pmtPartNum then do
    let count := channel.pmtPartCount + 1
    let src ← mem.slice 4 tsPacketSize
    let originalPmt ← channel.originalPmt.write (tsPacketSize * count) src
    let channel := { channel with pmtPartCount := count, originalPmt := originalPmt }
    if count = channel.pmtPartNum then return (1, { channel with originalPmtReady := true })
    else return (2, channel)
  else .ok (0, channel)

section info

variable (info : List UInt8)

def elementaryPid : Nat := hilo ((byteAt info 1).toNat % 32) (byteAt info 2).toNat
def esInfoLength : Nat := hilo ((byteAt info 3).toNat % 16) (byteAt info 4).toNat

end info

/-- The loop over the PIDs of the channel: the `len` bytes of the stream are copied for every PID
equal to its own. -/
def copyStream (pmt : Buffer UInt8 originalPmtSize) (off len pid : Nat) :
    List Int → List UInt8 → Checked (List UInt8)
  | [], dest => .ok dest
  | p :: pids, dest =>
    if (pid : Int) = p then do
      let stream ← pmt.slice off len
      let dest ← appendDest dest stream
      copyStream pmt off len pid pids dest
    else copyStream pmt off len pid pids dest

/-- The loop over the elementary streams, from offset `i` after the PMT header. -/
def pmtStreams (fuel : Nat) (pids : List Int) (pmt : Buffer UInt8 originalPmtSize) (esLen i : Nat)
    (dest : List UInt8) : Checked (List UInt8) :=
  match fuel with
  | 0 => .error .endless
  | fuel + 1 =>
    if i < esLen then do
      let off := tsHeaderLen + pmtLen + i
      let info ← pmt.slice off pmtInfoLen
      let esInfoLen := esInfoLength info
      -- the test against a write beyond the packet, before the PID is looked at
      if tsPacketSize - 4 ≤ dest.length + pmtInfoLen + esInfoLen then return dest
      else do
        let dest ← copyStream pmt off (pmtInfoLen + esInfoLen) (elementaryPid info) pids dest
        pmtStreams fuel pids pmt esLen (i + (pmtInfoLen + esInfoLen)) dest
    else .ok dest

/-- `pmt_channel_rewrite`. -/
def pmtChannelRewrite (channel : MumudvbChannel) : Checked (Bool × MumudvbChannel) :=
  let pmt := channel.originalPmt.cells.drop tsHeaderLen
  if tableId pmt ≠ 0x02 then .ok (false, channel)
  else do
    let sectionLength := sectionLength pmt + 3
    let originalPmt := onlySectionAt (startHeader channel.originalPmt) tsHeaderLen
    let dest ← appendDest [] (originalPmt.cells.take (tsHeaderLen + pmtLen))
    let esLen := sectionLength - pmtLen - 4
    let dest ← pmtStreams (maxTsSize + 1) channel.pids originalPmt esLen 0 dest
    let generated ← closeSection dest
    return (true, { channel with
      originalPmt := originalPmt
      generatedPmtVersion := versionNumber (originalPmt.cells.drop tsHeaderLen)
      generatedPmt := generated })

/-- `pmt_send_packet`: the buffer that is sent, and the channel. -/
def pmtSendPacket (channel : MumudvbChannel) : Packet × MumudvbChannel :=
  let cc := (channel.pmtContinuityCounter + 1) % 16
  (setCounter channel.generatedPmt cc, { channel with pmtContinuityCounter := cc })

/-- `pmt_rewrite_new_channel_packet`; `pmtTsPacket` is a buffer of the main loop. -/
def pmtRewriteNewChannelPacket (mem : PacketMemory) (pmtTsPacket : Packet)
    (channel : MumudvbChannel) : Checked (Bool × Packet × MumudvbChannel) :=
  if channel.channelReady.isReady then do
    let (needUpdate, channel) ← pmtNeedUpdate mem channel
    if needUpdate = 0 then
      return (true, pmtSendPacket channel)
    else if needUpdate = 1 then do
      let (rewritten, channel) ← pmtChannelRewrite channel
      if rewritten then return (true, pmtTsPacket, channel)
      -- the previous PMT, if any: version 0 counts as none
      else if channel.generatedPmtVersion ≠ 0 then return (true, pmtSendPacket channel)
      else return (false, pmtTsPacket, channel)
    else return (false, pmtTsPacket, channel)
  else .ok (false, pmtTsPacket, channel)

theorem copyStream_extends {pmt : Buffer UInt8 originalPmtSize} {off len pid : Nat} :
    ∀ {pids : List Int} {dest dest' : List UInt8},
      copyStream pmt off len pid pids dest = .ok dest' → dest <+: dest'
  | [], dest, dest', h => by
    cases h
    exact List.prefix_refl _
  | p :: pids, dest, dest', h => by
    rw [copyStream] at h
    split at h
    · obtain ⟨stream, -, h⟩ := bind_eq_ok.mp h
      obtain ⟨dest₁, happ, h⟩ := bind_eq_ok.mp h
      exact (appendDest_extends happ).trans (copyStream_extends h)
    · exact copyStream_extends h

theorem pmtStreams_extends {pids : List Int} {pmt : Buffer UInt8 originalPmtSize} {esLen : Nat}
    (fuel : Nat) : ∀ {i : Nat} {dest dest' : List UInt8},
      pmtStreams fuel pids pmt esLen i dest = .ok dest' → dest <+: dest' := by
  induction fuel with
  | zero =>
    intro i dest dest' h
    cases h
  | succ fuel ih =>
    intro i dest dest' h
    rw [pmtStreams] at h
    split at h
    · obtain ⟨info, -, h⟩ := bind_eq_ok.mp h
      dsimp only at h
      split at h
      · cases h
        exact List.prefix_refl _
      · obtain ⟨dest₁, hcopy, h⟩ := bind_eq_ok.mp h
        exact (copyStream_extends hcopy).trans (ih h)
    · cases h
      exact List.prefix_refl _

/-- A rewrite that succeeds leaves a packet built behind the header of `original_pmt`. -/
theorem pmtChannelRewrite_opened {channel channel' : MumudvbChannel}
    (h : pmtChannelRewrite channel = .ok (true, channel')) :
    ∃ dest, Opened channel.originalPmt.cells dest ∧
      closeSection dest = .ok channel'.generatedPmt := by
  unfold pmtChannelRewrite at h
  dsimp only at h
  split at h
  · cases h
  · simp only [bind_eq_ok] at h
    obtain ⟨dest₀, h₀, dest, hloop, generated, hclose, h⟩ := h
    cases h
    refine ⟨dest, Opened.of_prefix ?_ (pmtStreams_extends _ hloop), hclose⟩
    have hlen := (startHeader channel.originalPmt).length_cells
    unfold appendDest at h₀
    split at h₀ <;> cases h₀
    have h5 : ((startHeader channel.originalPmt).cells.take 5).length = 5 := by
      rw [List.length_take, hlen]
      rfl
    have hopen := @opened_header _ channel.originalPmt
      ((startHeader channel.originalPmt).cells.drop 5) 12 (by decide)
      (by rw [List.length_drop, hlen]; decide) (by decide)
    rw [List.nil_append, onlySectionAt, tsHeaderLen, pmtLen, List.take_append, h5,
      List.take_of_length_le (by rw [h5]; decide)]
    exact hopen

/-- A PMT section. -/
structure IsPmt (s : List UInt8) : Prop where
  tableId : tableId s = 0x02
  length : s.length = sectionSize s
  atLeast : 16 ≤ s.length
  atMost : s.length ≤ 1024

/-- `packets` carry the end `rest` of a section. -/
inductive Continues : List UInt8 → List Packet → Prop where
  | done : Continues [] []
  | packet {rest : List UInt8} {p : Packet} {packets : List Packet} (more : rest ≠ [])
      (start : payloadUnitStartIndicator p.cells = false)
      (adaptationField : adaptationFieldControl p.cells = 1)
      (payload : p.cells.drop 4 = pad 184 rest) (later : Continues (rest.drop 184) packets) :
      Continues rest (p :: packets)

/-- `first` and then `packets` carry section `s`, split in the standard way. -/
structure PmtPackets (s : List UInt8) (first : Packet) (packets : List Packet) : Prop where
  start : payloadUnitStartIndicator first.cells = true
  adaptationField : adaptationFieldControl first.cells = 1
  pointer : byteAt first.cells 4 = 0
  payload : first.cells.drop 5 = pad 183 s
  later : Continues (s.drop 183) packets

/-- The calls of `pmt_need_update` on consecutive packets: each result, with `original_pmt`. -/
def pmtFeed : MumudvbChannel → List PacketMemory →
    Checked (List (Nat × Buffer UInt8 originalPmtSize))
  | _, [] => .ok []
  | channel, mem :: mems => do
    let (result, channel) ← pmtNeedUpdate mem channel
    let later ← pmtFeed channel mems
    return (result, channel.originalPmt) :: later

/-- A channel that takes the section for a new one. -/
def Fresh (channel : MumudvbChannel) (s : List UInt8) : Prop :=
  channel.originalPmtReady = false ∨ (versionNumber s : Int) ≠ channel.generatedPmtVersion

/-- Whenever a call returns 1 `original_pmt` holds the header and the section, and for a new section
one does. -/
def Reassembled (channel : MumudvbChannel) (mems : List PacketMemory) (header s : List UInt8) :
    Prop :=
  ∃ results, pmtFeed channel mems = .ok results ∧
    (Fresh channel s → ∃ r ∈ results, r.1 = 1) ∧
    ∀ r ∈ results, r.1 = 1 → r.2.cells.take (header.length + s.length) = header ++ s

variable {s : List UInt8} {first : Packet} {packets : List Packet} {mem : PacketMemory}
  {channel : MumudvbChannel}

theorem byteAt_packet (mem : PacketMemory) {i : Nat} (h : i < 188) :
    byteAt mem.packet.cells i = byteAt mem.cells i := byteAt_take h

theorem byteAt_pad {n i : Nat} {xs : List UInt8} (hi : i < n) (hx : i < xs.length) :
    byteAt (pad n xs) i = byteAt xs i := by
  rw [pad, byteAt_append_left (by rw [List.length_take]; omega), byteAt_take hi]

/-- The section in the first packet. -/
theorem byteAt_first (h : PmtPackets s mem.packet packets) {i : Nat} (hi : i < 183)
    (hs : i < s.length) : byteAt (mem.cells.drop 5) i = byteAt s i := by
  rw [byteAt_drop, ← byteAt_packet mem (by omega), ← byteAt_drop, h.payload, byteAt_pad hi hs]

theorem sectionLength_first (hs : IsPmt s) (h : PmtPackets s mem.packet packets) :
    sectionLength (mem.cells.drop 5) + 3 = s.length := by
  have hlen := hs.atLeast
  rw [hs.length, sectionSize, sectionLength, sectionLength, byteAt_first h (by decide) (by omega),
    byteAt_first h (by decide) (by omega)]

/-- `original_pmt` after the first packet of a section. -/
def firstPart (channel : MumudvbChannel) (mem : PacketMemory) : Buffer UInt8 originalPmtSize :=
  ⟨splice channel.originalPmt.cells 0 mem.packet.cells, by
    rw [length_splice (by simp), channel.originalPmt.length_cells]⟩

/-- The channel after the first packet of a section of `len` bytes. -/
def started (channel : MumudvbChannel) (mem : PacketMemory) (len : Nat) : MumudvbChannel :=
  { channel with
    pmtPartNum := pmtPartNumber len
    pmtPartCount := 0
    originalPmt := firstPart channel mem
    originalPmtReady := decide (pmtPartNumber len = 0) }

/-- The first packet starts the collection; when the code thinks that there is no other packet, it
ends it too. -/
theorem pmtNeedUpdate_start (ht : tableId (mem.cells.drop 5) = 0x02)
    (hfresh : ¬ (channel.originalPmtReady = true ∧
      (versionNumber (mem.cells.drop 5) : Int) = channel.generatedPmtVersion)) :
    pmtNeedUpdate mem channel =
      .ok (if pmtPartNumber (sectionLength (mem.cells.drop 5) + 3) = 0 then 1 else 2,
        started channel mem (sectionLength (mem.cells.drop 5) + 3)) := by
  have hwrite : channel.originalPmt.write 0 mem.packet.cells = .ok (firstPart channel mem) := by
    rw [Buffer.write, dif_pos (by simp)]
    rfl
  have hslice : mem.slice 0 188 = .ok mem.packet.cells := mem.slice_ok (by decide)
  unfold pmtNeedUpdate started
  simp only [tsHeaderLen, tsPacketSize]
  rw [if_pos ht, if_neg hfresh, hslice, bind_ok, hwrite, bind_ok]
  split <;> simp [*]

/-- `original_pmt` after a continuation packet, copied with the four bytes behind it. -/
theorem pmtNeedUpdate_continue (ht : tableId (mem.cells.drop 5) ≠ 0x02)
    {c : MumudvbChannel} (hready : c.originalPmtReady = false) (hnum : 0 < c.pmtPartNum)
    (hcount : c.pmtPartCount < 9) :
    ∃ originalPmt : Buffer UInt8 originalPmtSize, originalPmt.cells =
        splice c.originalPmt.cells (188 * (c.pmtPartCount + 1)) ((mem.cells.drop 4).take 188) ∧
      pmtNeedUpdate mem c =
        .ok (if c.pmtPartCount + 1 = c.pmtPartNum then 1 else 2,
          { c with
            pmtPartCount := c.pmtPartCount + 1
            originalPmt := originalPmt
            originalPmtReady := decide (c.pmtPartCount + 1 = c.pmtPartNum) }) := by
  have hlen : ((mem.cells.drop 4).take 188).length = 188 := by simp
  obtain ⟨originalPmt, hwrite, hcells⟩ := c.originalPmt.write_ok
    (188 * (c.pmtPartCount + 1)) ((mem.cells.drop 4).take 188)
    (by rw [hlen]; simp only [originalPmtSize]; omega)
  refine ⟨originalPmt, hcells, ?_⟩
  unfold pmtNeedUpdate
  simp only [tsHeaderLen, tsPacketSize]
  rw [if_neg ht, if_pos ⟨by simp [hready], hnum⟩, mem.slice_ok (by decide), bind_ok, hwrite, bind_ok]
  split <;> simp [*]

/-- The packet brings nothing for a channel that has its PMT: no PMT, or the same version. -/
def Settled (mem : PacketMemory) (channel : MumudvbChannel) : Prop :=
  channel.originalPmtReady = true ∧ (tableId (mem.cells.drop 5) = 0x02 →
    (versionNumber (mem.cells.drop 5) : Int) = channel.generatedPmtVersion)

/-- What a call of `pmt_need_update` can do: nothing, start a new collection, or go on with one. -/
theorem pmtNeedUpdate_cases {result : Nat} {channel' : MumudvbChannel}
    (h : pmtNeedUpdate mem channel = .ok (result, channel')) :
    (result = 0 ∧ channel' = channel ∧ (Settled mem channel ∨
      (tableId (mem.cells.drop 5) ≠ 0x02 ∧ channel.originalPmtReady = false ∧
        channel.pmtPartNum = 0))) ∨
    (tableId (mem.cells.drop 5) = 0x02 ∧ ¬ Settled mem channel ∧
      result = (if pmtPartNumber (sectionLength (mem.cells.drop 5) + 3) = 0 then 1 else 2) ∧
      channel' = started channel mem (sectionLength (mem.cells.drop 5) + 3)) ∨
    (tableId (mem.cells.drop 5) ≠ 0x02 ∧ channel.originalPmtReady = false ∧
      0 < channel.pmtPartNum ∧
      ∃ originalPmt : Buffer UInt8 originalPmtSize, originalPmt.cells =
        splice channel.originalPmt.cells (188 * (channel.pmtPartCount + 1))
          ((mem.cells.drop 4).take 188) ∧
      result = (if channel.pmtPartCount + 1 = channel.pmtPartNum then 1 else 2) ∧
      channel' = { channel with
        pmtPartCount := channel.pmtPartCount + 1
        originalPmt := originalPmt
        originalPmtReady := decide (channel.pmtPartCount + 1 = channel.pmtPartNum) }) := by
  by_cases ht : tableId (mem.cells.drop 5) = 0x02
  · by_cases hnew : channel.originalPmtReady = true ∧
        (versionNumber (mem.cells.drop 5) : Int) = channel.generatedPmtVersion
    · rw [pmtNeedUpdate] at h
      simp only [tsHeaderLen, if_pos ht, if_pos hnew, Except.ok.injEq, Prod.mk.injEq] at h
      exact .inl ⟨h.1.symm, h.2.symm, .inl ⟨hnew.1, fun _ => hnew.2⟩⟩
    · rw [pmtNeedUpdate_start ht hnew] at h
      cases h
      exact .inr (.inl ⟨ht, fun hsettled => hnew ⟨hsettled.1, hsettled.2 ht⟩, rfl, rfl⟩)
  · rw [pmtNeedUpdate] at h
    simp only [tsHeaderLen, if_neg ht] at h
    split at h
    case isTrue hgo =>
      have hready : channel.originalPmtReady = false := by simpa using hgo.1
      rw [mem.slice_ok (by decide), bind_ok] at h
      obtain ⟨originalPmt, hwrite, hlast⟩ := bind_eq_ok.mp h
      refine .inr (.inr ⟨ht, hready, hgo.2, originalPmt, Buffer.write_eq_ok hwrite, ?_⟩)
      clear h
      split at hlast
      · cases hlast
        simp [*]
      · cases hlast
        simp [*]
    case isFalse hstop =>
      cases h
      refine .inl ⟨rfl, rfl, ?_⟩
      by_cases hready : channel.originalPmtReady = true
      · exact .inl ⟨hready, fun h => absurd h ht⟩
      · exact .inr ⟨ht, by simpa using hready,
          Nat.eq_zero_of_not_pos fun hnum => hstop ⟨hready, hnum⟩⟩

theorem not_uptodate (h : Fresh channel s) (hs : IsPmt s)
    (hp : PmtPackets s mem.packet packets) :
    ¬ (channel.originalPmtReady = true ∧
      (versionNumber (mem.cells.drop 5) : Int) = channel.generatedPmtVersion) := by
  have hlen := hs.atLeast
  rintro ⟨hready, hversion⟩
  rw [versionNumber, byteAt_first hp (by decide) (by omega)] at hversion
  rcases h with h | h
  · rw [hready] at h
    cases h
  · exact h hversion

theorem tableId_first (hs : IsPmt s) (hp : PmtPackets s mem.packet packets) :
    tableId (mem.cells.drop 5) = 0x02 := by
  have hlen := hs.atLeast
  rw [tableId, byteAt_first hp (by decide) (by omega)]
  exact hs.tableId

/-- What `pmt_need_update` does with the first packet of a new section. -/
theorem pmtNeedUpdate_first (hs : IsPmt s) (hp : PmtPackets s mem.packet packets)
    (hfresh : Fresh channel s) :
    pmtNeedUpdate mem channel =
      .ok (if pmtPartNumber s.length = 0 then 1 else 2, started channel mem s.length) := by
  rw [pmtNeedUpdate_start (tableId_first hs hp) (not_uptodate hfresh hs hp),
    sectionLength_first hs hp]

theorem pmtPartNumber_zero {len : Nat} : pmtPartNumber len = 0 ↔ len ≤ 188 := by
  unfold pmtPartNumber
  simp only [tsPacketSize]
  split <;> omega

theorem pmtPartNumber_one {len : Nat} (h : 188 < len) (h' : len ≤ 376) : pmtPartNumber len = 1 := by
  unfold pmtPartNumber
  simp only [tsPacketSize]
  split <;> omega

theorem firstPart_cells (channel : MumudvbChannel) (mem : PacketMemory) :
    (firstPart channel mem).cells = mem.packet.cells ++ channel.originalPmt.cells.drop 188 := by
  simp [firstPart, splice]

theorem length_header (p : Packet) : (p.cells.take 5).length = 5 := by
  rw [List.length_take, p.length_cells]
  rfl

/-- The first 188 bytes: the header and as much of the section as fits. -/
theorem packet_eq (hp : PmtPackets s mem.packet packets) :
    mem.packet.cells = mem.packet.cells.take 5 ++ pad 183 s := by
  rw [← hp.payload, List.take_append_drop]

theorem take_pad {n : Nat} {xs : List UInt8} (h : xs.length ≤ n) :
    (pad n xs).take xs.length = xs := by
  rw [pad, List.take_of_length_le h, List.take_left]

/-- A section that one packet holds. -/
theorem take_firstPart (hp : PmtPackets s mem.packet packets) (hlen : s.length ≤ 183) :
    (firstPart channel mem).cells.take ((mem.packet.cells.take 5).length + s.length) =
      mem.packet.cells.take 5 ++ s := by
  have h5 := length_header mem.packet
  have hall : mem.packet.cells.length = 188 := mem.packet.length_cells
  have hsplit := packet_eq hp
  rw [firstPart_cells, List.take_append_of_le_length (by omega)]
  generalize mem.packet.cells.take 5 = header at hsplit ⊢
  rw [hsplit, List.take_length_add_append, take_pad hlen]

/-- A section that two packets hold. -/
theorem take_secondPart {mem' : PacketMemory} {originalPmt : Buffer UInt8 originalPmtSize}
    (hp : PmtPackets s mem.packet packets) (hlow : 183 < s.length) (hlen : s.length ≤ 367)
    (hnext : mem'.packet.cells.drop 4 = pad 184 (s.drop 183))
    (hcells : originalPmt.cells = splice (firstPart channel mem).cells 188
      ((mem'.cells.drop 4).take 188)) :
    originalPmt.cells.take ((mem.packet.cells.take 5).length + s.length) =
      mem.packet.cells.take 5 ++ s := by
  have h5 := length_header mem.packet
  have hall : mem.packet.cells.length = 188 := mem.packet.length_cells
  have hsrc : ((mem'.cells.drop 4).take 188).length = 188 := by simp
  have hmem : ((mem'.cells.drop 4).take 188).take 184 = pad 184 (s.drop 183) := by
    rw [← hnext, PacketMemory.packet, List.take_take, List.drop_take]
    rfl
  have hfirst : (firstPart channel mem).cells.take 188 = mem.packet.cells := by
    rw [firstPart_cells, ← hall, List.take_left]
  have hrest : (s.drop 183).length = s.length - 183 := List.length_drop
  have hfill : pad 183 s = s.take 183 := by
    rw [pad, show 183 - s.length = 0 by omega, List.replicate_zero, List.append_nil]
  have hkept : (((mem'.cells.drop 4).take 188)).take (s.drop 183).length = s.drop 183 := by
    have h := congrArg (List.take (s.drop 183).length) hmem
    rw [List.take_take, Nat.min_eq_left (by omega), take_pad (by omega)] at h
    exact h
  rw [hcells, splice, hfirst, List.append_assoc, h5,
    show 5 + s.length = mem.packet.cells.length + (s.drop 183).length by omega,
    List.take_length_add_append, List.take_append_of_le_length (by omega), hkept]
  have hsplit := packet_eq hp
  generalize mem.packet.cells.take 5 = header at hsplit ⊢
  rw [hsplit, hfill, List.append_assoc, List.take_append_drop]

theorem pmtFeed_cons {result : Nat} {channel' : MumudvbChannel} {mems : List PacketMemory}
    (h : pmtNeedUpdate mem channel = .ok (result, channel')) :
    pmtFeed channel (mem :: mems) = (do
      let later ← pmtFeed channel' mems
      return (result, channel'.originalPmt) :: later) := by
  rw [pmtFeed, h]
  rfl

theorem continues_nil (h : Continues [] packets) : packets = [] := by
  cases h with
  | done => rfl
  | packet more => exact absurd rfl more

theorem continues_cons {rest : List UInt8} {p : Packet} (h : Continues rest (p :: packets)) :
    payloadUnitStartIndicator p.cells = false ∧ p.cells.drop 4 = pad 184 rest ∧
      Continues (rest.drop 184) packets := by
  cases h with
  | packet _ start _ payload later => exact ⟨start, payload, later⟩

theorem continues_start {rest : List UInt8} (h : Continues rest packets) :
    ∀ p ∈ packets, payloadUnitStartIndicator p.cells = false := by
  induction h with
  | done =>
    intro p hp
    cases hp
  | packet _ start _ _ _ ih =>
    intro p hp
    rcases List.mem_cons.mp hp with rfl | hp
    · exact start
    · exact ih p hp

theorem continues_one {rest : List UInt8} (h : Continues rest packets) (hlow : 0 < rest.length)
    (hhigh : rest.length ≤ 184) : ∃ p, packets = [p] := by
  cases h with
  | done => cases hlow
  | packet _ _ _ _ later =>
    rw [List.drop_eq_nil_of_le hhigh] at later
    exact ⟨_, by rw [continues_nil later]⟩

/-- The first byte that a continuation packet has where a table id would stand. -/
theorem tableId_continuation {rest : List UInt8} {p : Packet} (hmem : mem.packet = p)
    (hpayload : p.cells.drop 4 = pad 184 rest) (hrest : 2 ≤ rest.length) :
    tableId (mem.cells.drop 5) = byteAt rest 1 := by
  rw [tableId, byteAt_drop, ← byteAt_packet mem (by omega), hmem,
    show (5 : Nat) + 0 = 4 + 1 from rfl, ← byteAt_drop, hpayload, byteAt_pad (by omega) hrest]

/-- A section that the channel has already. -/
theorem pmtNeedUpdate_known (hs : IsPmt s) (hp : PmtPackets s mem.packet packets)
    (hknown : ¬ Fresh channel s) :
    channel.originalPmtReady = true ∧ pmtNeedUpdate mem channel = .ok (0, channel) := by
  have hlen := hs.atLeast
  obtain ⟨hready, hversion⟩ := not_or.mp hknown
  have hready : channel.originalPmtReady = true := by simpa using hready
  refine ⟨hready, ?_⟩
  have hsame : versionNumber (mem.cells.drop 5) = versionNumber s := by
    rw [versionNumber, versionNumber, byteAt_first hp (by decide) (by omega)]
  unfold pmtNeedUpdate
  simp only [tsHeaderLen]
  rw [if_pos (tableId_first hs hp), if_pos ⟨hready, by rw [hsame]; exact not_not.mp hversion⟩]

theorem reassembled_one (hs : IsPmt s) (hp : PmtPackets s mem.packet packets)
    (hlen : s.length ≤ 183) : Reassembled channel [mem] (mem.packet.cells.take 5) s := by
  by_cases hfresh : Fresh channel s
  · have hnum : pmtPartNumber s.length = 0 := pmtPartNumber_zero.mpr (by omega)
    refine ⟨[(1, firstPart channel mem)], ?_, fun _ => ⟨_, List.mem_singleton_self _, rfl⟩, ?_⟩
    · rw [pmtFeed_cons (pmtNeedUpdate_first hs hp hfresh)]
      simp [pmtFeed, started, hnum]
    · intro r hr _
      rw [List.mem_singleton.mp hr]
      exact take_firstPart hp hlen
  · refine ⟨[(0, channel.originalPmt)], ?_, fun h => absurd h hfresh, ?_⟩
    · simp [pmtFeed, (pmtNeedUpdate_known hs hp hfresh).2]
    · intro r hr hone
      rw [List.mem_singleton.mp hr] at hone
      cases hone

theorem reassembled_two {mem' : PacketMemory} (hs : IsPmt s)
    (hp : PmtPackets s mem.packet [mem'.packet]) (hlow : 189 ≤ s.length) (hlen : s.length ≤ 367)
    (htable : byteAt s 184 ≠ 0x02) :
    Reassembled channel [mem, mem'] (mem.packet.cells.take 5) s := by
  have hrest : (s.drop 183).length = s.length - 183 := List.length_drop
  obtain ⟨-, hpayload, -⟩ := continues_cons hp.later
  have htable' : tableId (mem'.cells.drop 5) ≠ 0x02 := by
    rw [tableId_continuation rfl hpayload (by omega), byteAt_drop]
    exact htable
  have hnum : pmtPartNumber s.length = 1 := pmtPartNumber_one (by omega) (by omega)
  by_cases hfresh : Fresh channel s
  · obtain ⟨originalPmt, hcells, hnext⟩ := pmtNeedUpdate_continue
      (c := started channel mem s.length) htable' (by simp [started, hnum])
      (by simp [started, hnum]) (by simp [started])
    refine ⟨[(2, firstPart channel mem), (1, originalPmt)], ?_,
      fun _ => ⟨_, List.mem_cons_of_mem _ (List.mem_singleton_self _), rfl⟩, ?_⟩
    · rw [pmtFeed_cons (pmtNeedUpdate_first hs hp hfresh), pmtFeed_cons hnext]
      simp [pmtFeed, started, hnum]
    · intro r hr hone
      simp only [List.mem_cons, List.not_mem_nil, or_false] at hr
      rcases hr with rfl | rfl
      · cases hone
      · exact take_secondPart hp (by omega) hlen hpayload hcells
  · obtain ⟨hready, hfirst⟩ := pmtNeedUpdate_known hs hp hfresh
    have hnext : pmtNeedUpdate mem' channel = .ok (0, channel) := by
      unfold pmtNeedUpdate
      simp only [tsHeaderLen]
      rw [if_neg htable', if_neg (by simp [hready])]
    refine ⟨[(0, channel.originalPmt), (0, channel.originalPmt)], ?_,
      fun h => absurd h hfresh, ?_⟩
    · simp [pmtFeed, hfirst, hnext]
    · intro r hr hone
      simp only [List.mem_cons, List.not_mem_nil, or_false, or_self] at hr
      rw [hr] at hone
      cases hone

theorem byteAt_splice {xs src : List UInt8} {i j : Nat} (hi : i ≤ xs.length) (hj : j < src.length) :
    byteAt (splice xs i src) (i + j) = byteAt src j := by
  have hlen : (xs.take i).length = i := List.length_take_of_le hi
  rw [splice, List.append_assoc, ← byteAt_drop, List.drop_left' hlen, byteAt_append_left hj]

/-- The buffer holds a section behind a header. -/
theorem byteAt_reassembled {xs header : List UInt8} {i : Nat} (h5 : header.length = 5)
    (h : xs.take (header.length + s.length) = header ++ s) (hi : i < s.length) :
    byteAt xs (5 + i) = byteAt s i := by
  rw [← byteAt_take (k := header.length + s.length) (by omega), h, ← h5, byteAt_append_right]

theorem payloadUnitStart_reassembled {xs header : List UInt8} (h5 : header.length = 5)
    (h : xs.take (header.length + s.length) = header ++ s) :
    payloadUnitStartIndicator xs = payloadUnitStartIndicator header := by
  have h1 : byteAt xs 1 = byteAt header 1 := by
    rw [← byteAt_take (k := header.length + s.length) (by omega), h,
      byteAt_append_left (by omega)]
  rw [payloadUnitStartIndicator, payloadUnitStartIndicator, h1]

/-- `original_pmt` cannot become the section any more: it begins with a continuation packet, or a
byte of the section has been replaced by one that follows a packet in memory. -/
def Spoilt (s : List UInt8) (channel : MumudvbChannel) : Prop :=
  payloadUnitStartIndicator channel.originalPmt.cells = false ∨
    (1 ≤ channel.pmtPartCount ∧ 367 < s.length ∧
      byteAt channel.originalPmt.cells 372 ≠ byteAt s 367)

theorem Spoilt.wrong {header : List UInt8} (h : Spoilt s channel) (h5 : header.length = 5)
    (hstart : payloadUnitStartIndicator header = true) :
    channel.originalPmt.cells.take (header.length + s.length) ≠ header ++ s := by
  intro heq
  rcases h with h | ⟨-, hlen, h⟩
  · rw [payloadUnitStart_reassembled h5 heq, hstart] at h
    cases h
  · exact h (byteAt_reassembled h5 heq hlen)

theorem payloadUnitStart_take {xs : List UInt8} {k : Nat} (h : 1 < k) :
    payloadUnitStartIndicator (xs.take k) = payloadUnitStartIndicator xs := by
  rw [payloadUnitStartIndicator, payloadUnitStartIndicator, byteAt_take h]

theorem spoilt_started {len : Nat} (h : payloadUnitStartIndicator mem.packet.cells = false) :
    Spoilt s (started channel mem len) := by
  left
  rw [started, firstPart_cells, payloadUnitStartIndicator,
    byteAt_append_left (by rw [mem.packet.length_cells]; decide)]
  exact h

/-- One more continuation packet. -/
theorem Spoilt.step {result : Nat} {channel' : MumudvbChannel} (h : Spoilt s channel)
    (hmem : payloadUnitStartIndicator mem.packet.cells = false)
    (hcall : pmtNeedUpdate mem channel = .ok (result, channel')) : Spoilt s channel' := by
  obtain ⟨-, rfl, -⟩ | ⟨-, -, -, rfl⟩ | ⟨-, -, -, originalPmt, hcells, -, rfl⟩ :=
    pmtNeedUpdate_cases hcall
  · exact h
  · exact spoilt_started hmem
  · have hkeep : ∀ i, i < 188 * (channel.pmtPartCount + 1) → i < 1880 →
        byteAt originalPmt.cells i = byteAt channel.originalPmt.cells i := by
      intro i hi hsize
      rw [hcells, splice, List.append_assoc, byteAt_append_left (by
        rw [List.length_take, channel.originalPmt.length_cells]
        simp only [originalPmtSize]
        omega), byteAt_take hi]
    rcases h with h | ⟨hcount, hlen, h⟩
    · left
      rw [payloadUnitStartIndicator, hkeep 1 (by omega) (by decide)]
      exact h
    · right
      refine ⟨Nat.le_add_left _ _, hlen, ?_⟩
      rw [hkeep 372 (by omega) (by decide)]
      exact h

/-- Any number of continuation packets. -/
theorem Spoilt.run {header : List UInt8} (h5 : header.length = 5)
    (hstart : payloadUnitStartIndicator header = true) {mems : List PacketMemory}
    (hmems : ∀ mem ∈ mems, payloadUnitStartIndicator mem.packet.cells = false) :
    ∀ {channel : MumudvbChannel} {results}, Spoilt s channel →
      pmtFeed channel mems = .ok results →
      ∀ r ∈ results, r.2.cells.take (header.length + s.length) ≠ header ++ s := by
  induction mems with
  | nil =>
    intro channel results _ hfeed r hr
    cases hfeed
    cases hr
  | cons mem mems ih =>
    intro channel results h hfeed r hr
    obtain ⟨⟨result, channel'⟩, hcall, hfeed⟩ := bind_eq_ok.mp hfeed
    obtain ⟨later, hlater, hfeed⟩ := bind_eq_ok.mp hfeed
    cases hfeed
    have hnext := h.step (hmems mem List.mem_cons_self) hcall
    rcases List.mem_cons.mp hr with rfl | hr
    · exact hnext.wrong h5 hstart
    · exact ih (fun m hm => hmems m (List.mem_cons_of_mem _ hm)) hnext hlater r hr

/-- A packet in memory with the byte `x` behind it. -/
def memoryWith (x : UInt8) (p : Packet) : PacketMemory :=
  ⟨p.cells ++ List.replicate 4 x, by rw [List.length_append, p.length_cells, List.length_replicate]⟩

@[simp] theorem packet_memoryWith (x : UInt8) (p : Packet) : (memoryWith x p).packet = p := by
  refine Buffer.ext ?_
  have h : (188 : Nat) = p.cells.length := p.length_cells.symm
  simp only [PacketMemory.packet, memoryWith]
  rw [h, List.take_left]

theorem byteAt_memoryWith (x : UInt8) (p : Packet) : byteAt (memoryWith x p).cells 188 = x := by
  have h : (188 : Nat) = p.cells.length + 0 := p.length_cells.symm
  rw [memoryWith, h, byteAt_append_right]
  rfl

theorem map_packet_memoryWith (x : UInt8) (packets : List Packet) :
    (packets.map (memoryWith x)).map PacketMemory.packet = packets := by
  simp [Function.comp_def]

theorem byteAt_fill {n i : Nat} (x : UInt8) (h : i < n) : byteAt (Buffer.fill n x).cells i = x := by
  rw [byteAt, Buffer.fill, List.getD_eq_getElem?_getD, List.getElem?_replicate, if_pos h,
    Option.getD_some]

theorem succ_ne (x : UInt8) : x + 1 ≠ x := by
  intro h
  have hmod := congrArg UInt8.toNat h
  rw [UInt8.toNat_add] at hmod
  have hlt := x.toNat_lt
  have hone : (1 : UInt8).toNat = 1 := rfl
  omega

/-- One packet holds 183 bytes of the section, not 188. -/
theorem not_reassembled_short (hs : IsPmt s) (hp : PmtPackets s first packets)
    (hlow : 184 ≤ s.length) (hhigh : s.length ≤ 188) (hready : channel.originalPmtReady = false)
    (hold : byteAt channel.originalPmt.cells 188 ≠ byteAt s 183) :
    ¬ Reassembled channel ((first :: packets).map (memoryWith 0)) (first.cells.take 5) s := by
  rintro ⟨results, hfeed, -, hright⟩
  have hp' : PmtPackets s (memoryWith 0 first).packet packets := by simpa using hp
  have hnum : pmtPartNumber s.length = 0 := pmtPartNumber_zero.mpr hhigh
  rw [List.map_cons, pmtFeed_cons (pmtNeedUpdate_first hs hp' (.inl hready)),
    if_pos hnum] at hfeed
  obtain ⟨later, -, hfeed⟩ := bind_eq_ok.mp hfeed
  cases hfeed
  have hbyte := byteAt_reassembled (length_header first)
    (hright _ List.mem_cons_self rfl) (i := 183) (by omega)
  rw [started, firstPart_cells, packet_memoryWith,
    show 5 + 183 = first.cells.length + 0 by rw [first.length_cells], byteAt_append_right,
    byteAt_drop] at hbyte
  exact hold hbyte

theorem spoilt_second {result : Nat} {channel' : MumudvbChannel} {p : Packet} (hlow : 189 ≤ s.length)
    (hstart : payloadUnitStartIndicator p.cells = false)
    (hpayload : p.cells.drop 4 = pad 184 (s.drop 183))
    (hbad : byteAt s 184 = 0x02 ∨ 367 < s.length)
    (hcall : pmtNeedUpdate (memoryWith (byteAt s 367 + 1) p) (started channel mem s.length) =
      .ok (result, channel')) : Spoilt s channel' := by
  have hrest : (s.drop 183).length = s.length - 183 := List.length_drop
  have hnum : 0 < pmtPartNumber s.length :=
    Nat.pos_of_ne_zero fun h => absurd (pmtPartNumber_zero.mp h) (by omega)
  have hready : (started channel mem s.length).originalPmtReady = false := by
    simp [started, Nat.ne_of_gt hnum]
  by_cases htable : tableId ((memoryWith (byteAt s 367 + 1) p).cells.drop 5) = 0x02
  · rw [pmtNeedUpdate_start htable (by simp [hready])] at hcall
    cases hcall
    exact spoilt_started (by rw [packet_memoryWith]; exact hstart)
  · have hlen : 367 < s.length := by
      rcases hbad with h | h
      · rw [tableId_continuation (packet_memoryWith _ p) hpayload (by omega), byteAt_drop] at htable
        exact absurd h htable
      · exact h
    obtain ⟨originalPmt, hcells, hnext⟩ := pmtNeedUpdate_continue htable hready hnum
      (by simp [started])
    rw [hnext] at hcall
    cases hcall
    refine .inr ⟨Nat.le_add_left _ _, hlen, ?_⟩
    have hbyte : byteAt originalPmt.cells (188 + 184) = byteAt s 367 + 1 := by
      rw [hcells]
      refine (byteAt_splice (by simp [started]) (by simp)).trans ?_
      rw [byteAt_take (by decide), byteAt_drop, byteAt_memoryWith]
    rw [hbyte]
    exact succ_ne _

/-- A second packet that looks like the start of a PMT, or a section that needs a third packet. -/
theorem not_reassembled_long (hs : IsPmt s) (hp : PmtPackets s first packets)
    (hlow : 189 ≤ s.length) (hbad : byteAt s 184 = 0x02 ∨ 367 < s.length) :
    ¬ Reassembled zeroedChannel ((first :: packets).map (memoryWith (byteAt s 367 + 1)))
      (first.cells.take 5) s := by
  rintro ⟨results, hfeed, hone, hright⟩
  obtain ⟨r, hr, hr1⟩ := hone (.inl rfl)
  have hp' : PmtPackets s (memoryWith (byteAt s 367 + 1) first).packet packets := by simpa using hp
  have hnum : pmtPartNumber s.length ≠ 0 := fun h => absurd (pmtPartNumber_zero.mp h) (by omega)
  rw [List.map_cons, pmtFeed_cons (pmtNeedUpdate_first hs hp' (.inl rfl)), if_neg hnum] at hfeed
  obtain ⟨later, hlater, hfeed⟩ := bind_eq_ok.mp hfeed
  cases hfeed
  have hr : r ∈ later := by
    rcases List.mem_cons.mp hr with rfl | hr
    · cases hr1
    · exact hr
  cases packets with
  | nil =>
    cases hlater
    cases hr
  | cons p packets =>
    obtain ⟨hstart, hpayload, hcont⟩ := continues_cons hp.later
    obtain ⟨⟨result, channel'⟩, hcall, hlater⟩ := bind_eq_ok.mp hlater
    obtain ⟨others, hothers, hlater⟩ := bind_eq_ok.mp hlater
    cases hlater
    have hspoilt : Spoilt s channel' :=
      spoilt_second (by omega) hstart hpayload hbad hcall
    have hmems : ∀ mem ∈ packets.map (memoryWith (byteAt s 367 + 1)),
        payloadUnitStartIndicator mem.packet.cells = false := by
      intro mem hmem
      obtain ⟨q, hq, rfl⟩ := List.mem_map.mp hmem
      rw [packet_memoryWith]
      exact continues_start hcont q hq
    have h5 := length_header first
    have hheader : payloadUnitStartIndicator (first.cells.take 5) = true := by
      rw [payloadUnitStart_take (by decide), hp.start]
    rcases List.mem_cons.mp hr with rfl | hr
    · exact hspoilt.wrong h5 hheader (hright _ (by simp) hr1)
    · exact hspoilt.run h5 hheader hmems hothers r hr (hright r (by simp [hr]) hr1)

/-- The sections that `pmt_need_update` puts together. -/
theorem reassembled_iff (hs : IsPmt s) (hp : PmtPackets s first packets) :
    (∀ channel mems, mems.map PacketMemory.packet = first :: packets →
      Reassembled channel mems (first.cells.take 5) s) ↔
    s.length ≤ 183 ∨ (189 ≤ s.length ∧ s.length ≤ 367 ∧ byteAt s 184 ≠ 0x02) := by
  constructor
  · intro h
    by_cases hone : s.length ≤ 183
    · exact .inl hone
    by_cases htwo : 189 ≤ s.length
    · refine .inr ⟨htwo, ?_⟩
      by_contra hbad
      refine not_reassembled_long hs hp htwo ?_ (h _ _ (map_packet_memoryWith _ _))
      by_cases hlen : 367 < s.length
      · exact .inr hlen
      · exact .inl (by_contra fun hne => hbad ⟨by omega, hne⟩)
    · refine absurd (h { zeroedChannel with originalPmt := Buffer.fill _ (byteAt s 183 + 1) } _
        (map_packet_memoryWith 0 _)) (not_reassembled_short hs hp (by omega) (by omega) rfl ?_)
      rw [byteAt_fill _ (by decide)]
      exact succ_ne _
  · rintro (hone | ⟨hlow, hhigh, htable⟩) channel mems hmems
    · have hnone : packets = [] := by
        have hlater := hp.later
        rw [List.drop_eq_nil_of_le hone] at hlater
        exact continues_nil hlater
      subst hnone
      obtain ⟨mem, rfl, rfl⟩ := List.map_eq_singleton_iff.mp hmems
      exact reassembled_one hs hp hone
    · obtain ⟨second, rfl⟩ : ∃ second, packets = [second] :=
        continues_one hp.later (by rw [List.length_drop]; omega) (by rw [List.length_drop]; omega)
      obtain ⟨mem, rest, rfl, rfl, hrest⟩ := List.map_eq_cons_iff.mp hmems
      obtain ⟨mem', rfl, rfl⟩ := List.map_eq_singleton_iff.mp hrest
      exact reassembled_two hs hp hlow hhigh htable

/-- A PMT without elementary streams. -/
def emptyPmt : List UInt8 :=
  [0x02, 0xb0, 0x0d, 0x00, 0x01, 0xc1, 0x00, 0x00, 0xe1, 0x00, 0xf0, 0x00, 0x65, 0xf5, 0x1f, 0x37]

def emptyPmtPacket : Packet :=
  ⟨[0x47, 0x41, 0x00, 0x10, 0x00] ++ pad 183 emptyPmt, by decide +kernel⟩

theorem reassembled_emptyPmt :
    (∀ channel mems, mems.map PacketMemory.packet = [emptyPmtPacket] →
      Reassembled channel mems (emptyPmtPacket.cells.take 5) emptyPmt) ↔
    emptyPmt.length ≤ 183 ∨
      (189 ≤ emptyPmt.length ∧ emptyPmt.length ≤ 367 ∧ byteAt emptyPmt 184 ≠ 0x02) :=
  reassembled_iff
    ⟨by decide, by decide, by decide, by decide⟩
    ⟨by decide +kernel, by decide +kernel, by decide +kernel, by decide +kernel, .done⟩

/-- A PMT of 184 bytes: one stream with a descriptor of 163 bytes. -/
def longPmt : List UInt8 :=
  [0x02, 0xb0, 0xb5, 0x00, 0x01, 0xc1, 0x00, 0x00, 0xe1, 0x01, 0xf0, 0x00,
    0x02, 0xe1, 0x01, 0xf0, 0xa3, 0x09, 0xa1] ++ List.replicate 161 0x00 ++
  [0x6c, 0xa2, 0x29, 0x96]

def longPmtFirst : Packet :=
  ⟨[0x47, 0x41, 0x00, 0x10, 0x00] ++ pad 183 longPmt, by decide +kernel⟩

def longPmtSecond : Packet :=
  ⟨[0x47, 0x01, 0x00, 0x11] ++ pad 184 (longPmt.drop 183), by decide +kernel⟩

theorem longPmt_isPmt : IsPmt longPmt :=
  ⟨by decide +kernel, by decide +kernel, by decide +kernel, by decide +kernel⟩

theorem longPmt_packets : PmtPackets longPmt longPmtFirst [longPmtSecond] :=
  ⟨by decide +kernel, by decide +kernel, by decide +kernel, by decide +kernel,
    .packet (by decide +kernel) (by decide +kernel) (by decide +kernel) (by decide +kernel) .done⟩

theorem not_reassembled_longPmt :
    IsPmt longPmt ∧ PmtPackets longPmt longPmtFirst [longPmtSecond] ∧
    ¬ Reassembled zeroedChannel ([longPmtFirst, longPmtSecond].map (memoryWith 0))
      (longPmtFirst.cells.take 5) longPmt :=
  ⟨longPmt_isPmt, longPmt_packets,
    not_reassembled_short longPmt_isPmt longPmt_packets (by decide +kernel) (by decide +kernel) rfl
      (by decide +kernel)⟩

end MuMuDVB.RewritePmt
