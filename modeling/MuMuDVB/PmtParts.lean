import MuMuDVB.RewritePmt

/-!
# The parts of a PMT

`pmt_need_update` copies 188 bytes a packet into `original_pmt`. For a packet
that goes on with a PMT the copy begins behind the four bytes of the header, so
that it ends four bytes behind the packet, and it goes into the part with the
next number, whatever the length of the PMT was said to be. Between the calls
the rewriter may change the version and the content of `original_pmt`.
-/
namespace MuMuDVB.PmtParts

open CheckedMemory MuMuDVB.TsHeader MuMuDVB.Ts MuMuDVB.Channel MuMuDVB.RewritePmt

variable {n : Nat}

/-- `pmt_need_update` on a packet with which `n` bytes of memory are given. -/
def pmtNeedUpdateIn (mem : Buffer UInt8 n) (channel : MumudvbChannel) :
    Checked (Nat × MumudvbChannel) :=
  let pmt := mem.cells.drop tsHeaderLen
  if tableId pmt = 0x02 then
    if channel.originalPmtReady ∧ (versionNumber pmt : Int) = channel.generatedPmtVersion then
      .ok (0, channel)
    else do
      let partNum := pmtPartNumber (sectionLength pmt + 3)
      let src ← mem.slice 0 tsPacketSize
      let originalPmt ← channel.originalPmt.write 0 src
      let channel := { channel with
        pmtPartNum := partNum
        pmtPartCount := 0
        originalPmt := originalPmt }
      if partNum = 0 then return (1, { channel with originalPmtReady := true })
      else return (2, { channel with originalPmtReady := false })
  else if ¬ channel.originalPmtReady ∧ 0 < channel.pmtPartNum then do
    let count := channel.pmtPartCount + 1
    let src ← mem.slice 4 tsPacketSize
    let originalPmt ← channel.originalPmt.write (tsPacketSize * count) src
    let channel := { channel with pmtPartCount := count, originalPmt := originalPmt }
    if count = channel.pmtPartNum then return (1, { channel with originalPmtReady := true })
    else return (2, channel)
  else .ok (0, channel)

/-- With the four bytes that follow the packet it is the function of the rewriter. -/
theorem pmtNeedUpdateIn_memory (mem : PacketMemory) (channel : MumudvbChannel) :
    pmtNeedUpdateIn mem channel = pmtNeedUpdate mem channel := rfl

/-- The packet is taken for one that goes on with the PMT. -/
def GoesOn (mem : Buffer UInt8 n) (channel : MumudvbChannel) : Prop :=
  tableId (mem.cells.drop tsHeaderLen) ≠ 0x02 ∧ channel.originalPmtReady = false ∧
    0 < channel.pmtPartNum

/-- What happens to a channel: a packet on its PMT PID, or a change between two packets. -/
inductive Input where
  | packet (p : Packet)
  | rewrite (version : Int) (originalPmt : Buffer UInt8 originalPmtSize)

/-- Every access is to stay inside of the packet and of `original_pmt`. -/
def handle (channel : MumudvbChannel) : Input → Checked MumudvbChannel
  | .packet p => do
    let (_, channel) ← pmtNeedUpdateIn p channel
    return channel
  | .rewrite version originalPmt =>
    .ok { channel with generatedPmtVersion := version, originalPmt := originalPmt }

theorem exists_ok_map {α β : Type} {x : Checked α} {f : α → β} :
    (∃ r, x = .ok r) ↔ ∃ r, (do let a ← x; return f a : Checked β) = .ok r := by
  cases x with
  | ok a => exact iff_of_true ⟨a, rfl⟩ ⟨f a, rfl⟩
  | error fault =>
    constructor
    · rintro ⟨r, h⟩
      cases h
    · rintro ⟨r, h⟩
      cases h

section call

variable {mem : Buffer UInt8 n} {channel : MumudvbChannel}

/-- Where no part goes on, every access is inside. -/
theorem pmtNeedUpdateIn_ok (hn : 188 ≤ n) (h : ¬GoesOn mem channel) :
    ∃ r, pmtNeedUpdateIn mem channel = .ok r := by
  have hslice : mem.slice 0 188 = .ok ((mem.cells.drop 0).take 188) := mem.slice_ok (by omega)
  have hlen : ((mem.cells.drop 0).take 188).length = 188 := by simp; omega
  obtain ⟨originalPmt, hwrite, -⟩ := channel.originalPmt.write_ok 0 ((mem.cells.drop 0).take 188)
    (by rw [hlen]; decide)
  unfold pmtNeedUpdateIn
  simp only [tsHeaderLen, tsPacketSize]
  by_cases htable : tableId (mem.cells.drop 5) = 0x02
  · rw [if_pos htable]
    split
    · exact ⟨_, rfl⟩
    · rw [hslice, bind_ok, hwrite, bind_ok]
      split
      · exact ⟨_, rfl⟩
      · exact ⟨_, rfl⟩
  · have hstop : ¬(¬channel.originalPmtReady = true ∧ 0 < channel.pmtPartNum) := by
      rintro ⟨hready, hnum⟩
      exact h ⟨htable, by simpa using hready, hnum⟩
    rw [if_neg htable, if_neg hstop]
    exact ⟨_, rfl⟩

/-- A part that goes on is read behind a packet of 188 bytes. -/
theorem pmtNeedUpdateIn_outside {p : Packet} (h : GoesOn p channel) :
    pmtNeedUpdateIn p channel = .error .outOfBounds := by
  obtain ⟨htable, hready, hnum⟩ := h
  have hslice : p.slice 4 188 = .error .outOfBounds := by
    rw [Buffer.slice, if_neg (by decide)]
  unfold pmtNeedUpdateIn
  simp only [tsHeaderLen, tsPacketSize] at htable ⊢
  rw [if_neg htable, if_pos ⟨by simp [hready], hnum⟩, hslice]
  rfl

theorem pmtNeedUpdateIn_inside_iff (p : Packet) (channel : MumudvbChannel) :
    (∃ r, pmtNeedUpdateIn p channel = .ok r) ↔ ¬GoesOn p channel := by
  constructor
  · rintro ⟨r, hcall⟩ h
    rw [pmtNeedUpdateIn_outside h] at hcall
    cases hcall
  · exact pmtNeedUpdateIn_ok (Nat.le_refl _)

/-- If the bytes behind the packet may be read, what goes wrong is the part with the number ten. -/
theorem pmtNeedUpdate_inside_iff (mem : PacketMemory) (channel : MumudvbChannel) :
    (∃ r, pmtNeedUpdate mem channel = .ok r) ↔
      (GoesOn mem channel → channel.pmtPartCount < 9) := by
  rw [← pmtNeedUpdateIn_memory]
  by_cases h : GoesOn mem channel
  · obtain ⟨htable, hready, hnum⟩ := h
    rw [imp_iff_right ⟨htable, hready, hnum⟩]
    constructor
    · rintro ⟨r, hcall⟩
      rw [pmtNeedUpdateIn] at hcall
      simp only [tsHeaderLen, tsPacketSize] at hcall htable
      rw [if_neg htable, if_pos ⟨by simp [hready], hnum⟩, mem.slice_ok (by decide),
        bind_ok] at hcall
      obtain ⟨originalPmt, hwrite, -⟩ := bind_eq_ok.mp hcall
      have hinside := (Buffer.write_ok_iff _ _ _).mp ⟨originalPmt, hwrite⟩
      simp only [List.length_take, List.length_drop, mem.length_cells, originalPmtSize] at hinside
      omega
    · intro hcount
      obtain ⟨originalPmt, -, hcall⟩ := pmtNeedUpdate_continue htable hready hnum hcount
      exact ⟨_, hcall⟩
  · exact iff_of_true (pmtNeedUpdateIn_ok (by decide) h) fun hgo => absurd hgo h

end call

/-- No packet of the sequence is taken for one that goes on with the PMT. -/
def NoneGoesOn (channel : MumudvbChannel) (inputs : List Input) : Prop :=
  ∀ before p after, inputs = before ++ .packet p :: after →
    ∀ channel', before.foldlM handle channel = .ok channel' → ¬GoesOn p channel'

theorem noneGoesOn_cons {channel : MumudvbChannel} {input : Input} {inputs : List Input} :
    NoneGoesOn channel (input :: inputs) ↔
      (∀ p, input = .packet p → ¬GoesOn p channel) ∧
        ∀ channel', handle channel input = .ok channel' → NoneGoesOn channel' inputs := by
  constructor
  · intro h
    refine ⟨fun p hp => h [] p inputs (by rw [hp]; rfl) channel rfl, ?_⟩
    intro channel' hhandle before p after heq channel'' hbefore
    refine h (input :: before) p after (by rw [heq]; rfl) channel'' ?_
    rw [List.foldlM_cons, hhandle]
    exact hbefore
  · rintro ⟨hfirst, hlater⟩ before p after heq channel' hbefore
    cases before with
    | nil =>
      cases heq
      cases hbefore
      exact hfirst p rfl
    | cons input' before =>
      cases heq
      rw [List.foldlM_cons] at hbefore
      obtain ⟨channel₁, hhandle, hbefore⟩ := bind_eq_ok.mp hbefore
      exact hlater channel₁ hhandle before p after rfl channel' hbefore

/-- Over any sequence of packets, every write stays inside of `original_pmt` and every read inside
of the packet exactly when no packet is taken for one that goes on with the PMT. -/
theorem parts_inside_iff (channel : MumudvbChannel) (inputs : List Input) :
    (∃ channel', inputs.foldlM handle channel = .ok channel') ↔ NoneGoesOn channel inputs := by
  induction inputs generalizing channel with
  | nil => exact iff_of_true ⟨channel, rfl⟩ fun before p after heq => by simp at heq
  | cons input inputs ih =>
    have hfirst : (∃ channel', handle channel input = .ok channel') ↔
        ∀ p, input = .packet p → ¬GoesOn p channel := by
      cases input with
      | rewrite version originalPmt => exact iff_of_true ⟨_, rfl⟩ fun p hp => by cases hp
      | packet p =>
        rw [handle, ← exists_ok_map, pmtNeedUpdateIn_inside_iff]
        exact ⟨fun h q hq => by cases hq; exact h, fun h => h p rfl⟩
    rw [noneGoesOn_cons, List.foldlM_cons, ← hfirst]
    constructor
    · rintro ⟨channel', h⟩
      obtain ⟨channel₁, hhandle, hrest⟩ := bind_eq_ok.mp h
      refine ⟨⟨channel₁, hhandle⟩, fun channel₂ hhandle' => ?_⟩
      rw [hhandle] at hhandle'
      cases hhandle'
      exact (ih channel₁).mp ⟨channel', hrest⟩
    · rintro ⟨⟨channel₁, hhandle⟩, hlater⟩
      obtain ⟨channel', hrest⟩ := (ih channel₁).mpr (hlater channel₁ hhandle)
      exact ⟨channel', by rw [hhandle, bind_ok, hrest]⟩

/-- A packet that begins a PMT of 4098 bytes, and one that goes on. -/
def hugeStart : Packet :=
  ⟨[0x47, 0x41, 0x00, 0x10, 0x00, 0x02, 0xbf, 0xff] ++ List.replicate 180 0xff, by decide +kernel⟩

def hugePart : Packet := ⟨[0x47, 0x01, 0x00, 0x11] ++ List.replicate 184 0xff, by decide +kernel⟩

/-- The second packet is read beyond its end; and even with the bytes behind the packets at hand the
eleventh one is written behind `original_pmt`. -/
theorem parts_not_inside :
    ([Input.packet hugeStart, .packet hugePart].foldlM handle zeroedChannel).isOk = false ∧
      ((memoryWith 0 hugeStart :: List.replicate 10 (memoryWith 0 hugePart)).foldlM
        (fun channel mem => (pmtNeedUpdate mem channel).map Prod.snd)
        zeroedChannel).isOk = false := by
  decide +kernel

end MuMuDVB.PmtParts
