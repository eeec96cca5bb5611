import MuMuDVB.TsRefinement

/-!
# Where a section starts in a packet

The header of a packet is walked twice: by `get_ts_packet`, which assembles the
sections, and by `get_ts_begin`, which only says where the first one starts.
The two walks do not refuse the same packets.
-/
namespace MuMuDVB.TsBegin

open CheckedMemory MuMuDVB.TsHeader MuMuDVB.Ts MuMuDVB.TsAssembler MuMuDVB.TsRefinement

/-- Where `get_ts_packet` calls `add_ts_packet_data` with `START_TS`, if it does. -/
def startTsOffset (buf : Packet) : Checked (Option Nat) := do
  match ← payloadOffset buf with
  | none => return none
  | some offset =>
    if payloadUnitStartIndicator buf.cells then
      let pointerField ← buf.read offset
      let offset := offset + 1
      if pointerField.toNat ≠ 0 ∧ tsPacketSize < offset + pointerField.toNat then return none
      else return some (offset + pointerField.toNat)
    else return none

/-- `get_ts_packet` starts a section at `off`, with at least one byte of it. -/
def StartsAt (buf : Packet) (off : Nat) : Prop :=
  startTsOffset buf = .ok (some off) ∧ off < tsPacketSize

/-- `get_ts_begin` points to a byte of the packet. -/
def BeginsAt (mem : TableMemory) (off : Nat) : Prop :=
  getTsBegin mem = .ok (some off) ∧ off < tsPacketSize

/-- Where the payload begins for `get_ts_begin`. -/
def afterField (mem : TableMemory) : Nat :=
  if adaptationFieldControl mem.cells / 2 % 2 = 1 then 4 + (byteAt mem.cells 4).toNat + 1 else 4

/-- The first bytes of the payload are the start code of a PES packet. -/
def PesStart (mem : TableMemory) : Prop :=
  (mem.cells.drop (afterField mem)).take 3 = [0x00, 0x00, 0x01]

instance (mem : TableMemory) : Decidable (PesStart mem) := inferInstanceAs (Decidable (_ = _))

/-- The first section behind the pointer field at `off`. -/
def afterPointer (xs : List UInt8) (off : Nat) : Option Nat :=
  if 188 < off + 1 + (byteAt xs off).toNat then none else some (off + 1 + (byteAt xs off).toNat)

/-- What `get_ts_begin` returns. -/
def beginOffset (mem : TableMemory) : Option Nat :=
  if adaptationFieldControl mem.cells / 2 % 2 = 1 ∧ 184 < (byteAt mem.cells 4).toNat then none
  else if adaptationFieldControl mem.cells % 2 = 0 ∨ PesStart mem then none
  else if payloadUnitStartIndicator mem.cells then afterPointer mem.cells (afterField mem)
  else none

/-- What only `get_ts_begin` refuses: no payload by the adaptation field control, or a start code
behind an adaptation field. -/
def OnlyPacketStarts (mem : TableMemory) : Prop :=
  payloadUnitStartIndicator mem.cells = true ∧
  ((adaptationFieldControl mem.cells = 0 ∧ (byteAt mem.cells 4).toNat < 183) ∨
    (adaptationFieldControl mem.cells = 3 ∧ (byteAt mem.cells 4).toNat < 182 ∧ PesStart mem))

section walk

variable {mem : TableMemory}

theorem read_mem (mem : TableMemory) {i : Nat} (h : i < 196) :
    mem.read i = .ok (byteAt mem.cells i) := by
  have hlt : i < mem.cells.length := by rwa [mem.length_cells]
  rw [mem.read_ok (List.getElem?_eq_getElem hlt), byteAt, List.getD_eq_getElem?_getD,
    List.getElem?_eq_getElem hlt, Option.getD_some]

theorem byteAt_packet (mem : TableMemory) {i : Nat} (h : i < 188) :
    byteAt mem.packet.cells i = byteAt mem.cells i := byteAt_take h

/-- The last part of `get_ts_begin`. -/
def beginFrom (mem : TableMemory) (delta : Nat) : Checked (Option Nat) := do
  let pes ← (if adaptationFieldControl mem.cells % 2 = 1 then do
      return (← mem.slice delta 3) == [0x00, 0x00, 0x01]
    else .ok false : Checked Bool)
  if pes then return none
  else if adaptationFieldControl mem.cells = 2 ∨ adaptationFieldControl mem.cells = 0 then
    return none
  else if payloadUnitStartIndicator mem.cells then
    let pointerField ← mem.read delta
    let delta := delta + 1
    if tsPacketSize < delta + pointerField.toNat then return none
    else return some (delta + pointerField.toNat)
  else return none

theorem beginFrom_spec (mem : TableMemory) {delta : Nat} (h : delta < 193) :
    beginFrom mem delta = .ok (
      if adaptationFieldControl mem.cells % 2 = 0 ∨
        (mem.cells.drop delta).take 3 = [0x00, 0x00, 0x01] then none
      else if payloadUnitStartIndicator mem.cells then afterPointer mem.cells delta else none) := by
  have hafc : adaptationFieldControl mem.cells < 4 := Nat.mod_lt _ (by decide)
  have hslice : mem.slice delta 3 = .ok ((mem.cells.drop delta).take 3) :=
    Buffer.slice_ok mem (by omega)
  rw [beginFrom]
  by_cases hodd : adaptationFieldControl mem.cells % 2 = 1
  · rw [if_pos hodd, hslice, bind_ok, pure_ok, bind_ok]
    by_cases hpes : (mem.cells.drop delta).take 3 = [0x00, 0x00, 0x01]
    · rw [if_pos (beq_iff_eq.mpr hpes), if_pos (.inr hpes), pure_ok]
    · have hpayload : ¬ (adaptationFieldControl mem.cells = 2 ∨
          adaptationFieldControl mem.cells = 0) := by omega
      have hnot : ¬ (adaptationFieldControl mem.cells % 2 = 0 ∨
          (mem.cells.drop delta).take 3 = [0x00, 0x00, 0x01]) := not_or.mpr ⟨by omega, hpes⟩
      rw [if_neg (mt beq_iff_eq.mp hpes), if_neg hpayload, if_neg hnot]
      by_cases hstart : payloadUnitStartIndicator mem.cells = true
      · rw [if_pos hstart, if_pos hstart, read_mem mem (by omega), bind_ok, afterPointer]
        dsimp only [tsPacketSize]
        split <;> rfl
      · rw [if_neg hstart, if_neg hstart, pure_ok]
  · rw [if_neg hodd, bind_ok, if_neg Bool.false_ne_true, if_pos (by omega), if_pos (by omega), pure_ok]

/-- `get_ts_begin` reads at most four bytes behind the packet. -/
theorem getTsBegin_spec (mem : TableMemory) : getTsBegin mem = .ok (beginOffset mem) := by
  rw [beginOffset]
  by_cases hfield : adaptationFieldControl mem.cells / 2 % 2 = 1
  · by_cases hbig : 184 < (byteAt mem.cells 4).toNat
    · rw [if_pos ⟨hfield, hbig⟩, getTsBegin]
      dsimp only [tsHeaderLen, tsPacketSize, Nat.add_one_sub_one]
      rw [if_pos hfield, read_mem mem (by decide), bind_ok, if_pos (by omega)]
      rfl
    · have hfrom : getTsBegin mem = beginFrom mem (4 + (byteAt mem.cells 4).toNat + 1) := by
        rw [getTsBegin]
        dsimp only [tsHeaderLen, tsPacketSize, Nat.add_one_sub_one]
        rw [if_pos hfield, read_mem mem (by decide), bind_ok, if_neg (by omega)]
        rfl
      have hafter : afterField mem = 4 + (byteAt mem.cells 4).toNat + 1 := if_pos hfield
      rw [if_neg fun h => hbig h.2, hfrom, beginFrom_spec mem (by omega)]
      exact congrArg Except.ok (if_congr (by rw [PesStart, hafter]) rfl (by rw [hafter]))
  · have hfrom : getTsBegin mem = beginFrom mem 4 := by
      rw [getTsBegin]
      dsimp only [tsHeaderLen, tsPacketSize, Nat.add_one_sub_one]
      rw [if_neg hfield]
      rfl
    have hafter : afterField mem = 4 := if_neg hfield
    rw [if_neg fun h => hfield h.1, hfrom, beginFrom_spec mem (by decide)]
    exact congrArg Except.ok (if_congr (by rw [PesStart, hafter]) rfl (by rw [hafter]))

theorem startTsOffset_spec (buf : Packet) :
    startTsOffset buf = .ok ((payloadStart buf).bind fun off =>
      if payloadUnitStartIndicator buf.cells then afterPointer buf.cells off else none) := by
  obtain ⟨hoffset, hbound⟩ := payloadOffset_spec buf
  rw [startTsOffset, hoffset, bind_ok]
  cases hstart : payloadStart buf with
  | none => rfl
  | some off =>
    obtain ⟨-, hlt⟩ := hbound off hstart
    dsimp only [Option.bind_some]
    by_cases hpusi : payloadUnitStartIndicator buf.cells = true
    · have hread : buf.read off = .ok (byteAt buf.cells off) := by
        rw [read_payload off (188 - off) (by omega) (by omega), byteAt_payload hlt]
      rw [if_pos hpusi, if_pos hpusi, hread, bind_ok, afterPointer]
      dsimp only [tsPacketSize]
      by_cases hbig : 188 < off + 1 + (byteAt buf.cells off).toNat
      · rw [if_pos hbig, if_pos ⟨by omega, hbig⟩, pure_ok]
      · rw [if_neg hbig, if_neg fun h => hbig h.2, pure_ok]
    · rw [if_neg hpusi, if_neg hpusi, pure_ok]

/-- `get_ts_packet` starts a section there, after the end of the one before. -/
theorem getTsPacket_startTs {buf : Packet} {off : Nat} (pkt : MumudvbTsPacket)
    (h : startTsOffset buf = .ok (some off)) :
    ∃ before pointer, off = before + pointer ∧ getTsPacket (some buf) pkt = (popFull pkt >>= fun r =>
      (if pointer ≠ 0 then addTsPacketData addFuel buf before r.2 pointer .noStart
          (TsHeader.pid buf.cells) (continuityCounter buf.cells) else .ok r.2) >>= fun pkt =>
      subtract tsPacketSize off >>= fun left =>
      addTsPacketData addFuel buf off pkt left .startTs
          (TsHeader.pid buf.cells) (continuityCounter buf.cells) >>= fun pkt => .ok (r.1, pkt)) := by
  obtain ⟨hoffset, hbound⟩ := payloadOffset_spec buf
  rw [startTsOffset, hoffset, bind_ok] at h
  cases hstart : payloadStart buf with
  | none =>
    rw [hstart] at h
    cases h
  | some offset =>
    rw [hstart] at h hoffset
    dsimp only at h
    split at h
    case isTrue hpusi =>
      obtain ⟨pointer, hread, h⟩ := bind_eq_ok.mp h
      split at h
      · cases h
      case isFalse hfit =>
        cases h
        refine ⟨offset + 1, pointer.toNat, rfl, ?_⟩
        rw [getTsPacket]
        refine bind_congr fun r => ?_
        dsimp only
        rw [hoffset, bind_ok]
        dsimp only
        rw [addPayload, if_pos hpusi, hread, bind_ok]
        dsimp only
        rw [if_neg hfit]
        simp only [bind_assoc, pure_ok, bind_ok, if_true]
    case isFalse => cases h

/-- Otherwise it starts none: the packet is given up or continues a section. -/
theorem getTsPacket_noStart {buf : Packet} {pkt pkt' : MumudvbTsPacket} {avail : Bool}
    (h : startTsOffset buf = .ok none) (hcall : getTsPacket (some buf) pkt = .ok (avail, pkt')) :
    ∃ r, popFull pkt = .ok r ∧ (pkt' = r.2 ∨ pkt' = { r.2 with statusPartial := .empty } ∨
      ∃ off left, addTsPacketData addFuel buf off r.2 left .noStart (TsHeader.pid buf.cells)
        (continuityCounter buf.cells) = .ok pkt') := by
  obtain ⟨hoffset, hbound⟩ := payloadOffset_spec buf
  rw [getTsPacket] at hcall
  obtain ⟨r, hpop, hcall⟩ := bind_eq_ok.mp hcall
  refine ⟨r, hpop, ?_⟩
  rw [startTsOffset, hoffset, bind_ok] at h
  dsimp only at hcall
  rw [hoffset, bind_ok] at hcall
  cases hstart : payloadStart buf with
  | none =>
    rw [hstart] at hcall
    cases hcall
    exact .inl rfl
  | some offset =>
    rw [hstart] at h hcall
    dsimp only at h hcall
    obtain ⟨⟨added, pkt₁⟩, hadd, hcall⟩ := bind_eq_ok.mp hcall
    cases hcall
    rw [addPayload] at hadd
    split at h
    case isTrue hpusi =>
      obtain ⟨pointer, hread, h⟩ := bind_eq_ok.mp h
      rw [if_pos hpusi, hread, bind_ok] at hadd
      dsimp only at h hadd
      split at h
      case isTrue hbig =>
        rw [if_pos hbig] at hadd
        cases hadd
        exact .inr (.inl rfl)
      case isFalse => cases h
    case isFalse hpusi =>
      rw [if_neg hpusi] at hadd
      obtain ⟨left, -, hadd⟩ := bind_eq_ok.mp hadd
      obtain ⟨pkt₂, hadd, heq⟩ := bind_eq_ok.mp hadd
      cases heq
      exact .inr (.inr ⟨offset, left, hadd⟩)

/-- Where the walk of `get_ts_packet` sees the payload begin. -/
theorem payloadStart_packet (mem : TableMemory) :
    payloadStart mem.packet =
      if adaptationFieldControl mem.cells = 2 ∨ (adaptationFieldControl mem.cells = 3 ∧
        182 < (byteAt mem.cells 4).toNat) ∨ (adaptationFieldControl mem.cells = 1 ∧ PesStart mem)
      then none else some (afterField mem) := by
  have hafc : adaptationFieldControl mem.packet.cells = adaptationFieldControl mem.cells := by
    rw [adaptationFieldControl, byteAt_packet mem (by decide), adaptationFieldControl]
  have hlt : adaptationFieldControl mem.cells < 4 := Nat.mod_lt _ (by decide)
  have hpes : (mem.packet.cells.drop 4).take 3 = (mem.cells.drop 4).take 3 := by
    rw [TableMemory.packet, List.drop_take, List.take_take]
    rfl
  rw [payloadStart, hafc, byteAt_packet mem (by decide), hpes]
  by_cases hfield : adaptationFieldControl mem.cells / 2 % 2 = 1
  · have hafter : afterField mem = 4 + (byteAt mem.cells 4).toNat + 1 := if_pos hfield
    rw [if_pos hfield, hafter]
    refine if_congr ?_ rfl rfl
    omega
  · have hafter : afterField mem = 4 := if_neg hfield
    have hpesStart : PesStart mem ↔ (mem.cells.drop 4).take 3 = [0x00, 0x00, 0x01] := by
      rw [PesStart, hafter]
    rw [if_neg hfield, hafter]
    refine if_congr ?_ rfl rfl
    rw [hpesStart]
    constructor
    · rintro ⟨hodd, hpes⟩
      exact .inr (.inr ⟨by omega, hpes⟩)
    · rintro (h2 | ⟨h3, -⟩ | ⟨h1, hpes⟩)
      · omega
      · omega
      · exact ⟨by omega, hpes⟩

/-- Only the byte at the pointer field matters. -/
theorem afterPointer_packet (mem : TableMemory) {off : Nat} (h : off < 188) :
    afterPointer mem.packet.cells off = afterPointer mem.cells off := by
  rw [afterPointer, byteAt_packet mem h, afterPointer]

theorem afterPointer_eq_some {xs : List UInt8} {off o : Nat} :
    afterPointer xs off = some o ↔ o = off + 1 + (byteAt xs off).toNat ∧ o ≤ 188 := by
  rw [afterPointer]
  split
  · simp only [reduceCtorEq, false_iff]
    omega
  · rw [Option.some.injEq]
    omega

/-- Where the first section starts by the pointer field. -/
def FirstSection (mem : TableMemory) (off : Nat) : Prop :=
  payloadUnitStartIndicator mem.cells = true ∧
    off = afterField mem + 1 + (byteAt mem.cells (afterField mem)).toNat ∧ off < 188

theorem startsAt_iff {off : Nat} :
    StartsAt mem.packet off ↔ adaptationFieldControl mem.cells ≠ 2 ∧
      ¬ (adaptationFieldControl mem.cells = 1 ∧ PesStart mem) ∧ FirstSection mem off := by
  have hpusi : payloadUnitStartIndicator mem.packet.cells =
      payloadUnitStartIndicator mem.cells := by
    rw [payloadUnitStartIndicator, byteAt_packet mem (by decide), payloadUnitStartIndicator]
  have hfield : adaptationFieldControl mem.cells = 3 →
      afterField mem = 4 + (byteAt mem.cells 4).toNat + 1 := fun h => by
    rw [afterField, h]
    rfl
  rw [StartsAt, startTsOffset_spec, Except.ok.injEq, payloadStart_packet, hpusi]
  split
  case isTrue hrefused =>
    refine ⟨fun h => by (cases h.1), ?_⟩
    rintro ⟨h2, h1, -, hoff, hlt⟩
    rcases hrefused with h | ⟨h3, hbig⟩ | h
    · exact absurd h h2
    · have := hfield h3
      omega
    · exact absurd h h1
  case isFalse haccepted =>
    simp only [not_or] at haccepted
    obtain ⟨h2, h3, h1⟩ := haccepted
    have hlt : afterField mem < 188 := by
      have hafc : adaptationFieldControl mem.cells < 4 := Nat.mod_lt _ (by decide)
      by_cases h : adaptationFieldControl mem.cells = 3
      · have := hfield h
        omega
      · rw [afterField, if_neg (by omega)]
        decide
    rw [Option.bind_some, FirstSection]
    by_cases hstart : payloadUnitStartIndicator mem.cells = true
    · rw [if_pos hstart, afterPointer_packet mem hlt, afterPointer_eq_some]
      simp only [tsPacketSize]
      refine ⟨fun h => ⟨h2, h1, hstart, h.1.1, h.2⟩, fun h => ⟨⟨h.2.2.2.1, by omega⟩, h.2.2.2.2⟩⟩
    · rw [if_neg hstart]
      exact ⟨fun h => by (cases h.1), fun h => absurd h.2.2.1 hstart⟩

theorem beginsAt_iff {off : Nat} :
    BeginsAt mem off ↔ adaptationFieldControl mem.cells % 2 = 1 ∧ ¬ PesStart mem ∧
      FirstSection mem off := by
  rw [BeginsAt, getTsBegin_spec, Except.ok.injEq, beginOffset]
  split
  case isTrue hbig =>
    refine ⟨fun h => by (cases h.1), ?_⟩
    rintro ⟨-, -, -, hoff, hlt⟩
    rw [afterField, if_pos hbig.1] at hoff
    omega
  case isFalse =>
    split
    case isTrue hrefused =>
      refine ⟨fun h => by (cases h.1), fun h => ?_⟩
      rcases hrefused with heven | hpes
      · omega
      · exact absurd hpes h.2.1
    case isFalse haccepted =>
      rw [not_or] at haccepted
      rw [FirstSection]
      by_cases hstart : payloadUnitStartIndicator mem.cells = true
      · rw [if_pos hstart, afterPointer_eq_some]
        simp only [tsPacketSize]
        exact ⟨fun h => ⟨by omega, haccepted.2, hstart, h.1.1, h.2⟩,
          fun h => ⟨⟨h.2.2.2.1, by omega⟩, h.2.2.2.2⟩⟩
      · rw [if_neg hstart]
        exact ⟨fun h => by (cases h.1), fun h => absurd h.2.2.1 hstart⟩

theorem byteAt_pesStart (h : PesStart mem) : byteAt mem.cells (afterField mem) = 0 := by
  have hfirst := congrArg (fun xs => xs.getD 0 0) h
  simp only [List.getD_eq_getElem?_getD, List.getElem?_take, List.getElem?_drop] at hfirst
  exact hfirst

/-- The two walks agree on every packet but those. -/
theorem locators_agree_iff (mem : TableMemory) :
    (∀ off, BeginsAt mem off ↔ StartsAt mem.packet off) ↔ ¬ OnlyPacketStarts mem := by
  have hafc : adaptationFieldControl mem.cells < 4 := Nat.mod_lt _ (by decide)
  simp only [beginsAt_iff, startsAt_iff]
  constructor
  · rintro hagree ⟨hstart, ⟨h0, hlt⟩ | ⟨h3, hlt, hpes⟩⟩
    · have hafter : afterField mem = 4 := if_neg (by omega)
      have hfirst : FirstSection mem (4 + 1 + (byteAt mem.cells 4).toNat) := by
        refine ⟨hstart, by rw [hafter], by omega⟩
      have := ((hagree _).mpr ⟨by omega, fun h => by omega, hfirst⟩).1
      omega
    · have hafter : afterField mem = 4 + (byteAt mem.cells 4).toNat + 1 := if_pos (by omega)
      have hfirst : FirstSection mem (afterField mem + 1) := by
        refine ⟨hstart, by rw [byteAt_pesStart hpes]; rfl, by omega⟩
      exact ((hagree _).mpr ⟨by omega, fun h => by omega, hfirst⟩).2.1 hpes
  · intro hnot off
    constructor
    · rintro ⟨hodd, hpes, hfirst⟩
      exact ⟨by omega, fun h => hpes h.2, hfirst⟩
    · rintro ⟨h2, h1, hfirst⟩
      obtain ⟨hstart, hoff, hlt⟩ := hfirst
      have h0 : adaptationFieldControl mem.cells ≠ 0 := by
        intro h0
        have hafter : afterField mem = 4 := if_neg (by omega)
        rw [hafter] at hoff
        exact hnot ⟨hstart, .inl ⟨h0, by omega⟩⟩
      refine ⟨by omega, fun hpes => ?_, hstart, hoff, hlt⟩
      by_cases h3 : adaptationFieldControl mem.cells = 3
      · have hafter : afterField mem = 4 + (byteAt mem.cells 4).toNat + 1 := if_pos (by omega)
        rw [byteAt_pesStart hpes] at hoff
        exact hnot ⟨hstart, .inr ⟨h3, by simp only [UInt8.toNat_zero] at hoff; omega, hpes⟩⟩
      · exact h1 ⟨by omega, hpes⟩

end walk

/-- A packet with the reserved adaptation field control and a start: a section begins at byte 5. -/
def reservedControl : TableMemory :=
  ⟨[0x47, 0x40, 0x12, 0x00] ++ List.replicate 192 0x00, by
    rw [List.length_append, List.length_replicate]
    rfl⟩

/-- `get_ts_packet` assembles it, `get_ts_begin` reports none. -/
theorem not_agree_reservedControl :
    StartsAt reservedControl.packet 5 ∧ ¬ BeginsAt reservedControl 5 := by
  refine ⟨⟨rfl, by decide⟩, fun h => ?_⟩
  have hnone : getTsBegin reservedControl = .ok none := rfl
  rw [BeginsAt, hnone] at h
  cases h.1

end MuMuDVB.TsBegin
