import MuMuDVB.PmtDownload

/-!
# Sending the PMT of a channel to the CAM

The CAM is asked with the PMT in the buffer that `chan_new_pmt` fills, and the
decoders of libucsi that turn it into a CA PMT work in place: they exchange
bytes of that buffer, which is read again when the CAM is asked once more.
-/
namespace MuMuDVB.CamPmt

open CheckedMemory RecordedRun MuMuDVB.TsHeader MuMuDVB.Ts MuMuDVB.TsAssembler
open MuMuDVB.TsRefinement MuMuDVB.Channel MuMuDVB.PmtDownload

/-- `data_full` -/
abbrev Data := Buffer UInt8 maxTsSize

theorem length_exchange (data : Data) (i j : Nat) :
    ((data.cells.set i (byteAt data.cells j)).set j (byteAt data.cells i)).length = maxTsSize := by
  rw [List.length_set, List.length_set, data.length_cells]

/-- Bytes `i` and `j` exchanged. -/
def exchange (data : Data) (i j : Nat) : Data :=
  ⟨(data.cells.set i (byteAt data.cells j)).set j (byteAt data.cells i), length_exchange data i j⟩

/-- `section_length` of a section in the byte order of a little-endian machine. -/
def hostLength (data : Data) : Nat :=
  hilo ((byteAt data.cells 2).toNat % 16) (byteAt data.cells 1).toNat

/-- The decoders, with what they make of the buffer: they return a structure or `NULL`. The first
one works on three bytes, the second one on the next two, and the last one behind the header. -/
structure Libucsi where
  sectionCodec : Data → Nat → Bool × Data
  sectionExtDecode : Data → Bool × Data
  mpegPmtSectionCodec : Data → Bool × Data
  sectionCodec_data : ∀ data len, 3 ≤ len → (sectionCodec data len).2 = exchange data 1 2
  sectionCodec_short : ∀ data len, len < 3 → sectionCodec data len = (false, data)
  sectionCodec_length : ∀ data len, (sectionCodec data len).1 = true →
    hostLength (exchange data 1 2) + 3 = len
  sectionExtDecode_data : ∀ data, (sectionExtDecode data).1 = true →
    (sectionExtDecode data).2 = exchange data 3 4
  sectionExtDecode_null : ∀ data, (sectionExtDecode data).1 = false →
    (sectionExtDecode data).2 = data
  mpegPmtSectionCodec_header : ∀ data,
    (mpegPmtSectionCodec data).2.cells.take 8 = data.cells.take 8

/-- The CAM, and what libdvben50221 answers. -/
structure Cam where
  stdcam : Bool
  caResourceConnected : Bool
  formatsPmt : Bool
  takesPmt : Bool

inductive ListManagement where
  | add | update
  deriving DecidableEq

/-- What `mumudvb_cam_new_pmt` returns: -1, 0 and 1. -/
inductive CamReturn where
  | failed | notConnected | sent
  deriving DecidableEq

/-- What a channel keeps for descrambling, besides its PMT. -/
structure CamChannel extends PmtChannel where
  freeCaMode : Bool
  scamSupport : Bool
  needScamAsk : CamAsk
  deriving DecidableEq

section code

variable (lib : Libucsi)

/-- `check_pmt_service_id` -/
def checkPmtServiceId (pmt : MumudvbTsPacket) (channel : PmtChannel) : Bool :=
  let header := pmt.dataFull.cells
  if tableId header ≠ 0x02 then false
  else if currentNextIndicator header = 0 then false
  else decide (IsFor channel.serviceId header)

/-- `mumudvb_cam_new_pmt`, with what it leaves of the buffer. -/
def mumudvbCamNewPmt (cam : Cam) (pmt : MumudvbTsPacket) : CamReturn × Data :=
  let (section_, data) := lib.sectionCodec pmt.dataFull pmt.lenFull
  if section_ = false then (.failed, data)
  else
    let (sectionExt, data) := lib.sectionExtDecode data
    if sectionExt = false then (.failed, data)
    else
      let (pmt, data) := lib.mpegPmtSectionCodec data
      if pmt = false then (.failed, data)
      else if tableId data.cells ≠ 0x02 then (.failed, data)
      else if cam.stdcam = false then (.failed, data)
      else if cam.caResourceConnected then
        if cam.formatsPmt && cam.takesPmt then (.sent, data) else (.failed, data)
      else (.notConnected, data)

end code

section update

/-- A CAM that was not asked is to be asked, and one that was asked is to be asked again. -/
def refreshed : CamAsk → CamAsk
  | .noAsk => .needAsk
  | .asked => .needUpdate
  | ask => ask

/-- The first part of `chan_update_CAM`. -/
def updateCamAsk (autoconfScrambled : Bool) (channel : CamChannel) : CamChannel :=
  if autoconfScrambled && channel.freeCaMode then
    { channel with needCamAsk := refreshed channel.needCamAsk }
  else channel

/-- The part of `chan_update_CAM` about software descrambling, which it may begin. -/
def updateScamAsk (scamSupport : Bool) (channel : CamChannel) : CamChannel :=
  if channel.freeCaMode && scamSupport then
    if channel.scamSupport = false then
      { channel with
        scamSupport := true
        needScamAsk := .needAsk }
    else if channel.needScamAsk = .asked then { channel with needScamAsk := .needAsk }
    else channel
  else channel

/-- `chan_update_CAM` for one channel. -/
def chanUpdateCam (autoconfScrambled scamSupport : Bool) (channel : CamChannel) : CamChannel :=
  if channel.channelReady ≠ .ready then channel
  else updateScamAsk scamSupport (updateCamAsk autoconfScrambled channel)

end update

/-- A section that has been sent, as the decoders were given it. -/
structure Sent where
  management : ListManagement
  data : Data
  len : Nat

/-- A channel, with what the CAM thread is about to do with it. -/
structure Asking where
  chan : CamChannel
  /-- the thread has found that the CAM is to be asked again -/
  reasking : Bool
  /-- the last section that has been sent; nothing reads this -/
  sent : Option Sent
  /-- the last section that has been popped; nothing reads this -/
  popped : List UInt8
  /-- the last section that had been popped when one was sent; nothing reads this -/
  sentPopped : List UInt8
  /-- no section has been popped since one was sent; nothing reads this -/
  unchanged : Bool

section asking

variable (lib : Libucsi)

/-- `cam_new_packet` -/
def camNewPacket (pid : Nat) (cam : Cam) (s : Asking) : Asking :=
  let chan := s.chan
  if (chan.needCamAsk = .needAsk ∨ chan.needCamAsk = .needUpdate ∨ chan.needScamAsk = .needAsk) ∧
      chan.pmtPid = pid then
    if 0 < chan.pmtPacket.lenFull ∧ chan.pmtNeedUpdate = false then
      if checkPmtServiceId chan.pmtPacket chan.toPmtChannel then
        let (ret, data) := mumudvbCamNewPmt lib cam chan.pmtPacket
        let chan' := { chan with pmtPacket := { chan.pmtPacket with dataFull := data } }
        if ret = .sent then { s with
          chan := { chan' with needCamAsk := .asked }
          sent := some ⟨if chan.needCamAsk = .needUpdate then .update else .add,
            chan.pmtPacket.dataFull, chan.pmtPacket.lenFull⟩
          sentPopped := s.popped
          unchanged := true }
        else { s with chan := chan' }
      else s
    else { s with chan := { chan with pmtNeedUpdate := true } }
  else s

/-- The last section that the loop of `chan_new_pmt` pops, if it pops any. -/
def pmtLoopPopped (fuel : Nat) (buf : Option Packet) (channel : PmtChannel) : Option (List UInt8) :=
  match fuel with
  | 0 => none
  | fuel + 1 =>
    if channel.pmtNeedUpdate then
      match getTsPacket buf channel.pmtPacket with
      | .error _ => none
      | .ok (avail, pmtPacket) =>
        let later :=
          if avail then
            let (ok, channel) := chanPmtOk { channel with pmtPacket }
            pmtLoopPopped fuel none (if ok then announce channel else channel)
          else none
        later.or (view channel.pmtPacket).store.head?
    else none

/-- The last section that `chan_new_pmt` pops for a channel. -/
def takePmtPopped (mem : TableMemory) (pid : Nat) (channel : PmtChannel) : Option (List UInt8) :=
  if Listens pid channel then
    match (if channel.pmtNeedUpdate then .ok channel else chanPmtNeedUpdate mem channel) with
    | .error _ => none
    | .ok channel => pmtLoopPopped takeFuel (some mem.packet) channel
  else none

/-- `chan_new_pmt` for one channel. -/
def takePacket (mem : TableMemory) (pid : Nat) (s : Asking) : Checked Asking := do
  let channel ← takePmt mem pid s.chan.toPmtChannel
  let popped := takePmtPopped mem pid s.chan.toPmtChannel
  return { s with
    chan := { s.chan with toPmtChannel := channel }
    popped := popped.getD s.popped
    unchanged := s.unchanged && popped.isNone }

end asking

/-- A channel before its first packet, which the CAM has not been asked for. -/
def FreshAsking (s : Asking) : Prop :=
  Fresh s.chan.toPmtChannel ∧ s.chan.needCamAsk ≠ .asked ∧ s.reasking = false ∧ s.sent = none ∧
    s.popped = [] ∧ s.unchanged = false

/-- What the rest of the program leaves alone. -/
structure SamePmt (s s' : Asking) : Prop where
  serviceId : s'.chan.serviceId = s.chan.serviceId
  pmtPacket : s'.chan.pmtPacket = s.chan.pmtPacket
  pmtVersion : s'.chan.pmtVersion = s.chan.pmtVersion
  versionStored : s'.chan.versionStored = s.chan.versionStored
  pmtNeedUpdate : s'.chan.pmtNeedUpdate = s.chan.pmtNeedUpdate
  needCamAsk : s'.chan.needCamAsk = s.chan.needCamAsk
  reasking : s'.reasking = s.reasking
  sent : s'.sent = s.sent
  popped : s'.popped = s.popped
  sentPopped : s'.sentPopped = s.sentPopped
  unchanged : s'.unchanged = s.unchanged

inductive Event where
  | packet (mem : TableMemory) (pid : Nat)
  | reset (i : Nat)
  | updateCam (autoconfScrambled scamSupport : Bool)
  | found (i : Nat)
  | reask (i : Nat)
  | cam (i pid : Nat) (cam : Cam)
  | rest (i : Nat)

/-- The steps of the two threads: packets come, versions are reset, the CAM is asked, and the
thread of the CAM, which first looks for channels, has it asked again. -/
inductive Step (lib : Libucsi) : List Asking → Event → List Asking → Prop where
  | packet {channels channels' : List Asking} {mem : TableMemory} {pid : Nat}
      (call : channels.mapM (takePacket mem pid) = .ok channels') :
      Step lib channels (.packet mem pid) channels'
  | reset {channels : List Asking} {i : Nat} {s : Asking} (here : channels[i]? = some s) :
      Step lib channels (.reset i) (channels.set i
        { s with chan := { s.chan with
          pmtVersion := -1
          versionStored := false } })
  | updateCam {channels : List Asking} {autoconfScrambled scamSupport : Bool} :
      Step lib channels (.updateCam autoconfScrambled scamSupport) (channels.map fun s =>
        { s with chan := chanUpdateCam autoconfScrambled scamSupport s.chan })
  | found {channels : List Asking} {i : Nat} {s : Asking} (here : channels[i]? = some s)
      (asked : s.chan.needCamAsk = .asked) (ready : s.chan.channelReady.isReady = true) :
      Step lib channels (.found i) (channels.set i { s with reasking := true })
  | reask {channels : List Asking} {i : Nat} {s : Asking} (here : channels[i]? = some s)
      (reasking : s.reasking = true) :
      Step lib channels (.reask i) (channels.set i
        { s with
          chan := { s.chan with needCamAsk := .needUpdate }
          reasking := false })
  | cam {channels : List Asking} {i pid : Nat} {cam : Cam} {s : Asking}
      (here : channels[i]? = some s) :
      Step lib channels (.cam i pid cam) (channels.set i (camNewPacket lib pid cam s))
  | rest {channels : List Asking} {i : Nat} {s s' : Asking} (here : channels[i]? = some s)
      (same : SamePmt s s') : Step lib channels (.rest i) (channels.set i s')

def system (lib : Libucsi) : System (List Asking) Event where
  Initial channels := ∀ s ∈ channels, FreshAsking s
  Step := Step lib

section decoders

variable {lib : Libucsi} {data : Data} {pmt : MumudvbTsPacket}

theorem byteAt_exchange (data : Data) {i j k : Nat} (hi : k ≠ i) (hj : k ≠ j) :
    byteAt (exchange data i j).cells k = byteAt data.cells k := by
  simp only [exchange, byteAt, List.getD_eq_getElem?_getD]
  rw [List.getElem?_set_ne (Ne.symm hj), List.getElem?_set_ne (Ne.symm hi)]

theorem byteAt_exchange_left (data : Data) {i j : Nat} (hi : i < maxTsSize) :
    byteAt (exchange data i j).cells i = byteAt data.cells j := by
  have hlen : i < data.cells.length := by rw [data.length_cells]; exact hi
  simp only [exchange, byteAt, List.getD_eq_getElem?_getD]
  by_cases hij : j = i
  · subst hij
    rw [List.getElem?_set_self (by rw [List.length_set]; exact hlen), Option.getD_some]
  · rw [List.getElem?_set_ne hij, List.getElem?_set_self hlen, Option.getD_some]

/-- Nothing happens to two equal bytes. -/
theorem exchange_same {i j : Nat} (h : byteAt data.cells i = byteAt data.cells j)
    (hi : i < maxTsSize) (hj : j < maxTsSize) : exchange data i j = data := by
  have hset : ∀ {k : Nat} {xs : List UInt8}, k < xs.length → xs.set k (byteAt xs k) = xs := by
    intro k xs hk
    rw [byteAt, List.getD_eq_getElem?_getD, List.getElem?_eq_getElem hk, Option.getD_some]
    exact List.set_getElem_self hk
  rw [exchange, Buffer.mk.injEq, ← h, hset (by rw [data.length_cells]; exact hi), h,
    hset (by rw [data.length_cells]; exact hj)]

theorem byteAt_of_take {xs ys : List UInt8} {n k : Nat} (h : xs.take n = ys.take n) (hk : k < n) :
    byteAt xs k = byteAt ys k := by
  rw [byteAt, byteAt, List.getD_eq_getElem?_getD, List.getD_eq_getElem?_getD,
    ← List.getElem?_take_of_lt hk, h, List.getElem?_take_of_lt hk]

theorem sectionCodec_kept (lib : Libucsi) (data : Data) (len : Nat) {k : Nat} (h1 : k ≠ 1)
    (h2 : k ≠ 2) :
    byteAt (lib.sectionCodec data len).2.cells k = byteAt data.cells k := by
  by_cases hlen : 3 ≤ len
  · rw [lib.sectionCodec_data data len hlen, byteAt_exchange data h1 h2]
  · rw [lib.sectionCodec_short data len (by omega)]

theorem sectionExtDecode_kept (lib : Libucsi) (data : Data) {k : Nat} (h3 : k ≠ 3) (h4 : k ≠ 4) :
    byteAt (lib.sectionExtDecode data).2.cells k = byteAt data.cells k := by
  cases h : (lib.sectionExtDecode data).1 with
  | true => rw [lib.sectionExtDecode_data data h, byteAt_exchange data h3 h4]
  | false => rw [lib.sectionExtDecode_null data h]

/-- The buffer is what one decoder leaves, or two, or all three. -/
theorem mumudvbCamNewPmt_cases (lib : Libucsi) (cam : Cam) (pmt : MumudvbTsPacket) :
    (mumudvbCamNewPmt lib cam pmt).1 = .failed ∧
        (mumudvbCamNewPmt lib cam pmt).2 = (lib.sectionCodec pmt.dataFull pmt.lenFull).2 ∨
      (lib.sectionCodec pmt.dataFull pmt.lenFull).1 = true ∧
        (mumudvbCamNewPmt lib cam pmt).1 = .failed ∧
        (mumudvbCamNewPmt lib cam pmt).2 =
          (lib.sectionExtDecode (lib.sectionCodec pmt.dataFull pmt.lenFull).2).2 ∨
      (lib.sectionCodec pmt.dataFull pmt.lenFull).1 = true ∧
        (lib.sectionExtDecode (lib.sectionCodec pmt.dataFull pmt.lenFull).2).1 = true ∧
        (mumudvbCamNewPmt lib cam pmt).2 = (lib.mpegPmtSectionCodec
          (lib.sectionExtDecode (lib.sectionCodec pmt.dataFull pmt.lenFull).2).2).2 := by
  simp only [mumudvbCamNewPmt]
  cases hcodec : (lib.sectionCodec pmt.dataFull pmt.lenFull).1 with
  | false => exact .inl ⟨rfl, rfl⟩
  | true =>
    rw [if_neg (Ne.symm Bool.false_ne_true)]
    cases hext : (lib.sectionExtDecode (lib.sectionCodec pmt.dataFull pmt.lenFull).2).1 with
    | false => exact .inr (.inl ⟨rfl, rfl, rfl⟩)
    | true =>
      refine .inr (.inr ⟨rfl, rfl, ?_⟩)
      rw [if_neg (Ne.symm Bool.false_ne_true)]
      repeat' split
      all_goals rfl

/-- The table and the version of the section stay where they are. -/
theorem mumudvbCamNewPmt_kept (lib : Libucsi) (cam : Cam) (pmt : MumudvbTsPacket) :
    tableId (mumudvbCamNewPmt lib cam pmt).2.cells = tableId pmt.dataFull.cells ∧
      versionNumber (mumudvbCamNewPmt lib cam pmt).2.cells = versionNumber pmt.dataFull.cells := by
  have hbyte : ∀ k, k = 0 ∨ k = 5 →
      byteAt (mumudvbCamNewPmt lib cam pmt).2.cells k = byteAt pmt.dataFull.cells k := by
    intro k hk
    have hcodec : byteAt (lib.sectionCodec pmt.dataFull pmt.lenFull).2.cells k =
        byteAt pmt.dataFull.cells k := sectionCodec_kept lib _ _ (by omega) (by omega)
    have hext := sectionExtDecode_kept lib (lib.sectionCodec pmt.dataFull pmt.lenFull).2
      (show k ≠ 3 by omega) (show k ≠ 4 by omega)
    obtain ⟨-, hdata⟩ | ⟨-, -, hdata⟩ | ⟨-, -, hdata⟩ := mumudvbCamNewPmt_cases lib cam pmt
    · rw [hdata, hcodec]
    · rw [hdata, hext, hcodec]
    · rw [hdata, byteAt_of_take (lib.mpegPmtSectionCodec_header _) (by omega), hext, hcodec]
  exact ⟨hbyte 0 (.inl rfl), by rw [versionNumber, versionNumber, hbyte 5 (.inr rfl)]⟩

theorem checkPmtServiceId_iff {channel : PmtChannel} : checkPmtServiceId pmt channel = true ↔
    IsPmtOf channel.serviceId pmt ∧ currentNextIndicator pmt.dataFull.cells ≠ 0 := by
  rw [checkPmtServiceId, IsPmtOf]
  by_cases htable : tableId pmt.dataFull.cells = 0x02
  · by_cases hcurrent : currentNextIndicator pmt.dataFull.cells = 0
    · simp [htable, hcurrent]
    · simp [htable, hcurrent]
  · simp [htable]

end decoders

section download

/-- What `chan_new_pmt` does to a channel that the CAM is still asked for afterwards. -/
structure StillAsked (channel channel' : PmtChannel) : Prop where
  serviceId : channel'.serviceId = channel.serviceId
  asked : channel'.needCamAsk = .asked → channel.needCamAsk = .asked ∧
    channel'.pmtVersion = channel.pmtVersion ∧ channel'.versionStored = channel.versionStored

theorem StillAsked.refl (channel : PmtChannel) : StillAsked channel channel :=
  ⟨rfl, fun h => ⟨h, rfl, rfl⟩⟩

theorem StillAsked.trans {a b c : PmtChannel} (h : StillAsked a b) (h' : StillAsked b c) :
    StillAsked a c := by
  refine ⟨h'.serviceId.trans h.serviceId, fun hasked => ?_⟩
  obtain ⟨hasked, hversion, hstored⟩ := h'.asked hasked
  obtain ⟨hasked, hversion', hstored'⟩ := h.asked hasked
  exact ⟨hasked, hversion.trans hversion', hstored.trans hstored'⟩

/-- A PMT that is accepted is one that the CAM has not been asked for. -/
theorem chanPmtOk_stillAsked (channel : PmtChannel) : StillAsked channel
    (if (chanPmtOk channel).1 then announce (chanPmtOk channel).2 else (chanPmtOk channel).2) := by
  rw [chanPmtOk]
  split
  · exact ⟨rfl, fun h => ⟨h, rfl, rfl⟩⟩
  · split
    · exact .refl channel
    · split
      · exact ⟨rfl, fun h => ⟨h, rfl, rfl⟩⟩
      · refine ⟨rfl, fun h => ?_⟩
        rw [if_pos rfl, announce] at h
        dsimp only at h
        split at h
        · cases h
        · contradiction

theorem pmtLoop_stillAsked {fuel : Nat} {buf : Option Packet} {channel channel' : PmtChannel}
    (h : pmtLoop fuel buf channel = .ok channel') : StillAsked channel channel' := by
  induction fuel generalizing buf channel with
  | zero => cases h
  | succ fuel ih =>
    rw [pmtLoop] at h
    split at h
    · obtain ⟨⟨avail, pmtPacket⟩, -, h⟩ := bind_eq_ok.mp h
      dsimp only at h
      split at h
      · have hstep := chanPmtOk_stillAsked { channel with pmtPacket }
        exact .trans ⟨hstep.serviceId, hstep.asked⟩ (ih h)
      · cases h
        exact ⟨rfl, fun h => ⟨h, rfl, rfl⟩⟩
    · cases h
      exact .refl _

theorem takePmt_stillAsked {mem : TableMemory} {pid : Nat} {channel channel' : PmtChannel}
    (h : takePmt mem pid channel = .ok channel') : StillAsked channel channel' := by
  rw [takePmt] at h
  split at h
  · obtain ⟨channel₁, hcheck, hloop⟩ := bind_eq_ok.mp h
    refine StillAsked.trans ?_ (pmtLoop_stillAsked hloop)
    split at hcheck
    · cases hcheck
      exact .refl channel
    · obtain rfl | rfl := chanPmtNeedUpdate_cases hcheck
      · exact .refl _
      · exact ⟨rfl, fun h => ⟨h, rfl, rfl⟩⟩
  · cases h
    exact .refl channel

/-- The buffer handed out is not read by the assembler. -/
theorem healthy_data {pkt : MumudvbTsPacket} (h : Healthy pkt) (data : Data) :
    Healthy { pkt with dataFull := data } :=
  ⟨⟨⟨h.fullNumber, h.fullBufferLen, h.fullBufferRoom, h.storedLength, h.lenFull⟩, h.lenPartial,
    h.partialHeader, h.started, h.headerRead⟩, h.sound⟩

end download

section latest

/-- The section is a PMT for the service, of that version. -/
structure IsPmtFor (serviceId version : Int) (data : Data) : Prop where
  tableId : tableId data.cells = 0x02
  program : IsFor serviceId data.cells
  version : version = versionNumber data.cells

/-- The CAM that has been asked has the latest PMT. -/
def Latest (s : Asking) : Prop :=
  s.chan.needCamAsk = .asked → s.chan.pmtNeedUpdate = false → s.chan.versionStored = true →
    ∃ m, s.sent = some m ∧ IsPmtFor s.chan.serviceId s.chan.pmtVersion m.data

/-- What every run keeps, whatever is in the bytes that the decoders exchange. -/
structure AskInv (s : Asking) : Prop where
  healthy : Healthy s.chan.pmtPacket
  stored : s.chan.pmtNeedUpdate = false → s.chan.versionStored = true →
    s.chan.pmtVersion = versionNumber s.chan.pmtPacket.dataFull.cells
  asked : s.chan.needCamAsk = .asked → s.chan.versionStored = true →
    ∃ m, s.sent = some m ∧ IsPmtFor s.chan.serviceId s.chan.pmtVersion m.data

/-- What the other steps keep of the PMT, where they do not send. -/
structure SameStored (chan chan' : CamChannel) : Prop where
  serviceId : chan'.serviceId = chan.serviceId
  pmtPacket : chan'.pmtPacket = chan.pmtPacket
  pmtVersion : chan'.pmtVersion = chan.pmtVersion
  versionStored : chan'.versionStored = chan.versionStored
  pmtNeedUpdate : chan'.pmtNeedUpdate = false → chan.pmtNeedUpdate = false
  asked : chan'.needCamAsk = .asked → chan.needCamAsk = .asked

theorem SameStored.refl (chan : CamChannel) : SameStored chan chan := ⟨rfl, rfl, rfl, rfl, id, id⟩

theorem SameStored.trans {a b c : CamChannel} (h : SameStored a b) (h' : SameStored b c) :
    SameStored a c :=
  ⟨h'.serviceId.trans h.serviceId, h'.pmtPacket.trans h.pmtPacket,
    h'.pmtVersion.trans h.pmtVersion, h'.versionStored.trans h.versionStored,
    fun hdone => h.pmtNeedUpdate (h'.pmtNeedUpdate hdone), fun hasked => h.asked (h'.asked hasked)⟩

theorem updateCamAsk_same (autoconfScrambled : Bool) (chan : CamChannel) :
    SameStored chan (updateCamAsk autoconfScrambled chan) := by
  have hne : refreshed chan.needCamAsk ≠ .asked := by
    cases chan.needCamAsk <;> decide
  rw [updateCamAsk]
  split
  · exact ⟨rfl, rfl, rfl, rfl, id, fun hasked => absurd hasked hne⟩
  · exact .refl chan

theorem updateScamAsk_same (scamSupport : Bool) (chan : CamChannel) :
    SameStored chan (updateScamAsk scamSupport chan) := by
  rw [updateScamAsk]
  split
  · split
    · exact ⟨rfl, rfl, rfl, rfl, id, id⟩
    · split
      · exact ⟨rfl, rfl, rfl, rfl, id, id⟩
      · exact .refl chan
  · exact .refl chan

theorem chanUpdateCam_same (autoconfScrambled scamSupport : Bool) (chan : CamChannel) :
    SameStored chan (chanUpdateCam autoconfScrambled scamSupport chan) := by
  rw [chanUpdateCam]
  split
  · exact .refl chan
  · exact (updateCamAsk_same _ chan).trans (updateScamAsk_same _ _)

variable {lib : Libucsi} {s s' : Asking} {channels channels' : List Asking} {e : Event}

theorem FreshAsking.inv (h : FreshAsking s) : AskInv s := by
  obtain ⟨⟨hzeroed, hnone⟩, hasked, -⟩ := h
  refine ⟨hzeroed ▸ healthy_zeroed, fun _ hstored => ?_, fun hask => absurd hask hasked⟩
  rw [hnone] at hstored
  cases hstored

theorem AskInv.same (h : AskInv s) (hsame : SameStored s.chan s'.chan) (hsent : s'.sent = s.sent) :
    AskInv s' := by
  refine ⟨hsame.pmtPacket ▸ h.healthy, fun hdone hstored => ?_, fun hasked hstored => ?_⟩
  · rw [hsame.pmtVersion, hsame.pmtPacket]
    exact h.stored (hsame.pmtNeedUpdate hdone) (hsame.versionStored ▸ hstored)
  · rw [hsent, hsame.serviceId, hsame.pmtVersion]
    exact h.asked (hsame.asked hasked) (hsame.versionStored ▸ hstored)

theorem AskInv.packet {mem : TableMemory} {pid : Nat} (h : AskInv s)
    (htake : takePacket mem pid s = .ok s') : AskInv s' := by
  obtain ⟨channel, hchannel, hs'⟩ := bind_eq_ok.mp htake
  cases hs'
  have hstill := takePmt_stillAsked hchannel
  obtain ⟨hhealthy, hstored⟩ : Healthy channel.pmtPacket ∧ (channel.pmtNeedUpdate = false →
      channel.versionStored = true →
        channel.pmtVersion = versionNumber channel.pmtPacket.dataFull.cells) := by
    rcases takePmt_cases hchannel h.healthy with ⟨rfl, -⟩ | ⟨-, -, hdown⟩
    · exact ⟨h.healthy, h.stored⟩
    · cases hdown with
      | found healthy _ _ _ _ _ version => exact ⟨healthy, fun _ _ => version⟩
      | waits healthy _ needs =>
        exact ⟨healthy, fun hdone => absurd (needs.symm.trans hdone) (by decide)⟩
  refine ⟨hhealthy, hstored, fun hasked hversion => ?_⟩
  obtain ⟨hasked, hsame, hbefore⟩ := hstill.asked hasked
  obtain ⟨m, hm, hpmt⟩ := h.asked hasked (hbefore.symm.trans hversion)
  exact ⟨m, hm, hpmt.tableId, hstill.serviceId ▸ hpmt.program, hsame.trans hpmt.version⟩

/-- The CAM gets the PMT that is stored, which the check has found to be one for the channel. -/
theorem AskInv.cam (h : AskInv s) (pid : Nat) (cam : Cam) :
    AskInv (camNewPacket lib pid cam s) := by
  rw [camNewPacket]
  split
  · split
    · rename_i hready
      split
      · rename_i hcheck
        obtain ⟨-, hversion⟩ := mumudvbCamNewPmt_kept lib cam s.chan.pmtPacket
        have hhealthy := healthy_data h.healthy (mumudvbCamNewPmt lib cam s.chan.pmtPacket).2
        have hstored : s.chan.pmtNeedUpdate = false → s.chan.versionStored = true →
            s.chan.pmtVersion =
              versionNumber (mumudvbCamNewPmt lib cam s.chan.pmtPacket).2.cells := by
          rw [hversion]
          exact h.stored
        dsimp only
        split
        · obtain ⟨⟨htable, hprogram⟩, -⟩ := checkPmtServiceId_iff.mp hcheck
          exact ⟨hhealthy, hstored,
            fun _ hversion => ⟨_, rfl, htable, hprogram, h.stored hready.2 hversion⟩⟩
        · exact ⟨hhealthy, hstored, h.asked⟩
      · exact h
    · exact h.same
        ⟨rfl, rfl, rfl, rfl, fun hdone => absurd hdone (Ne.symm Bool.false_ne_true), id⟩ rfl
  · exact h

theorem SamePmt.stored (h : SamePmt s s') : SameStored s.chan s'.chan :=
  ⟨h.serviceId, h.pmtPacket, h.pmtVersion, h.versionStored, fun hdone => h.pmtNeedUpdate ▸ hdone,
    fun hasked => h.needCamAsk ▸ hasked⟩

theorem askInv_step (h : ∀ s ∈ channels, AskInv s) (hstep : Step lib channels e channels') :
    ∀ s ∈ channels', AskInv s := by
  cases hstep with
  | packet call =>
    intro s hs
    obtain ⟨before, hbefore, htake⟩ := mem_of_mapM call hs
    exact (h before hbefore).packet htake
  | reset here =>
    exact forall_mem_set_of h here fun hs => ⟨hs.healthy, fun _ hstored => absurd hstored Bool.false_ne_true,
      fun _ hstored => absurd hstored Bool.false_ne_true⟩
  | updateCam =>
    intro s hs
    obtain ⟨before, hbefore, rfl⟩ := List.mem_map.mp hs
    exact (h before hbefore).same (chanUpdateCam_same _ _ _) rfl
  | found here => exact forall_mem_set_of h here fun hs => hs.same (.refl _) rfl
  | reask here =>
    exact forall_mem_set_of h here fun hs => hs.same ⟨rfl, rfl, rfl, rfl, id, fun h => by cases h⟩ rfl
  | cam here => exact forall_mem_set_of h here fun hs => hs.cam _ _
  | rest here same => exact forall_mem_set_of h here fun hs => hs.same same.stored same.sent

theorem askInv_run {past : List Event} (hrun : Run (system lib) past channels) :
    ∀ s ∈ channels, AskInv s :=
  Run.invariant (P := fun _ channels => ∀ s ∈ channels, AskInv s)
    (fun _ hinitial s hs => (hinitial s hs).inv) (fun _ _ _ _ h hstep => askInv_step h hstep) hrun

/-- In every run the CAM that has been asked has the latest PMT. -/
theorem latest_run (lib : Libucsi) {past : List Event} {channels : List Asking}
    (hrun : Run (system lib) past channels) : ∀ s ∈ channels, Latest s :=
  fun s hs hasked _ hstored => (askInv_run hrun s hs).asked hasked hstored

end latest

section outputs

/-- What the last section popped makes of the buffer handed out; without one it stays. -/
def Outputs (pkt pkt' : MumudvbTsPacket) : Option (List UInt8) → Prop
  | none => SameOutput pkt pkt'
  | some popped => pkt'.dataFull.cells.take pkt'.lenFull = popped

theorem Outputs.trans {a b c : MumudvbTsPacket} {first later : Option (List UInt8)}
    (h : Outputs a b first) (h' : Outputs b c later) : Outputs a c (later.or first) := by
  cases later with
  | some popped => exact h'
  | none =>
    obtain ⟨hdata, hlen⟩ := h'
    cases first with
    | none => exact SameOutput.trans h ⟨hdata, hlen⟩
    | some popped =>
      change c.dataFull.cells.take c.lenFull = popped
      rw [hdata, hlen]
      exact h

theorem getTsPacket_outputs {pkt pkt' : MumudvbTsPacket} (h : Healthy pkt) {buf : Option Packet}
    {avail : Bool} (hget : getTsPacket buf pkt = .ok (avail, pkt')) :
    Outputs pkt pkt' (view pkt).store.head? := by
  cases hstore : (view pkt).store with
  | nil =>
    obtain ⟨popped, pkt₁, hpop, hsame⟩ := getTsPacket_output h.toRepInvariant hget
    obtain ⟨pkt₂, hspec, -⟩ := popFull_spec h.toRepInvariant
    rw [hpop, hstore, Except.ok.injEq, Prod.mk.injEq] at hspec
    obtain ⟨-, rfl⟩ | ⟨htrue, -⟩ := popFull_frame hpop
    · exact hsame
    · rw [htrue] at hspec
      exact absurd hspec.1 (by decide)
  | cons x later =>
    obtain ⟨pkt₁, hspec, -, -, htake⟩ := getTsPacket_spec h.toRepInvariant buf
    rw [hget, Except.ok.injEq, Prod.mk.injEq] at hspec
    obtain ⟨-, rfl⟩ := hspec
    exact htake x (by rw [hstore, List.head?_cons])

theorem chanPmtOk_pmtPacket (channel : PmtChannel) :
    (if (chanPmtOk channel).1 then announce (chanPmtOk channel).2
      else (chanPmtOk channel).2).pmtPacket = channel.pmtPacket := by
  rw [chanPmtOk]
  (repeat' split) <;> rfl

theorem pmtLoop_outputs {fuel : Nat} {buf : Option Packet} {channel channel' : PmtChannel}
    (h : Healthy channel.pmtPacket) (hloop : pmtLoop fuel buf channel = .ok channel') :
    Healthy channel'.pmtPacket ∧
      Outputs channel.pmtPacket channel'.pmtPacket (pmtLoopPopped fuel buf channel) := by
  induction fuel generalizing buf channel with
  | zero => cases hloop
  | succ fuel ih =>
    rw [pmtLoop] at hloop
    rw [pmtLoopPopped]
    split at hloop
    · rename_i hneeds
      rw [if_pos hneeds]
      obtain ⟨⟨avail, pkt⟩, hget, hloop⟩ := bind_eq_ok.mp hloop
      obtain ⟨hhealthy, -⟩ := h.get hget
      have hfirst := getTsPacket_outputs h hget
      rw [hget]
      dsimp only at hloop ⊢
      cases avail with
      | true =>
        rw [if_pos rfl] at hloop ⊢
        have hsame := chanPmtOk_pmtPacket { channel with pmtPacket := pkt }
        obtain ⟨hhealthy', hlater⟩ := ih (by rw [hsame]; exact hhealthy) hloop
        rw [hsame] at hlater
        exact ⟨hhealthy', hfirst.trans hlater⟩
      | false =>
        rw [if_neg Bool.false_ne_true] at hloop ⊢
        cases hloop
        exact ⟨hhealthy, hfirst⟩
    · rename_i hdone
      rw [if_neg hdone]
      cases hloop
      exact ⟨h, rfl, rfl⟩

theorem takePmt_outputs {mem : TableMemory} {pid : Nat} {channel channel' : PmtChannel}
    (h : Healthy channel.pmtPacket) (htake : takePmt mem pid channel = .ok channel') :
    Healthy channel'.pmtPacket ∧
      Outputs channel.pmtPacket channel'.pmtPacket (takePmtPopped mem pid channel) := by
  rw [takePmt] at htake
  rw [takePmtPopped]
  split at htake
  · rename_i hlistens
    rw [if_pos hlistens]
    obtain ⟨channel₁, hcheck, hloop⟩ := bind_eq_ok.mp htake
    rw [hcheck]
    have hsame : channel₁.pmtPacket = channel.pmtPacket := by
      split at hcheck
      · cases hcheck
        rfl
      · obtain rfl | rfl := chanPmtNeedUpdate_cases hcheck <;> rfl
    rw [← hsame] at h ⊢
    exact pmtLoop_outputs h hloop
  · rename_i hother
    rw [if_neg hother]
    cases htake
    exact ⟨h, rfl, rfl⟩

end outputs

section usable

/-- The PMT that is stored is the one that was popped, and the sections that are sent are. As long
as nothing is popped the PMT passes its check again, and is the one that was sent. -/
structure Usable (s : Asking) : Prop where
  asPopped : s.chan.pmtPacket.dataFull.cells.take s.chan.pmtPacket.lenFull = s.popped
  sentAsPopped : ∀ m, s.sent = some m → m.data.cells.take m.len = s.sentPopped
  again : ∀ m, s.sent = some m → s.unchanged = true →
    checkPmtServiceId s.chan.pmtPacket s.chan.toPmtChannel = true ∧
      s.chan.pmtPacket.dataFull.cells.take s.chan.pmtPacket.lenFull = m.data.cells.take m.len

/-- `cam_new_packet` gets as far as the decoders. -/
def Reaches (pid : Nat) (s : Asking) : Prop :=
  (s.chan.needCamAsk = .needAsk ∨ s.chan.needCamAsk = .needUpdate ∨
      s.chan.needScamAsk = .needAsk) ∧ s.chan.pmtPid = pid ∧
    0 < s.chan.pmtPacket.lenFull ∧ s.chan.pmtNeedUpdate = false ∧
    checkPmtServiceId s.chan.pmtPacket s.chan.toPmtChannel = true

/-- The bytes that are exchanged are equal, and the last decoder, where it is reached, changes
nothing. -/
def Symmetric (lib : Libucsi) (pmt : MumudvbTsPacket) : Prop :=
  (3 ≤ pmt.lenFull → byteAt pmt.dataFull.cells 1 = byteAt pmt.dataFull.cells 2) ∧
    ((lib.sectionCodec pmt.dataFull pmt.lenFull).1 = true →
      (lib.sectionExtDecode pmt.dataFull).1 = true →
        byteAt pmt.dataFull.cells 3 = byteAt pmt.dataFull.cells 4 ∧
          (lib.mpegPmtSectionCodec pmt.dataFull).2 = pmt.dataFull)

/-- No PMT is sent that the decoders change. -/
def Harmless (lib : Libucsi) (channels : List Asking) : Event → Prop
  | .cam i pid _ => ∀ s, channels[i]? = some s → Reaches pid s → Symmetric lib s.chan.pmtPacket
  | _ => True

/-- What such runs keep: while nothing is popped, all of the buffer. -/
structure KeepsPmt (s : Asking) : Prop where
  healthy : Healthy s.chan.pmtPacket
  asPopped : s.chan.pmtPacket.dataFull.cells.take s.chan.pmtPacket.lenFull = s.popped
  sentAsPopped : ∀ m, s.sent = some m → m.data.cells.take m.len = s.sentPopped
  kept : ∀ m, s.sent = some m → s.unchanged = true →
    s.chan.pmtPacket.dataFull = m.data ∧ s.chan.pmtPacket.lenFull = m.len ∧
      checkPmtServiceId s.chan.pmtPacket s.chan.toPmtChannel = true

variable {lib : Libucsi} {s s' : Asking} {channels channels' : List Asking} {e : Event}

theorem KeepsPmt.usable (h : KeepsPmt s) : Usable s := by
  refine ⟨h.asPopped, h.sentAsPopped, fun m hm hsame => ?_⟩
  obtain ⟨hdata, hlen, hcheck⟩ := h.kept m hm hsame
  exact ⟨hcheck, by rw [hdata, hlen]⟩

theorem checkPmtServiceId_same {pmt : MumudvbTsPacket} {channel channel' : PmtChannel}
    (h : channel'.serviceId = channel.serviceId) :
    checkPmtServiceId pmt channel' = checkPmtServiceId pmt channel := by
  rw [checkPmtServiceId, checkPmtServiceId, h]

theorem KeepsPmt.same (h : KeepsPmt s) (hsame : SameStored s.chan s'.chan)
    (hsent : s'.sent = s.sent) (hpopped : s'.popped = s.popped)
    (hsentPopped : s'.sentPopped = s.sentPopped) (hunchanged : s'.unchanged = s.unchanged) :
    KeepsPmt s' := by
  refine ⟨hsame.pmtPacket ▸ h.healthy, ?_, fun m hm => ?_, fun m hm hkept => ?_⟩
  · rw [hsame.pmtPacket, hpopped]
    exact h.asPopped
  · rw [hsentPopped]
    exact h.sentAsPopped m (hsent ▸ hm)
  · rw [checkPmtServiceId_same hsame.serviceId, hsame.pmtPacket]
    exact h.kept m (hsent ▸ hm) (hunchanged ▸ hkept)

theorem KeepsPmt.packet {mem : TableMemory} {pid : Nat} (h : KeepsPmt s)
    (htake : takePacket mem pid s = .ok s') : KeepsPmt s' := by
  obtain ⟨channel, hchannel, hs'⟩ := bind_eq_ok.mp htake
  cases hs'
  have hservice := (takePmt_stillAsked hchannel).serviceId
  obtain ⟨hhealthy, houtputs⟩ := takePmt_outputs h.healthy hchannel
  cases hpopped : takePmtPopped mem pid s.chan.toPmtChannel with
  | none =>
    rw [hpopped] at houtputs
    obtain ⟨hdata, hlen⟩ := houtputs
    refine ⟨hhealthy, ?_, h.sentAsPopped, fun m hm hkept => ?_⟩
    · change channel.pmtPacket.dataFull.cells.take channel.pmtPacket.lenFull = s.popped
      rw [hdata, hlen]
      exact h.asPopped
    · obtain ⟨hsame, hlen', hcheck⟩ := h.kept m hm (by simpa using hkept)
      refine ⟨hdata.trans hsame, hlen.trans hlen', ?_⟩
      rw [checkPmtServiceId_same hservice, checkPmtServiceId, hdata]
      exact hcheck
  | some popped =>
    rw [hpopped] at houtputs
    exact ⟨hhealthy, houtputs, h.sentAsPopped, fun m hm hkept => by simp at hkept⟩

/-- Where the bytes are equal the buffer stays. -/
theorem Symmetric.data {pmt : MumudvbTsPacket} (h : Symmetric lib pmt) (cam : Cam) :
    (mumudvbCamNewPmt lib cam pmt).2 = pmt.dataFull := by
  obtain ⟨hlength, hlater⟩ := h
  have hcodec : (lib.sectionCodec pmt.dataFull pmt.lenFull).2 = pmt.dataFull := by
    by_cases hlen : 3 ≤ pmt.lenFull
    · rw [lib.sectionCodec_data _ _ hlen, exchange_same (hlength hlen) (by decide) (by decide)]
    · rw [lib.sectionCodec_short _ _ (by omega)]
  obtain ⟨-, hdata⟩ | ⟨hok, -, hdata⟩ | ⟨hok, hext, hdata⟩ := mumudvbCamNewPmt_cases lib cam pmt
  · rw [hdata, hcodec]
  · rw [hdata, hcodec]
    cases hext : (lib.sectionExtDecode pmt.dataFull).1 with
    | false => exact lib.sectionExtDecode_null _ hext
    | true =>
      rw [lib.sectionExtDecode_data _ hext,
        exchange_same (hlater hok hext).1 (by decide) (by decide)]
  · rw [hcodec] at hext hdata
    obtain ⟨hprogram, hpmt⟩ := hlater hok hext
    rw [hdata, lib.sectionExtDecode_data _ hext,
      exchange_same hprogram (by decide) (by decide), hpmt]

/-- Where the bytes of the length differ, the section is not the same afterwards. -/
theorem mumudvbCamNewPmt_spoils {pmt : MumudvbTsPacket} (cam : Cam) (hlen : 3 ≤ pmt.lenFull)
    (hne : byteAt pmt.dataFull.cells 1 ≠ byteAt pmt.dataFull.cells 2) :
    (mumudvbCamNewPmt lib cam pmt).2.cells.take pmt.lenFull ≠
      pmt.dataFull.cells.take pmt.lenFull := by
  have hcodec : byteAt (lib.sectionCodec pmt.dataFull pmt.lenFull).2.cells 1 =
      byteAt pmt.dataFull.cells 2 := by
    rw [lib.sectionCodec_data _ _ hlen, byteAt_exchange_left _ (by decide)]
  have hext := sectionExtDecode_kept lib (lib.sectionCodec pmt.dataFull pmt.lenFull).2
    (show 1 ≠ 3 by decide) (show 1 ≠ 4 by decide)
  have hbyte : byteAt (mumudvbCamNewPmt lib cam pmt).2.cells 1 = byteAt pmt.dataFull.cells 2 := by
    obtain ⟨-, hdata⟩ | ⟨-, -, hdata⟩ | ⟨-, -, hdata⟩ := mumudvbCamNewPmt_cases lib cam pmt
    · rw [hdata, hcodec]
    · rw [hdata, hext, hcodec]
    · rw [hdata, byteAt_of_take (lib.mpegPmtSectionCodec_header _) (by decide), hext, hcodec]
  intro hsame
  rw [byteAt_of_take hsame (by omega)] at hbyte
  exact hne hbyte

theorem KeepsPmt.cam (h : KeepsPmt s) (pid : Nat) (cam : Cam)
    (hharmless : Reaches pid s → Symmetric lib s.chan.pmtPacket) :
    KeepsPmt (camNewPacket lib pid cam s) := by
  rw [camNewPacket]
  split
  · rename_i hneeded
    split
    · rename_i hready
      split
      · rename_i hcheck
        have hdata := (hharmless
          ⟨hneeded.1, hneeded.2, hready.1, hready.2, hcheck⟩).data cam
        dsimp only
        rw [hdata]
        split
        · refine ⟨h.healthy, h.asPopped, fun m hm => ?_, fun m hm _ => ?_⟩
          · cases hm
            exact h.asPopped
          · cases hm
            exact ⟨rfl, rfl, hcheck⟩
        · exact ⟨h.healthy, h.asPopped, h.sentAsPopped, h.kept⟩
      · exact h
    · exact ⟨h.healthy, h.asPopped, h.sentAsPopped, h.kept⟩
  · exact h

theorem FreshAsking.keepsPmt (h : FreshAsking s) : KeepsPmt s := by
  obtain ⟨⟨hzeroed, -⟩, -, -, hsent, hpopped, -⟩ := h
  refine ⟨hzeroed ▸ healthy_zeroed, ?_, fun m hm => ?_, fun m hm => ?_⟩
  · rw [hzeroed, hpopped]
    rfl
  · rw [hsent] at hm
    cases hm
  · rw [hsent] at hm
    cases hm

theorem keepsPmt_step (h : ∀ s ∈ channels, KeepsPmt s) (hharmless : Harmless lib channels e)
    (hstep : Step lib channels e channels') : ∀ s ∈ channels', KeepsPmt s := by
  cases hstep with
  | packet call =>
    intro s hs
    obtain ⟨before, hbefore, htake⟩ := mem_of_mapM call hs
    exact (h before hbefore).packet htake
  | reset here =>
    exact forall_mem_set_of h here fun hs => ⟨hs.healthy, hs.asPopped, hs.sentAsPopped, hs.kept⟩
  | updateCam =>
    intro s hs
    obtain ⟨before, hbefore, rfl⟩ := List.mem_map.mp hs
    exact (h before hbefore).same (chanUpdateCam_same _ _ _) rfl rfl rfl rfl
  | found here => exact forall_mem_set_of h here fun hs => hs.same (.refl _) rfl rfl rfl rfl
  | reask here =>
    exact forall_mem_set_of h here fun hs => ⟨hs.healthy, hs.asPopped, hs.sentAsPopped, hs.kept⟩
  | cam here => exact forall_mem_set_of h here fun hs => hs.cam _ _ (hharmless _ here)
  | rest here same =>
    exact forall_mem_set_of h here fun hs => hs.same same.stored same.sent same.popped same.sentPopped
      same.unchanged

end usable

/-- The first two decoders, and the last one on a PMT without descriptors and streams. -/
def plainCodec (data : Data) (len : Nat) : Bool × Data :=
  if len < 3 then (false, data)
  else (decide (hostLength (exchange data 1 2) + 3 = len), exchange data 1 2)

def plainExtDecode (data : Data) : Bool × Data :=
  if 128 ≤ (byteAt data.cells 2).toNat then (true, exchange data 3 4) else (false, data)

def plainPmtCodec (data : Data) : Bool × Data := (true, exchange (exchange data 8 9) 10 11)

theorem take_exchange (data : Data) {i j n : Nat} (hi : n ≤ i) (hj : n ≤ j) :
    (exchange data i j).cells.take n = data.cells.take n := by
  rw [exchange, List.take_set_of_le hj, List.take_set_of_le hi]

theorem plainCodec_data (data : Data) (len : Nat) (h : 3 ≤ len) :
    (plainCodec data len).2 = exchange data 1 2 := by
  rw [plainCodec, if_neg (by omega)]

theorem plainCodec_short (data : Data) (len : Nat) (h : len < 3) :
    plainCodec data len = (false, data) := by
  rw [plainCodec, if_pos h]

theorem plainCodec_length (data : Data) (len : Nat) (h : (plainCodec data len).1 = true) :
    hostLength (exchange data 1 2) + 3 = len := by
  rw [plainCodec] at h
  split at h
  · cases h
  · exact of_decide_eq_true h

theorem plainExtDecode_data (data : Data) (h : (plainExtDecode data).1 = true) :
    (plainExtDecode data).2 = exchange data 3 4 := by
  rw [plainExtDecode] at h ⊢
  split at h
  · rw [if_pos ‹_›]
  · cases h

theorem plainExtDecode_null (data : Data) (h : (plainExtDecode data).1 = false) :
    (plainExtDecode data).2 = data := by
  rw [plainExtDecode] at h ⊢
  split at h
  · cases h
  · rw [if_neg ‹_›]

theorem plainPmtCodec_header (data : Data) :
    (plainPmtCodec data).2.cells.take 8 = data.cells.take 8 := by
  rw [plainPmtCodec, take_exchange _ (by decide) (by decide),
    take_exchange _ (by decide) (by decide)]

def plain : Libucsi where
  sectionCodec := plainCodec
  sectionExtDecode := plainExtDecode
  mpegPmtSectionCodec := plainPmtCodec
  sectionCodec_data := plainCodec_data
  sectionCodec_short := plainCodec_short
  sectionCodec_length := plainCodec_length
  sectionExtDecode_data := plainExtDecode_data
  sectionExtDecode_null := plainExtDecode_null
  mpegPmtSectionCodec_header := plainPmtCodec_header

/-- A CAM that takes what it gets. -/
def ready : Cam := ⟨true, true, true, true⟩

/-- A channel that the CAM is to be asked for, with PMT PID 256. -/
def asking (serviceId : Int) : Asking where
  chan := { readyChannel with
    serviceId
    needCamAsk := .needAsk
    freeCaMode := true
    scamSupport := false
    needScamAsk := .noAsk }
  reasking := false
  sent := none
  popped := []
  sentPopped := []
  unchanged := false

theorem asking_fresh (serviceId : Int) : FreshAsking (asking serviceId) :=
  ⟨⟨rfl, rfl⟩, (fun h => by cases h), rfl, rfl, rfl, rfl⟩

/-- What the program does in a step of the main thread that is a packet or about the CAM. -/
def handle (channels : List Asking) : Event → Checked (List Asking)
  | .packet mem pid => channels.mapM (takePacket mem pid)
  | .cam i pid cam =>
    match channels[i]? with
    | some s => .ok (channels.set i (camNewPacket plain pid cam s))
    | none => .error .outOfBounds
  | .reask i =>
    match channels[i]? with
    | some s =>
      if s.reasking = true then .ok (channels.set i
        { s with
          chan := { s.chan with needCamAsk := .needUpdate }
          reasking := false })
      else .error .outOfBounds
    | none => .error .outOfBounds
  | .found i =>
    match channels[i]? with
    | some s =>
      if s.chan.needCamAsk = .asked ∧ s.chan.channelReady.isReady = true then
        .ok (channels.set i { s with reasking := true })
      else .error .outOfBounds
    | none => .error .outOfBounds
  | _ => .error .outOfBounds

theorem step_handle {channels channels' : List Asking} {e : Event}
    (h : handle channels e = .ok channels') : (system plain).Step channels e channels' := by
  cases e with
  | packet mem pid => exact .packet h
  | cam i pid cam =>
    rw [handle] at h
    split at h
    · rename_i here
      cases h
      exact .cam here
    · cases h
  | reask i =>
    rw [handle] at h
    split at h
    · rename_i here
      split at h
      · rename_i hreasking
        cases h
        exact .reask here hreasking
      · cases h
    · cases h
  | found i =>
    rw [handle] at h
    split at h
    · rename_i here
      split at h
      · rename_i hasked
        cases h
        exact .found here hasked.1 hasked.2
      · cases h
    · cases h
  | _ => cases h

/-- The PMT is received, in two packets, and sent. -/
def firstAsk : List Event :=
  [.packet firstMemory 256, .packet firstMemory 256, .cam 0 256 ready]

theorem run_firstAsk {serviceId : Int} {channels : List Asking} {events : List Event}
    (h : events.foldlM handle [asking serviceId] = .ok channels) :
    Run (system plain) events.reverse channels := by
  have hstart : Run (system plain) [] [asking serviceId] := .start fun s hs => by
    rw [List.mem_singleton.mp hs]
    exact asking_fresh serviceId
  simpa using hstart.foldlM id (fun _ _ _ => step_handle) h

/-- The CAM that has been asked has a PMT whose program number is the service. -/
def LatestOfService (s : Asking) : Prop :=
  s.chan.needCamAsk = .asked → s.chan.pmtNeedUpdate = false → s.chan.versionStored = true →
    ∃ m, s.sent = some m ∧ tableId m.data.cells = 0x02 ∧
      s.chan.serviceId = programNumber m.data.cells ∧
      s.chan.pmtVersion = versionNumber m.data.cells

/-- The PMT of service 1 is sent for a channel without a service. -/
theorem not_latestOfService_anyService : ¬ ∀ past channels, Run (system plain) past channels →
    ∀ s ∈ channels, LatestOfService s := by
  have h : (firstAsk.foldlM handle [asking 0]).map (fun channels => channels.map fun s =>
      ((s.chan.needCamAsk, s.chan.pmtNeedUpdate, s.chan.versionStored),
        s.sent.map fun m => (s.chan.serviceId, programNumber m.data.cells))) =
      .ok [((.asked, false, true), some (0, 1))] := by decide +kernel
  obtain ⟨channels, hplay, hvalues⟩ := map_eq_ok h
  obtain ⟨s, rfl, hs⟩ := List.map_eq_singleton_iff.mp hvalues
  simp only [Prod.mk.injEq, Option.map_eq_some_iff] at hs
  obtain ⟨⟨hasked, hdone, hstored⟩, m, hsent, hservice, hprogram⟩ := hs
  intro hall
  obtain ⟨m', hsent', -, hsame, -⟩ :=
    hall _ _ (run_firstAsk hplay) s (List.mem_singleton_self s) hasked hdone hstored
  rw [hsent] at hsent'
  cases hsent'
  rw [hservice, hprogram] at hsame
  exact absurd hsame (by decide)

theorem latest_firstAsk : ∃ past channels, Run (system plain) past channels ∧
    channels.map (fun s => s.chan.needCamAsk) = [.asked] ∧ ∀ s ∈ channels, Latest s := by
  have h : (firstAsk.foldlM handle [asking 1]).map (fun channels =>
      channels.map fun s => s.chan.needCamAsk) = .ok [.asked] := by decide +kernel
  obtain ⟨channels, hplay, hvalues⟩ := map_eq_ok h
  exact ⟨_, channels, run_firstAsk hplay, hvalues, latest_run plain (run_firstAsk hplay)⟩

end MuMuDVB.CamPmt
