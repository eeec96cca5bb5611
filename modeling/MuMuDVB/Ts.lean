import MuMuDVB.TsHeader

/-!
# The section assembler of ts.c

`get_ts_packet` joins the payloads of 188-byte packets into sections. The
structure keeps a partial section and a store of complete ones, from which one
is popped at each call. Lengths are naturals; where the source subtracts, the
subtraction is checked, and every `memcpy` is a checked block copy. The mutex
and the log messages are left out.
-/
namespace MuMuDVB.Ts

open CheckedMemory MuMuDVB.TsHeader

/-- The number of complete sections accepted in the store. -/
@[simp] abbrev maxFullPackets : Nat := 15
/-- Twice `MAX_TS_SIZE`. -/
@[simp] abbrev fullBufferSize : Nat := 8192

inductive PacketStatus where
  | empty | partialHeader | started | valid
  deriving DecidableEq, Repr

/-- `mumudvb_ts_packet_t`. -/
structure MumudvbTsPacket where
  dataFull : Buffer UInt8 maxTsSize
  lenFull : Nat
  fullNumber : Nat
  fullLengths : Buffer Nat maxFullPackets
  fullBufferLen : Nat
  bufferFull : Buffer UInt8 fullBufferSize
  dataPartial : Buffer UInt8 maxTsSize
  lenPartial : Nat
  expectedLenPartial : Nat
  statusPartial : PacketStatus
  pid : Nat
  cc : Nat
  deriving DecidableEq

/-- The structure after `memset` to zero. -/
def zeroed : MumudvbTsPacket where
  dataFull := Buffer.fill _ 0
  lenFull := 0
  fullNumber := 0
  fullLengths := Buffer.fill _ 0
  fullBufferLen := 0
  bufferFull := Buffer.fill _ 0
  dataPartial := Buffer.fill _ 0
  lenPartial := 0
  expectedLenPartial := 0
  statusPartial := .empty
  pid := 0
  cc := 0

/-- `ts_check_raw_crc32`: a stuffing table has no CRC. -/
def tsCheckRawCrc32 {n : Nat} (data : Buffer UInt8 n) : Checked Bool :=
  if tableId data.cells = 0x72 then .ok true
  else do
    let bytes ← data.slice 0 (sectionLength data.cells + bytesBfrSecLen)
    return crc32 bytes == 0

/-- `ts_check_crc32`. -/
def tsCheckCrc32 (pkt : MumudvbTsPacket) : Checked (Bool × MumudvbTsPacket) := do
  let good ← tsCheckRawCrc32 pkt.dataPartial
  if good then return (true, { pkt with statusPartial := .valid })
  else return (false, { pkt with statusPartial := .empty, lenPartial := 0 })

/-- `ts_partial_full`. -/
def tsPartialFull (pkt : MumudvbTsPacket) : Bool × MumudvbTsPacket :=
  if pkt.expectedLenPartial ≤ pkt.lenPartial then
    (true, { pkt with lenPartial := pkt.expectedLenPartial })
  else (false, pkt)

/-- `ts_move_part_to_full`. -/
def tsMovePartToFull (pkt : MumudvbTsPacket) : Checked MumudvbTsPacket :=
  if maxFullPackets ≤ pkt.fullNumber then .ok pkt
  else if fullBufferSize ≤ pkt.fullBufferLen + pkt.lenPartial then
    .ok { pkt with fullBufferLen := 0, fullNumber := 0, lenPartial := 0, statusPartial := .empty }
  else do
    let src ← pkt.dataPartial.slice 0 pkt.lenPartial
    let bufferFull ← pkt.bufferFull.write pkt.fullBufferLen src
    let fullLengths ← pkt.fullLengths.write pkt.fullNumber [pkt.lenPartial]
    return { pkt with
      bufferFull := bufferFull
      fullBufferLen := pkt.fullBufferLen + pkt.lenPartial
      fullLengths := fullLengths
      fullNumber := pkt.fullNumber + 1
      lenPartial := 0
      statusPartial := .empty }

inductive StartFlag where
  | noStart | startTs | startSection
  deriving DecidableEq, Repr

/-- How a branch of `add_ts_packet_data` ends: by a `return`, or by falling
through to the common end with `copyLen` bytes copied and `dataLeft` left. -/
inductive AddOutcome where
  | returned (pkt : MumudvbTsPacket)
  | copied (pkt : MumudvbTsPacket) (copyLen dataLeft : Nat)

/-- The first branch of `add_ts_packet_data`: a section starts at `buf+off`. -/
def startPart (buf : Packet) (off : Nat) (pkt : MumudvbTsPacket) (dataLeft pid cc : Nat) :
    Checked AddOutcome :=
  if dataLeft < 3 then do
    let src ← buf.slice off dataLeft
    let dataPartial ← pkt.dataPartial.write 0 src
    return .copied { pkt with
      cc := cc, pid := pid
      statusPartial := .partialHeader
      dataPartial := dataPartial
      lenPartial := dataLeft
      expectedLenPartial := 0 } 0 0
  else do
    let tbl ← buf.slice off bytesBfrSecLen
    let expected := sectionLength tbl + bytesBfrSecLen
    let copyLen := if expected < dataLeft then expected else dataLeft
    let src ← buf.slice off copyLen
    let dataPartial ← pkt.dataPartial.write 0 src
    let left ← subtract dataLeft copyLen
    return .copied { pkt with
      cc := cc, pid := pid
      statusPartial := .started
      expectedLenPartial := expected
      lenPartial := copyLen
      dataPartial := dataPartial } copyLen left

/-- The end of a header that the previous packet cut; `none` is the state reset to EMPTY. -/
def completeHeader (buf : Packet) (off : Nat) (pkt : MumudvbTsPacket) (dataLeft : Nat) :
    Checked (Option MumudvbTsPacket) :=
  if pkt.statusPartial = .partialHeader then
    if 3 ≤ pkt.lenPartial then .ok none
    else do
      let missing ← subtract 3 pkt.lenPartial
      if dataLeft < missing then return none
      else
        let src ← buf.slice off missing
        let dataPartial ← pkt.dataPartial.write pkt.lenPartial src
        return some { pkt with
          dataPartial := dataPartial
          expectedLenPartial := sectionLength dataPartial.cells + bytesBfrSecLen
          statusPartial := .started }
  else .ok (some pkt)

/-- Append to the partial section what it still expects of the payload. -/
def appendPart (buf : Packet) (off : Nat) (pkt : MumudvbTsPacket) (dataLeft cc : Nat) :
    Checked AddOutcome := do
  let copyLen ← (if pkt.expectedLenPartial < pkt.lenPartial + dataLeft
    then subtract pkt.expectedLenPartial pkt.lenPartial else .ok dataLeft : Checked Nat)
  let copyLen ← (if maxTsSize < pkt.lenPartial + copyLen
    then subtract maxTsSize pkt.lenPartial else .ok copyLen : Checked Nat)
  let src ← buf.slice off copyLen
  let dataPartial ← pkt.dataPartial.write pkt.lenPartial src
  return .copied { pkt with
    dataPartial := dataPartial, lenPartial := pkt.lenPartial + copyLen, cc := cc } copyLen 0

/-- The second branch of `add_ts_packet_data`: the payload continues a section. -/
def continuePart (buf : Packet) (off : Nat) (pkt : MumudvbTsPacket) (dataLeft pid cc : Nat) :
    Checked AddOutcome :=
  if pkt.statusPartial ≠ .started ∧ pkt.statusPartial ≠ .partialHeader then
    .ok (.returned { pkt with statusPartial := .empty })
  else if pkt.cc = cc then .ok (.returned pkt)
  else if (pkt.cc + 1) % 16 ≠ cc then .ok (.returned { pkt with statusPartial := .empty })
  else if pkt.pid ≠ pid then .ok (.returned { pkt with statusPartial := .empty })
  else do
    match ← completeHeader buf off pkt dataLeft with
    | none => return .returned { pkt with statusPartial := .empty }
    | some pkt => appendPart buf off pkt dataLeft cc

/-- A full partial section is checked and, when its CRC is right, moved to the store. -/
def finishPart (pkt : MumudvbTsPacket) : Checked MumudvbTsPacket :=
  match tsPartialFull pkt with
  | (true, pkt) => do
    let (good, pkt) ← tsCheckCrc32 pkt
    if good then tsMovePartToFull pkt else return pkt
  | (false, pkt) => .ok pkt

/-- The test for stuffing bytes, made only where the end of a section announced a start. -/
def isStuffing (buf : Packet) (off : Nat) (startFlag : StartFlag) : Checked Bool :=
  if startFlag = .startSection then do return (← buf.read off) == 0xff else .ok false

/-- The two branches of `add_ts_packet_data` before its common end. -/
def addBranch (buf : Packet) (off : Nat) (pkt : MumudvbTsPacket) (dataLeft : Nat)
    (startFlag : StartFlag) (pid cc : Nat) : Checked AddOutcome :=
  if startFlag = .noStart then continuePart buf off pkt dataLeft pid cc
  else do
    let stuffing ← isStuffing buf off startFlag
    if stuffing then return .returned pkt else startPart buf off pkt dataLeft pid cc

/-- `add_ts_packet_data`, with the depth of its recursion bounded by `fuel`. -/
def addTsPacketData (fuel : Nat) (buf : Packet) (off : Nat) (pkt : MumudvbTsPacket)
    (dataLeft : Nat) (startFlag : StartFlag) (pid cc : Nat) : Checked MumudvbTsPacket :=
  match fuel with
  | 0 => .error .endless
  | fuel + 1 => do
    match ← addBranch buf off pkt dataLeft startFlag pid cc with
    | .returned pkt => return pkt
    | .copied pkt copyLen left =>
      if pkt.statusPartial ≠ .partialHeader then
        let pkt ← finishPart pkt
        if left ≠ 0 then
          addTsPacketData fuel buf (off + copyLen) pkt left .startSection pid cc
        else return pkt
      else return pkt

/-- Each recursive call has consumed at least three bytes of a packet. -/
@[simp] abbrev addFuel : Nat := tsPacketSize

/-- What `get_ts_packet` does to the store after it popped: shift the rest left. -/
def shiftFull (pkt : MumudvbTsPacket) : Checked MumudvbTsPacket :=
  if 0 < pkt.fullNumber then do
    let rest ← pkt.bufferFull.slice pkt.lenFull pkt.fullBufferLen
    let bufferFull ← pkt.bufferFull.write 0 rest
    let lens ← pkt.fullLengths.slice 1 (maxFullPackets - 1)
    let fullLengths ← pkt.fullLengths.write 0 lens
    return { pkt with bufferFull := bufferFull, fullLengths := fullLengths }
  else .ok pkt

/-- The first part of `get_ts_packet`: hand out the oldest stored section. -/
def popFull (pkt : MumudvbTsPacket) : Checked (Bool × MumudvbTsPacket) :=
  if 0 < pkt.fullNumber then do
    let len ← pkt.fullLengths.read 0
    let src ← pkt.bufferFull.slice 0 len
    let dataFull ← pkt.dataFull.write 0 src
    let left ← subtract pkt.fullBufferLen len
    let pkt ← shiftFull { pkt with
      lenFull := len
      dataFull := dataFull
      fullNumber := pkt.fullNumber - 1
      fullBufferLen := left }
    return (true, pkt)
  else .ok (false, pkt)

/-- Where the payload begins, or `none` where `get_ts_packet` gives the packet up. -/
def payloadOffset (buf : Packet) : Checked (Option Nat) :=
  let afc := adaptationFieldControl buf.cells
  if afc / 2 % 2 = 1 then do
    let len ← buf.read (tsHeaderLen - 1)
    let offset := tsHeaderLen - 1 + len.toNat + 1
    if tsPacketSize ≤ offset then return none
    else if afc = 2 then return none
    else return some offset
  else if afc % 2 = 1 ∧ (buf.cells.drop (tsHeaderLen - 1)).take 3 = [0x00, 0x00, 0x01] then
    .ok none
  else .ok (some (tsHeaderLen - 1))

/-- The last part of `get_ts_packet`: add the payload from `offset` on. The
flag says whether the call reports a popped section or the store's state. -/
def addPayload (buf : Packet) (offset : Nat) (pkt : MumudvbTsPacket) :
    Checked (Bool × MumudvbTsPacket) :=
  let bufPid := TsHeader.pid buf.cells
  let cc := continuityCounter buf.cells
  if payloadUnitStartIndicator buf.cells then do
    let pointerField ← buf.read offset
    let pointerField := pointerField.toNat
    let offset := offset + 1
    if pointerField ≠ 0 ∧ tsPacketSize < offset + pointerField then
      return (false, { pkt with statusPartial := .empty })
    else
      let pkt ← (if pointerField ≠ 0
        then addTsPacketData addFuel buf offset pkt pointerField .noStart bufPid cc
        else .ok pkt : Checked MumudvbTsPacket)
      let offset := offset + pointerField
      let left ← subtract tsPacketSize offset
      let pkt ← addTsPacketData addFuel buf offset pkt left .startTs bufPid cc
      return (true, pkt)
  else do
    let left ← subtract tsPacketSize offset
    let pkt ← addTsPacketData addFuel buf offset pkt left .noStart bufPid cc
    return (true, pkt)

/-- `get_ts_packet`; `none` is the call with a NULL buffer. -/
def getTsPacket (buf : Option Packet) (pkt : MumudvbTsPacket) :
    Checked (Bool × MumudvbTsPacket) := do
  let (packetAvail, pkt) ← popFull pkt
  match buf with
  | none => return (packetAvail, pkt)
  | some buf =>
    match ← payloadOffset buf with
    | none => return (decide (0 < pkt.fullNumber), pkt)
    | some offset =>
      let (added, pkt) ← addPayload buf offset pkt
      return (if added then packetAvail else decide (0 < pkt.fullNumber), pkt)

/-- A sequence of calls of `get_ts_packet`. -/
def getTsPackets : List (Option Packet) → MumudvbTsPacket → Checked MumudvbTsPacket
  | [], pkt => .ok pkt
  | buf :: bufs, pkt => do
    let (_, pkt) ← getTsPacket buf pkt
    getTsPackets bufs pkt

/-- More calls than one packet and a full store can make the loop of a caller do. -/
@[simp] abbrev takeFuel : Nat := maxFullPackets + 2

/-- The loop of the callers, `while (get_ts_packet(buf, pkt)) { …; buf = NULL; }`, with the
sections that `data_full` holds in its body. -/
def takeSections (fuel : Nat) (buf : Option Packet) (pkt : MumudvbTsPacket) :
    Checked (List (List UInt8) × MumudvbTsPacket) :=
  match fuel with
  | 0 => .error .endless
  | fuel + 1 => do
    let (avail, pkt) ← getTsPacket buf pkt
    if avail then
      let (later, pkt') ← takeSections fuel none pkt
      return (pkt.dataFull.cells.take pkt.lenFull :: later, pkt')
    else return ([], pkt)

/-- Each packet of a stream in turn, and a last drain. -/
def takeStream : List Packet → MumudvbTsPacket → Checked (List (List UInt8) × MumudvbTsPacket)
  | [], pkt => takeSections takeFuel none pkt
  | buf :: bufs, pkt => do
    let (now, pkt) ← takeSections takeFuel (some buf) pkt
    let (later, pkt) ← takeStream bufs pkt
    return (now ++ later, pkt)

/-- `set_continuity_counter`. -/
def setCounter (p : Packet) (cc : Nat) : Packet :=
  ⟨setContinuityCounter p.cells cc, by rw [setContinuityCounter, List.length_set, p.length_cells]⟩

/-- A packet in memory with the eight bytes that follow it: as far as the table header can reach
that `get_ts_begin` points to. -/
abbrev TableMemory := Buffer UInt8 196

def TableMemory.packet (mem : TableMemory) : Packet :=
  ⟨mem.cells.take 188, by rw [List.length_take, mem.length_cells]; rfl⟩

/-- `get_ts_begin`: where the first section of the packet starts, if one does. -/
def getTsBegin (mem : TableMemory) : Checked (Option Nat) :=
  let afc := adaptationFieldControl mem.cells
  let delta := tsHeaderLen - 1
  do
    let payload ← (if afc / 2 % 2 = 1 then do
        let len ← mem.read delta
        if tsPacketSize < delta + len.toNat then return none
        else return some (delta + len.toNat + 1)
      else .ok (some delta) : Checked (Option Nat))
    match payload with
    | none => return none
    | some delta =>
      let pes ← (if afc % 2 = 1 then do return (← mem.slice delta 3) == [0x00, 0x00, 0x01]
        else .ok false : Checked Bool)
      if pes then return none
      else if afc = 2 ∨ afc = 0 then return none
      else if payloadUnitStartIndicator mem.cells then
        let pointerField ← mem.read delta
        let delta := delta + 1
        if tsPacketSize < delta + pointerField.toNat then return none
        else return some (delta + pointerField.toNat)
      else return none

end MuMuDVB.Ts
