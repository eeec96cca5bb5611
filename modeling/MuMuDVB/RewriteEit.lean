import MuMuDVB.Channel

/-!
# Sending the sorted EIT

`eit_rewrite_new_channel_packet` sends one stored section of the service of a
channel, as TS packets that it builds itself. It reads nothing of the incoming
packet but its start indicator.
-/
namespace MuMuDVB.RewriteEit

open CheckedMemory MuMuDVB.TsHeader MuMuDVB.Ts MuMuDVB.Channel

/-- `eit_next_table_id`. -/
def eitNextTableId (tableId : UInt8) : UInt8 :=
  if tableId = 0 then 0x4e
  else if tableId = 0x4e then 0x50
  else if tableId = 0x5f then 0x4e
  else tableId + 1

/-- `eit_find_by_tsid`. -/
def eitFindByTsid (vars : RewriteParameters) (serviceId : Int) (tableId : UInt8) :
    Option EitPacket :=
  vars.eitPackets.find? fun eit => (eit.serviceId : Int) = serviceId ∧ eit.tableId = tableId

/-- The search for a table to send, from `tableId` round to `sectionStart`. -/
def eitSearch (fuel : Nat) (vars : RewriteParameters) (serviceId : Int) (sectionStart : UInt8)
    (tableId : UInt8) : Checked (Option EitPacket × UInt8) :=
  match fuel with
  | 0 => .error .endless
  | fuel + 1 =>
    match (eitFindByTsid vars serviceId tableId).filter EitPacket.fullEitOk with
    | some eit => .ok (some eit, tableId)
    | none =>
      let next := eitNextTableId tableId
      if next ≠ sectionStart then eitSearch fuel vars serviceId sectionStart next
      else .ok (none, next)

/-- The search for a stored section, from `number` on. -/
def eitNextSection (fuel : Nat) (eit : EitPacket) (number : Nat) : Checked Nat :=
  match fuel with
  | 0 => .ok number
  | fuel + 1 => do
    let stored ← eit.sections.read number
    if stored.isSome then return number
    else eitNextSection fuel eit ((number + 1) % (eit.lastSectionNumber + 1))

/-- `send_buf`: the header, then the data and padding. -/
def eitPacket (first : Bool) (cc : Nat) (data : List UInt8) : Packet :=
  let header := [0x47, if first then 0x40 else 0x00, 18, UInt8.ofNat (16 + cc % 16)]
  let sent := (if first then header ++ [0x00] else header) ++ data
  ⟨(sent ++ List.replicate tsPacketSize 0xff).take tsPacketSize, by
    rw [List.length_take, List.length_append, List.length_replicate]
    omega⟩

/-- The loop that cuts the section into packets, with the counter after it. -/
def eitPackets (fuel : Nat) (first : Bool) (cc : Nat) (data : List UInt8) :
    Checked (List Packet × Nat) :=
  match fuel with
  | 0 => .error .endless
  | fuel + 1 =>
    if data = [] then .ok ([], cc)
    else do
      let room := if first then tsPacketSize - tsHeaderLen else tsPacketSize - (tsHeaderLen - 1)
      let (later, last) ← eitPackets fuel false ((cc + 1) % 16) (data.drop room)
      return (eitPacket first cc (data.take room) :: later, last)

/-- The part of `eit_rewrite_new_channel_packet` after a table has been found. -/
def eitSendSection (eit : EitPacket) (channel : MumudvbChannel) :
    Checked (List Packet × MumudvbChannel) := do
  let number ← eitNextSection (eit.lastSectionNumber + 1) eit
    (channel.eitSectionToSend % (eit.lastSectionNumber + 1))
  match ← eit.sections.read number with
  | none => return ([], { channel with
      eitSectionToSend := number
      eitTableIdToSend := eitNextTableId channel.eitTableIdToSend })
  | some pkt =>
    let data ← pkt.dataFull.slice 0 pkt.lenFull
    let (packets, cc) ← eitPackets (maxTsSize + 1) true channel.eitCc data
    let next := (number + 1) % (eit.lastSectionNumber + 1)
    return (packets, { channel with
      eitCc := cc
      eitSectionToSend := next
      eitTableIdToSend :=
        if next = 0 then eitNextTableId channel.eitTableIdToSend
        else channel.eitTableIdToSend })

/-- There are seventeen table ids to go round. -/
@[simp] abbrev eitFuel : Nat := 17

/-- `eit_rewrite_new_channel_packet`, with the packets it hands to `buffer_func`. -/
def eitRewriteNewChannelPacket (vars : RewriteParameters) (channel : MumudvbChannel)
    (buf : Packet) : Checked (List Packet × MumudvbChannel) :=
  if channel.channelReady.isReady ∧ payloadUnitStartIndicator buf.cells then do
    let sectionStart :=
      if channel.eitTableIdToSend ≠ 0x4e ∧ channel.eitTableIdToSend &&& 0xf0 ≠ 0x50 then 0x4e
      else channel.eitTableIdToSend
    let (found, tableId) ← eitSearch eitFuel vars channel.serviceId sectionStart sectionStart
    let channel := { channel with eitTableIdToSend := tableId }
    match found with
    | none => return ([], channel)
    | some eit => eitSendSection eit channel
  else .ok ([], channel)

end MuMuDVB.RewriteEit
