import Mathlib.Data.UInt
import MuMuDVB.Channel

/-!
# Output of a channel

`buffer_func` collects the packets of a channel in the channel's buffer, and
`send_func` hands the full buffer to the sockets, behind an RTP header if the
channel is sent with RTP. The settings of the channel may change between any
two packets.
-/
namespace MuMuDVB.OutputFrames

open CheckedMemory MuMuDVB.TsHeader

@[simp] abbrev maxUdpSize : Nat := 1350
@[simp] abbrev rtpHeaderLen : Nat := 12

/-- One entry of `pid_i`: the PID and the count of its scrambled packets. -/
structure CountedPid where
  pid : Int
  numScrambledPackets : Nat
  deriving DecidableEq

/-- What the rest of the program sets. A socket is a file descriptor, zero if it is not open. -/
structure Settings where
  /-- the first `num_pids` entries -/
  pids : List CountedPid
  pmtPid : Int
  rtp : Bool
  socketOut4 : Int
  socketOut6 : Int
  deriving DecidableEq

/-- The channel, as far as its output goes. The RTP header lies right before the buffer. -/
structure OutputChannel extends Settings where
  numPacket : Nat
  numScrambledPackets : Nat
  bufWithRtpHeader : Buffer UInt8 rtpHeaderLen
  buf : Buffer UInt8 maxUdpSize
  nbBytes : Nat
  sentData : Nat
  rtpPacketNum : Nat
  deriving DecidableEq

/-- The 90 kHz clock, on the 64 bits of the time and the 32 bits of the timestamp. -/
def rtpTimestamp (time : UInt64) : UInt32 :=
  ((90000 * (time / 1000000)).toUInt32.toUInt64 + 9 * (time % 1000000) / 100).toUInt32

/-- Bytes 2 to 7 of the header: the sequence number and the timestamp. -/
def rtpFields (packetNum timestamp : Nat) : List UInt8 :=
  [packetNum / 256, packetNum, timestamp / 2 ^ 24, timestamp / 2 ^ 16, timestamp / 2 ^ 8,
    timestamp].map UInt8.ofNat

def rtpUpdateSequenceNumber (channel : OutputChannel) (time : UInt64) : Checked OutputChannel := do
  let header ← channel.bufWithRtpHeader.write 2
    (rtpFields channel.rtpPacketNum (rtpTimestamp time).toNat)
  return { channel with
    bufWithRtpHeader := header
    rtpPacketNum := (channel.rtpPacketNum + 1) % 65536 }

/-- What `sendudp` and `sendudp6` are given, and when. -/
structure Datagram where
  time : UInt64
  rtp : Bool
  data : List UInt8
  sockets : List Int
  deriving DecidableEq

/-- One emptying of the buffer: its bytes, which the unicast clients are given as well, and the
datagram, if a socket is open. -/
structure Sending where
  payload : List UInt8
  datagram : Option Datagram
  deriving DecidableEq

def sendMulticast (channel : OutputChannel) (time : UInt64) (payload : List UInt8) :
    Checked (OutputChannel × Option Datagram) :=
  if 0 < channel.socketOut4 ∨ 0 < channel.socketOut6 then do
    let sockets := [channel.socketOut4, channel.socketOut6].filter (· ≠ 0)
    if channel.rtp then
      let channel ← rtpUpdateSequenceNumber channel time
      return (channel, some ⟨time, true, channel.bufWithRtpHeader.cells ++ payload, sockets⟩)
    else return (channel, some ⟨time, false, payload, sockets⟩)
  else .ok (channel, none)

def sendFunc (channel : OutputChannel) (nowTime : UInt64) : Checked (OutputChannel × Sending) := do
  -- the headers of IP, UDP and RTP count as traffic
  let traffic := channel.nbBytes + 20 + 8 + (if channel.rtp then rtpHeaderLen else 0)
  let payload ← channel.buf.slice 0 channel.nbBytes
  let (channel, datagram) ←
    sendMulticast { channel with sentData := channel.sentData + traffic } nowTime payload
  return ({ channel with nbBytes := 0 }, ⟨payload, datagram⟩)

/-- The loop over the PIDs: the first entry that takes the packet, 8192 standing for all. -/
def countPid (pid : Nat) (scrambled : Bool) : List CountedPid → Bool × List CountedPid
  | [] => (false, [])
  | entry :: pids =>
    if entry.pid = pid ∨ entry.pid = 8192 then
      (true, { entry with
        numScrambledPackets := entry.numScrambledPackets + scrambled.toNat } :: pids)
    else
      let (found, pids) := countPid pid scrambled pids
      (found, entry :: pids)

def countPacket (channel : OutputChannel) (tsPacket : Packet) : OutputChannel :=
  let pid := pid tsPacket.cells
  let scrambled := 0 < transportScramblingControl tsPacket.cells
  let (found, pids) := countPid pid scrambled channel.pids
  let isMedia : Bool := found ∧ (pid : Int) ≠ channel.pmtPid
  { channel with
    pids
    numPacket := channel.numPacket + isMedia.toNat
    numScrambledPackets := channel.numScrambledPackets + (isMedia && scrambled).toNat }

/-- A packet goes out unless it is scrambled and such packets are not wanted. -/
def accepts (dontSendScrambled : Bool) (pmtPid : Int) (tsPacket : Packet) : Bool :=
  !(dontSendScrambled && 0 < transportScramblingControl tsPacket.cells && pmtPid ≠ 0)

/-- The buffer has no room for another packet. -/
def isFull (channel : OutputChannel) : Bool :=
  (!channel.rtp && maxUdpSize < channel.nbBytes + tsPacketSize) ||
    (channel.rtp && maxUdpSize < channel.nbBytes + rtpHeaderLen + tsPacketSize)

/-- A packet for a channel that is not descrambled by software. -/
def bufferFunc (dontSendScrambled : Bool) (nowTime : UInt64) (channel : OutputChannel)
    (tsPacket : Packet) : Checked (OutputChannel × Option Sending) := do
  let channel := countPacket channel tsPacket
  let channel ←
    if accepts dontSendScrambled channel.pmtPid tsPacket then do
      let buf ← channel.buf.write channel.nbBytes tsPacket.cells
      pure { channel with buf, nbBytes := channel.nbBytes + tsPacketSize }
    else pure channel
  if isFull channel then do
    let (channel, sending) ← sendFunc channel nowTime
    return (channel, some sending)
  else return (channel, none)

/-- What happens to a channel: a packet at some time, or other settings. -/
inductive Event where
  | packet (tsPacket : Packet) (nowTime : UInt64)
  | configure (settings : Settings)

/-- The channel, the packets that were not dropped, and the emptyings of the buffer. -/
structure Output where
  channel : OutputChannel
  accepted : List Packet
  sendings : List Sending

def step (dontSendScrambled : Bool) (s : Output) : Event → Checked Output
  | .packet tsPacket nowTime => do
    let (channel, sending) ← bufferFunc dontSendScrambled nowTime s.channel tsPacket
    return {
      channel
      accepted := s.accepted ++
        if accepts dontSendScrambled s.channel.pmtPid tsPacket then [tsPacket] else []
      sendings := s.sendings ++ sending.toList }
  | .configure settings => .ok { s with channel := { s.channel with toSettings := settings } }

def runFrom (dontSendScrambled : Bool) (s : Output) (events : List Event) : Checked Output :=
  events.foldlM (step dontSendScrambled) s

/-- A channel before its first packet: the buffer is empty. -/
def opened (channel : OutputChannel) : Output := ⟨{ channel with nbBytes := 0 }, [], []⟩

theorem rtpTimestamp_toNat (time : UInt64) :
    (rtpTimestamp time).toNat = 9 * time.toNat / 100 % 2 ^ 32 := by
  have hbound := time.toNat_lt
  simp only [rtpTimestamp, UInt64.toNat_toUInt32, UInt64.toNat_add, UInt64.toNat_mul,
    UInt64.toNat_div, UInt64.toNat_mod, UInt32.toNat_toUInt64, UInt64.reduceToNat]
  -- no product leaves the 64 bits
  have hseconds : 90000 * (time.toNat / 1000000) % 2 ^ 64 = 90000 * (time.toNat / 1000000) :=
    Nat.mod_eq_of_lt (by omega)
  have hrest : 9 * (time.toNat % 1000000) % 2 ^ 64 = 9 * (time.toNat % 1000000) :=
    Nat.mod_eq_of_lt (by omega)
  have hsplit : 9 * time.toNat / 100 =
      90000 * (time.toNat / 1000000) + 9 * (time.toNat % 1000000) / 100 := by omega
  rw [hseconds, hrest, hsplit]
  omega

/-- The two bytes of the sequence number. -/
def sequenceNumber (data : List UInt8) : Nat := hilo (byteAt data 2).toNat (byteAt data 3).toNat

/-- The four bytes of the timestamp. -/
def timestampOf (data : List UInt8) : Nat :=
  hilo (hilo (hilo (byteAt data 4).toNat (byteAt data 5).toNat) (byteAt data 6).toNat)
    (byteAt data 7).toNat

def headerLen (datagram : Datagram) : Nat := if datagram.rtp then rtpHeaderLen else 0

theorem rtpUpdateSequenceNumber_spec (channel : OutputChannel) (time : UInt64) :
    ∃ header, rtpUpdateSequenceNumber channel time = .ok { channel with
        bufWithRtpHeader := header
        rtpPacketNum := (channel.rtpPacketNum + 1) % 65536 } ∧
      ∀ payload, sequenceNumber (header.cells ++ payload) = channel.rtpPacketNum % 65536 ∧
        timestampOf (header.cells ++ payload) = 9 * time.toNat / 100 % 2 ^ 32 := by
  obtain ⟨header, hwrite, hcells⟩ := channel.bufWithRtpHeader.write_ok 2
    (rtpFields channel.rtpPacketNum (rtpTimestamp time).toNat) (by simp [rtpFields])
  refine ⟨header, ?_, fun payload => ?_⟩
  · simp only [rtpUpdateSequenceNumber, hwrite, bind_ok, pure_ok]
  · have hcell : ∀ k b, (rtpFields channel.rtpPacketNum (rtpTimestamp time).toNat)[k]? = some b →
        byteAt (header.cells ++ payload) (2 + k) = b := by
      intro k b hb
      have hk : k < 6 := by simpa [rtpFields] using (List.getElem?_eq_some_iff.mp hb).1
      have htake : (channel.bufWithRtpHeader.cells.take 2).length = 2 := by simp
      rw [byteAt, List.getD_eq_getElem?_getD,
        List.getElem?_append_left (by rw [header.length_cells]; simp; omega), hcells, splice,
        List.append_assoc, List.getElem?_append_right (by omega), htake, Nat.add_sub_cancel_left,
        List.getElem?_append_left (by simpa [rtpFields] using hk), hb, Option.getD_some]
    have htimestamp := rtpTimestamp_toNat time
    have hbound := (rtpTimestamp time).toNat_lt
    simp only [sequenceNumber, timestampOf, hilo, hcell 0 _ rfl, hcell 1 _ rfl, hcell 2 _ rfl,
      hcell 3 _ rfl, hcell 4 _ rfl, hcell 5 _ rfl, UInt8.toNat_ofNat']
    omega

/-- The packets one behind the other. -/
def bytes (packets : List Packet) : List UInt8 := packets.flatMap Buffer.cells

theorem bytes_append (packets more : List Packet) :
    bytes (packets ++ more) = bytes packets ++ bytes more := List.flatMap_append

@[simp] theorem bytes_singleton (p : Packet) : bytes [p] = p.cells := by simp [bytes]

theorem bytes_flatten (blocks : List (List Packet)) :
    bytes blocks.flatten = (blocks.map bytes).flatten := by
  induction blocks with
  | nil => rfl
  | cons block blocks ih => rw [List.flatten_cons, bytes_append, ih, List.map_cons,
      List.flatten_cons]

/-- A socket is open for the channel. -/
def Settings.IsOpen (settings : Settings) : Prop :=
  0 < settings.socketOut4 ∨ 0 < settings.socketOut6

/-- A datagram with this payload behind its header, which takes its number from the counter. -/
structure IsDatagram (packetNum : Nat) (payload : List UInt8) (datagram : Datagram) : Prop where
  data : ∃ header, header.length = headerLen datagram ∧ datagram.data = header ++ payload
  numbered : datagram.rtp = true → sequenceNumber datagram.data = packetNum % 65536 ∧
    timestampOf datagram.data = 9 * datagram.time.toNat / 100 % 2 ^ 32

/-- The counter after a datagram. -/
def numberAfter (packetNum : Nat) : Option Datagram → Nat
  | none => packetNum
  | some datagram => if datagram.rtp then (packetNum + 1) % 65536 else packetNum

theorem sendMulticast_spec (channel : OutputChannel) (time : UInt64) (payload : List UInt8) :
    ∃ header datagram, sendMulticast channel time payload = .ok ({ channel with
        bufWithRtpHeader := header
        rtpPacketNum := numberAfter channel.rtpPacketNum datagram }, datagram) ∧
      (datagram.isSome ↔ channel.IsOpen) ∧
      ∀ d, datagram = some d → IsDatagram channel.rtpPacketNum payload d := by
  rw [sendMulticast]
  split
  case isFalse hclosed =>
    exact ⟨channel.bufWithRtpHeader, none, rfl, by simpa [Settings.IsOpen] using hclosed,
      fun d hd => by cases hd⟩
  case isTrue hopen =>
    have hsome : ∀ d : Datagram, (some d).isSome ↔ channel.IsOpen := fun d => by
      simpa [Settings.IsOpen] using hopen
    cases hrtp : channel.rtp with
    | true =>
      obtain ⟨header, hupdate, hfields⟩ := rtpUpdateSequenceNumber_spec channel time
      refine ⟨header, some ⟨time, true, header.cells ++ payload,
        [channel.socketOut4, channel.socketOut6].filter (· ≠ 0)⟩, ?_, hsome _, ?_⟩
      · simp only [if_true, hupdate, bind_ok, pure_ok]
        rfl
      · rintro d ⟨⟩
        exact ⟨⟨header.cells, by simp [headerLen], rfl⟩, fun _ => hfields payload⟩
    | false =>
      refine ⟨channel.bufWithRtpHeader, some ⟨time, false, payload,
        [channel.socketOut4, channel.socketOut6].filter (· ≠ 0)⟩, rfl, hsome _, ?_⟩
      rintro d ⟨⟩
      exact ⟨⟨[], rfl, rfl⟩, fun h => by cases h⟩

/-- The buffer holds these packets and has room for another one. -/
structure Collects (channel : OutputChannel) (packets : List Packet) : Prop where
  nbBytes : channel.nbBytes = tsPacketSize * packets.length
  room : packets.length < 7
  held : channel.buf.cells.take channel.nbBytes = bytes packets

/-- The outcomes of a packet for a channel that holds some packets. -/
inductive Outcome (channel : OutputChannel) (packets : List Packet) :
    OutputChannel → Option Sending → Prop where
  | collects {channel' : OutputChannel} (next : Collects channel' packets)
      (settings : channel'.IsOpen ↔ channel.IsOpen)
      (number : channel'.rtpPacketNum = channel.rtpPacketNum) :
      Outcome channel packets channel' none
  | sends {channel' : OutputChannel} {sending : Sending} (next : Collects channel' [])
      (settings : channel'.IsOpen ↔ channel.IsOpen)
      (number : channel'.rtpPacketNum = numberAfter channel.rtpPacketNum sending.datagram)
      (seven : packets.length = 7) (payload : sending.payload = bytes packets)
      (handed : sending.datagram.isSome ↔ channel.IsOpen)
      (datagram : ∀ d, sending.datagram = some d →
        IsDatagram channel.rtpPacketNum sending.payload d) :
      Outcome channel packets channel' (some sending)

/-- With and without RTP, the buffer is full at seven packets. -/
theorem isFull_iff {channel : OutputChannel} {n : Nat} (hn : channel.nbBytes = tsPacketSize * n) :
    isFull channel = true ↔ 7 ≤ n := by
  cases hrtp : channel.rtp <;> simp [isFull, hrtp, hn] <;> omega

theorem sendFunc_spec {channel : OutputChannel} {packets : List Packet} (time : UInt64)
    (hbytes : channel.nbBytes = tsPacketSize * packets.length) (hseven : packets.length = 7)
    (hheld : channel.buf.cells.take channel.nbBytes = bytes packets) :
    ∃ channel' sending, sendFunc channel time = .ok (channel', sending) ∧
      Outcome channel packets channel' (some sending) := by
  have hslice : channel.buf.slice 0 channel.nbBytes = .ok (bytes packets) := by
    rw [Buffer.slice_ok _ (by rw [hbytes, hseven]; decide), List.drop_zero, hheld]
  obtain ⟨header, datagram, hsend, hhanded, hd⟩ := sendMulticast_spec { channel with
    sentData := channel.sentData + (channel.nbBytes + 20 + 8 +
      (if channel.rtp then rtpHeaderLen else 0)) } time (bytes packets)
  refine ⟨_, _, by simp only [sendFunc, hslice, bind_ok, hsend, pure_ok]; rfl, ?_⟩
  exact .sends ⟨rfl, by decide, rfl⟩ Iff.rfl rfl hseven rfl hhanded hd

/-- The end of `buffer_func`. -/
theorem sendIfFull_spec {channel : OutputChannel} {packets : List Packet} (time : UInt64)
    (hbytes : channel.nbBytes = tsPacketSize * packets.length) (hroom : packets.length ≤ 7)
    (hheld : channel.buf.cells.take channel.nbBytes = bytes packets) :
    ∃ channel' sending, (if isFull channel then do
        let (channel, sending) ← sendFunc channel time
        return (channel, some sending)
      else return (channel, none) : Checked (OutputChannel × Option Sending)) =
        .ok (channel', sending) ∧ Outcome channel packets channel' sending := by
  have hfull := isFull_iff hbytes
  split
  case isTrue h =>
    obtain ⟨channel', sending, hsend, hout⟩ := sendFunc_spec time hbytes
      (Nat.le_antisymm hroom (hfull.mp h)) hheld
    exact ⟨channel', some sending, by simp only [hsend, bind_ok, pure_ok], hout⟩
  case isFalse h =>
    rw [hfull] at h
    exact ⟨channel, none, rfl, .collects ⟨hbytes, by omega, hheld⟩ Iff.rfl rfl⟩

theorem bufferFunc_spec {channel : OutputChannel} {packets : List Packet}
    (h : Collects channel packets) (dontSendScrambled : Bool) (time : UInt64) (p : Packet) :
    ∃ channel' sending, bufferFunc dontSendScrambled time channel p = .ok (channel', sending) ∧
      Outcome channel
        (packets ++ if accepts dontSendScrambled channel.pmtPid p then [p] else [])
        channel' sending := by
  have hroom := h.room
  have hbytes := h.nbBytes
  rw [bufferFunc]
  simp only [show (countPacket channel p).pmtPid = channel.pmtPid from rfl]
  split
  case isFalse =>
    obtain ⟨channel', sending, heq, hout⟩ :=
      @sendIfFull_spec (countPacket channel p) _ time hbytes (by omega) h.held
    refine ⟨channel', sending, by simpa using heq, ?_⟩
    rw [List.append_nil]
    cases hout with
    | collects next settings number => exact .collects next settings number
    | sends next settings number seven => omega
  case isTrue =>
    obtain ⟨buf, hwrite, hcells⟩ := channel.buf.write_ok channel.nbBytes p.cells
      (by rw [p.length_cells, hbytes]; simp; omega)
    have hwrite' : (countPacket channel p).buf.write (countPacket channel p).nbBytes p.cells =
      .ok buf := hwrite
    obtain ⟨channel', sending, heq, hout⟩ := @sendIfFull_spec
      { countPacket channel p with
        buf, nbBytes := (countPacket channel p).nbBytes + tsPacketSize } (packets ++ [p]) time
      (by
        rw [List.length_append, List.length_singleton, Nat.mul_add, Nat.mul_one, ← hbytes]
        rfl)
      (by simp; omega)
      (by
        show buf.cells.take (channel.nbBytes + tsPacketSize) = _
        rw [hcells, take_splice (by rw [channel.buf.length_cells, hbytes]; simp; omega)
          (by rw [p.length_cells]), h.held, bytes_append, bytes_singleton])
    refine ⟨channel', sending, by simp only [hwrite', bind_ok, pure_ok]; exact heq, ?_⟩
    cases hout with
    | collects next settings number => exact .collects next settings number
    | sends next settings number seven payload handed datagram =>
      exact .sends next settings number seven payload handed datagram

def datagrams (sendings : List Sending) : List Datagram := sendings.filterMap Sending.datagram

def rtpDatagrams (sendings : List Sending) : List Datagram :=
  (datagrams sendings).filter Datagram.rtp

/-- RTP datagrams, from a first number on, until the counter stands where it does. -/
structure Numbered (first packetNum : Nat) (sent : List Datagram) : Prop where
  next : packetNum % 65536 = (first + sent.length) % 65536
  numbered : ∀ n d, sent[n]? = some d →
    sequenceNumber d.data = (first + n) % 65536 ∧
    timestampOf d.data = 9 * d.time.toNat / 100 % 2 ^ 32

theorem Numbered.add {first packetNum : Nat} {sendings : List Sending}
    (h : Numbered first packetNum (rtpDatagrams sendings)) {sending : Sending}
    (hsending : ∀ d, sending.datagram = some d → IsDatagram packetNum sending.payload d) :
    Numbered first (numberAfter packetNum sending.datagram)
      (rtpDatagrams (sendings ++ [sending])) := by
  have hlast : rtpDatagrams (sendings ++ [sending]) =
      rtpDatagrams sendings ++ sending.datagram.toList.filter Datagram.rtp := by
    cases hd : sending.datagram <;> simp [rtpDatagrams, datagrams, hd]
  rw [hlast]
  cases hd : sending.datagram with
  | none => simpa [numberAfter] using h
  | some d =>
    cases hrtp : d.rtp with
    | false => simpa [numberAfter, hrtp] using h
    | true =>
      have hnext := h.next
      simp only [Option.toList_some, List.filter_singleton, hrtp, if_true, numberAfter, cond_true]
      refine ⟨by rw [List.length_append, List.length_singleton]; omega, fun n d' hd' => ?_⟩
      rw [List.getElem?_append] at hd'
      split at hd'
      · exact h.numbered n d' hd'
      · obtain ⟨hn, rfl⟩ : n - (rtpDatagrams sendings).length = 0 ∧ d = d' := by
          simpa [List.getElem?_singleton] using hd'
        obtain ⟨hsequence, htimestamp⟩ := (hsending d hd).numbered hrtp
        exact ⟨by rw [hsequence]; omega, htimestamp⟩

/-- The datagram without its RTP header. -/
def Datagram.payload (datagram : Datagram) : List UInt8 := datagram.data.drop (headerLen datagram)

/-- What the buffer holds. -/
def buffered (channel : OutputChannel) : List UInt8 := channel.buf.cells.take channel.nbBytes

/-- An event leaves a socket open. -/
def KeepsOpen : Event → Prop
  | .packet _ _ => True
  | .configure settings => settings.IsOpen

/-- The output in whole packets, in order and numbered. -/
structure Framed (start : OutputChannel) (events : List Event) (s : Output) : Prop where
  whole : s.channel.nbBytes % tsPacketSize = 0
  below : s.channel.nbBytes < maxUdpSize
  sevens : ∀ sending ∈ s.sendings, ∃ packets : List Packet, packets.length = 7 ∧
    packets <:+: s.accepted ∧ sending.payload = bytes packets ∧
    ∀ d, sending.datagram = some d →
      ∃ header, header.length = headerLen d ∧ d.data = header ++ bytes packets
  inOrder : s.sendings.flatMap Sending.payload ++ buffered s.channel = bytes s.accepted
  handed : start.IsOpen → (∀ e ∈ events, KeepsOpen e) →
    (datagrams s.sendings).flatMap Datagram.payload ++ buffered s.channel = bytes s.accepted
  numbered : ∀ n d, (rtpDatagrams s.sendings)[n]? = some d →
    sequenceNumber d.data = (start.rtpPacketNum + n) % 65536 ∧
    timestampOf d.data = 9 * d.time.toNat / 100 % 2 ^ 32

/-- What a run keeps: the accepted packets are those sent, seven at a time, and those collected. -/
structure Inv (first : Nat) (s : Output) : Prop where
  collected : ∃ (blocks : List (List Packet)) (held : List Packet),
    s.accepted = blocks.flatten ++ held ∧ Collects s.channel held ∧
    s.sendings.map Sending.payload = blocks.map bytes ∧ ∀ block ∈ blocks, block.length = 7
  datagram : ∀ sending ∈ s.sendings, ∀ d, sending.datagram = some d →
    ∃ header, header.length = headerLen d ∧ d.data = header ++ sending.payload
  numbered : Numbered first s.channel.rtpPacketNum (rtpDatagrams s.sendings)

/-- Every emptying of the buffer found a socket open, and the next one will. -/
def AllHanded (s : Output) : Prop :=
  s.channel.IsOpen ∧ ∀ sending ∈ s.sendings, sending.datagram.isSome

theorem inv_opened (channel : OutputChannel) : Inv channel.rtpPacketNum (opened channel) where
  collected := ⟨[], [], rfl, ⟨rfl, by decide, rfl⟩, rfl, fun _ h => by cases h⟩
  datagram := fun _ h => by cases h
  numbered := ⟨rfl, fun _ _ h => by cases h⟩

variable {dontSendScrambled : Bool} {s s' : Output} {first : Nat}

theorem Inv.packet (h : Inv first s) (p : Packet) (time : UInt64) :
    ∃ s', step dontSendScrambled s (.packet p time) = .ok s' ∧ Inv first s' ∧
      (AllHanded s → AllHanded s') := by
  obtain ⟨blocks, held, haccepted, hcollects, hpayloads, hsevens⟩ := h.collected
  obtain ⟨channel', sending, hbuffer, hout⟩ := bufferFunc_spec hcollects dontSendScrambled time p
  refine ⟨_, by simp only [step, hbuffer, bind_ok, pure_ok]; rfl, ?_⟩
  generalize (if accepts dontSendScrambled s.channel.pmtPid p then [p] else []) = added at hout ⊢
  cases hout with
  | collects next settings number =>
    simp only [Option.toList_none, List.append_nil]
    refine ⟨⟨⟨blocks, _, by rw [haccepted, List.append_assoc], next, hpayloads, hsevens⟩,
      h.datagram, ?_⟩, fun hall => ⟨settings.mpr hall.1, hall.2⟩⟩
    rw [number]
    exact h.numbered
  | sends next settings number seven payload handed datagram =>
    rename_i sending
    have hsent : ∀ sent ∈ s.sendings ++ [sending], sent ∈ s.sendings ∨ sent = sending := by simp
    simp only [Option.toList_some]
    refine ⟨⟨⟨blocks ++ [held ++ added], [], ?_, next, ?_, ?_⟩, ?_, ?_⟩,
      fun hall => ⟨settings.mpr hall.1, ?_⟩⟩
    · rw [haccepted, List.flatten_append, List.flatten_singleton, List.append_nil,
        List.append_assoc]
    · rw [List.map_append, List.map_append, hpayloads, List.map_singleton, List.map_singleton,
        payload]
    · intro block hblock
      rcases List.mem_append.mp hblock with hold | hnew
      · exact hsevens block hold
      · rw [List.mem_singleton.mp hnew]
        exact seven
    · intro sent hmem d hd
      rcases hsent sent hmem with hold | rfl
      · exact h.datagram sent hold d hd
      · exact (datagram d hd).data
    · rw [number]
      exact h.numbered.add datagram
    · intro sent hmem
      rcases hsent sent hmem with hold | rfl
      · exact hall.2 sent hold
      · exact handed.mpr hall.1

theorem Inv.step (h : Inv first s) (e : Event) :
    ∃ s', OutputFrames.step dontSendScrambled s e = .ok s' ∧ Inv first s' ∧
      (KeepsOpen e → AllHanded s → AllHanded s') := by
  cases e with
  | packet p time =>
    obtain ⟨s', hstep, hinv, hall⟩ := h.packet p time
    exact ⟨s', hstep, hinv, fun _ => hall⟩
  | configure settings =>
    obtain ⟨blocks, held, haccepted, hcollects, hrest⟩ := h.collected
    exact ⟨_, rfl, ⟨⟨blocks, held, haccepted, ⟨hcollects.nbBytes, hcollects.room, hcollects.held⟩,
      hrest⟩, h.datagram, h.numbered⟩, fun hopen hall => ⟨hopen, hall.2⟩⟩

theorem Inv.run (h : Inv first s) (events : List Event) :
    ∃ s', runFrom dontSendScrambled s events = .ok s' ∧ Inv first s' ∧
      ((∀ e ∈ events, KeepsOpen e) → AllHanded s → AllHanded s') := by
  induction events generalizing s with
  | nil => exact ⟨s, rfl, h, fun _ hall => hall⟩
  | cons e events ih =>
    obtain ⟨s₁, hstep, hinv, hfirst⟩ := @Inv.step dontSendScrambled s first h e
    obtain ⟨s', hrun, hinv', hrest⟩ := ih hinv
    refine ⟨s', ?_, hinv', fun hopen hall => hrest (fun e' he' => hopen e' (.tail _ he'))
      (hfirst (hopen e (.head _)) hall)⟩
    rw [runFrom, List.foldlM_cons, hstep]
    exact hrun

theorem Inv.inOrder (h : Inv first s) :
    s.sendings.flatMap Sending.payload ++ buffered s.channel = bytes s.accepted := by
  obtain ⟨blocks, held, haccepted, hcollects, hpayloads, -⟩ := h.collected
  rw [haccepted, bytes_append, bytes_flatten, ← hpayloads, List.flatMap_def, buffered,
    hcollects.held]

/-- With a socket open throughout, the datagrams carry what the buffer was emptied of. -/
theorem payload_datagrams {sendings : List Sending}
    (hsome : ∀ sending ∈ sendings, sending.datagram.isSome)
    (hdatagram : ∀ sending ∈ sendings, ∀ d, sending.datagram = some d →
      ∃ header, header.length = headerLen d ∧ d.data = header ++ sending.payload) :
    (datagrams sendings).flatMap Datagram.payload = sendings.flatMap Sending.payload := by
  induction sendings with
  | nil => rfl
  | cons sending sendings ih =>
    obtain ⟨d, hd⟩ := Option.isSome_iff_exists.mp (hsome sending (.head _))
    obtain ⟨header, hlen, hdata⟩ := hdatagram sending (.head _) d hd
    have hpayload : d.payload = sending.payload := by
      rw [Datagram.payload, hdata, ← hlen, List.drop_left]
    rw [datagrams, List.filterMap_cons_some hd, List.flatMap_cons, List.flatMap_cons, hpayload,
      ← datagrams, ih (fun x hx => hsome x (.tail _ hx)) (fun x hx => hdatagram x (.tail _ hx))]

theorem Inv.sevens (h : Inv first s) {sending : Sending} (hsent : sending ∈ s.sendings) :
    ∃ packets : List Packet, packets.length = 7 ∧ packets <:+: s.accepted ∧
      sending.payload = bytes packets := by
  obtain ⟨blocks, held, haccepted, -, hpayloads, hsevens⟩ := h.collected
  have hmem : sending.payload ∈ blocks.map bytes := hpayloads ▸ List.mem_map_of_mem hsent
  obtain ⟨block, hblock, hpayload⟩ := List.mem_map.mp hmem
  obtain ⟨before, after, rfl⟩ := List.append_of_mem hblock
  refine ⟨block, hsevens block hblock, ⟨before.flatten, after.flatten ++ held, ?_⟩,
    hpayload.symm⟩
  rw [haccepted, List.flatten_append, List.flatten_cons]
  simp only [List.append_assoc]

end MuMuDVB.OutputFrames
