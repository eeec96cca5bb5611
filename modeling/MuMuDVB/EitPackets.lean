import MuMuDVB.EitSearch
import MuMuDVB.RecordedRun

/-!
# The packets of a stored EIT section

A receiver that takes the payloads of the packets one after the other gets the
section back, and stuffing. The continuity counter goes on from one section
and one call to the next.
-/
namespace MuMuDVB.EitPackets

open CheckedMemory RecordedRun MuMuDVB.TsHeader MuMuDVB.Ts MuMuDVB.Channel MuMuDVB.RewriteEit
  MuMuDVB.EitSearch

set_option maxRecDepth 20000

/-- What a packet carries after its header and, at a start, the pointer field. -/
def payload (p : Packet) : List UInt8 :=
  p.cells.drop (if payloadUnitStartIndicator p.cells then tsHeaderLen else tsHeaderLen - 1)

/-- The packets count up modulo 16 from `cc`. -/
def Counters (cc : Nat) (packets : List Packet) : Prop :=
  ∀ i p, packets[i]? = some p → continuityCounter p.cells = (cc + i) % 16

/-- `packets` carry `data`, a section (`first`) or what is left of one. -/
structure Carried (first : Bool) (data : List UInt8) (packets : List Packet) : Prop where
  syncByte : ∀ p ∈ packets, byteAt p.cells 0 = 0x47
  pid : ∀ p ∈ packets, TsHeader.pid p.cells = 18
  adaptationField : ∀ p ∈ packets, adaptationFieldControl p.cells = 1
  start : ∀ i p, packets[i]? = some p →
    (payloadUnitStartIndicator p.cells = true ↔ first = true ∧ i = 0)
  pointerField : ∀ p, first = true → packets[0]? = some p → byteAt p.cells 4 = 0
  payloads : ∃ n, n < tsPacketSize ∧
    (packets.map payload).flatten = data ++ List.replicate n 0xff

/-- The section in `full_eit_sections[i]`. -/
def sectionData (pkt : MumudvbTsPacket) : List UInt8 := pkt.dataFull.cells.take pkt.lenFull

/-- The bytes of the section that one packet takes. -/
def room (first : Bool) : Nat :=
  if first then tsPacketSize - tsHeaderLen else tsPacketSize - (tsHeaderLen - 1)

/-- What stands before the data in `send_buf`. -/
def header (first : Bool) (cc : Nat) : List UInt8 :=
  if first then [0x47, 0x40, 18, UInt8.ofNat (16 + cc % 16), 0x00]
  else [0x47, 0x00, 18, UInt8.ofNat (16 + cc % 16)]

variable {first : Bool} {cc c : Nat} {data : List UInt8} {packets : List Packet}

theorem length_header (first : Bool) (cc : Nat) :
    (header first cc).length + room first = tsPacketSize := by
  cases first <;> rfl

theorem cells_eitPacket (first : Bool) (cc : Nat) (data : List UInt8) :
    (eitPacket first cc (data.take (room first))).cells =
      header first cc ++ (data.take (room first) ++
        List.replicate (room first - data.length) 0xff) := by
  have hlen := length_header first cc
  have hcells : (eitPacket first cc (data.take (room first))).cells =
      (header first cc ++ data.take (room first) ++ List.replicate tsPacketSize 0xff).take
        tsPacketSize := by
    cases first <;> rfl
  rw [hcells, ← hlen, List.append_assoc, List.take_length_add_append, List.take_append,
    List.take_take, Nat.min_self, List.take_replicate, List.length_take]
  congr 3
  omega

theorem byteAt_eitPacket {i : Nat} (hi : i < tsHeaderLen - 1) :
    byteAt (eitPacket first cc (data.take (room first))).cells i = byteAt (header first cc) i := by
  rw [cells_eitPacket]
  refine byteAt_append_left ?_
  cases first <;> simp only [header, if_true, if_false, Bool.false_eq_true, List.length_cons,
    List.length_nil] <;> simp only [tsHeaderLen] at hi <;> omega

theorem header_start (first : Bool) (cc : Nat) :
    byteAt (header first cc) 1 = if first then 0x40 else 0x00 := by
  cases first <;> rfl

theorem header_pid (first : Bool) (cc : Nat) : byteAt (header first cc) 2 = 18 := by
  cases first <;> rfl

theorem header_counter (first : Bool) (cc : Nat) :
    byteAt (header first cc) 3 = UInt8.ofNat (16 + cc % 16) := by
  cases first <;> rfl

theorem counter_byte (cc : Nat) :
    (UInt8.ofNat (16 + cc % 16)).toNat / 16 % 4 = 1 ∧
      (UInt8.ofNat (16 + cc % 16)).toNat % 16 = cc % 16 := by
  rw [UInt8.toNat_ofNat']
  omega

theorem start_eitPacket :
    payloadUnitStartIndicator (eitPacket first cc (data.take (room first))).cells = first := by
  rw [payloadUnitStartIndicator, byteAt_eitPacket (by decide), header_start]
  cases first <;> decide

theorem payload_eitPacket :
    payload (eitPacket first cc (data.take (room first))) =
      data.take (room first) ++ List.replicate (room first - data.length) 0xff := by
  rw [payload, start_eitPacket, cells_eitPacket]
  cases first <;> rfl

/-- One packet in front of those that carry the rest. -/
theorem Carried.cons (h : Carried false (data.drop (room first)) packets)
    (hlast : data.length < room first → packets = []) :
    Carried first data (eitPacket first cc (data.take (room first)) :: packets) where
  syncByte := by
    refine List.forall_mem_cons.mpr ⟨?_, h.syncByte⟩
    rw [byteAt_eitPacket (by decide)]
    cases first <;> rfl
  pid := by
    refine List.forall_mem_cons.mpr ⟨?_, h.pid⟩
    rw [TsHeader.pid, byteAt_eitPacket (by decide), byteAt_eitPacket (by decide), header_start,
      header_pid]
    cases first <;> decide
  adaptationField := by
    refine List.forall_mem_cons.mpr ⟨?_, h.adaptationField⟩
    rw [adaptationFieldControl, byteAt_eitPacket (by decide), header_counter]
    exact (counter_byte cc).1
  start := by
    intro i p hp
    cases i with
    | zero =>
      cases hp
      rw [start_eitPacket]
      simp
    | succ i => simpa using h.start i p hp
  pointerField := by
    intro p hfirst hp
    subst hfirst
    cases hp
    rw [cells_eitPacket]
    rfl
  payloads := by
    rw [List.map_cons, List.flatten_cons, payload_eitPacket]
    by_cases hlen : data.length < room first
    · refine ⟨room first - data.length, ?_, ?_⟩
      · exact Nat.lt_of_le_of_lt (Nat.sub_le _ _) (by cases first <;> decide)
      · rw [hlast hlen, List.map_nil, List.flatten_nil, List.append_nil,
          List.take_of_length_le (Nat.le_of_lt hlen)]
    · obtain ⟨n, hn, hrest⟩ := h.payloads
      refine ⟨n, hn, ?_⟩
      rw [hrest, Nat.sub_eq_zero_of_le (by omega), List.replicate_zero, List.append_nil,
        ← List.append_assoc, List.take_append_drop]

theorem carried_nil (first : Bool) : Carried first [] [] :=
  ⟨by simp, by simp, by simp, by simp, by simp, 0, by decide, rfl⟩

theorem counters_cons {p : Packet} (hp : continuityCounter p.cells = cc % 16)
    (h : Counters ((cc + 1) % 16) packets) : Counters cc (p :: packets) := by
  intro i q hq
  cases i with
  | zero =>
    cases hq
    exact hp
  | succ i =>
    rw [h i q hq]
    omega

theorem counters_append {later : List Packet} (h : Counters cc packets)
    (hlater : Counters ((cc + packets.length) % 16) later) : Counters cc (packets ++ later) := by
  induction packets generalizing cc with
  | nil =>
    intro i q hq
    rw [hlater i q hq, List.length_nil]
    omega
  | cons p packets ih =>
    refine counters_cons (h 0 p rfl) (ih (fun i q hq => ?_) ?_)
    · rw [h (i + 1) q hq]
      omega
    · have hsum : ((cc + 1) % 16 + packets.length) % 16 = (cc + (p :: packets).length) % 16 := by
        rw [List.length_cons]
        omega
      rwa [hsum]

theorem room_pos (first : Bool) : 0 < room first := by
  cases first <;> decide

/-- The loop over what is left of a section. -/
theorem eitPackets_spec {fuel : Nat} (hfuel : data.length < fuel) (hcc : cc < 16) :
    ∃ packets, eitPackets fuel first cc data = .ok (packets, (cc + packets.length) % 16) ∧
      Carried first data packets ∧ Counters cc packets := by
  induction fuel generalizing first cc data with
  | zero => omega
  | succ fuel ih =>
    by_cases hdata : data = []
    · subst hdata
      refine ⟨[], ?_, carried_nil first, by simp [Counters]⟩
      rw [eitPackets, if_pos rfl, List.length_nil, Nat.add_zero, Nat.mod_eq_of_lt hcc]
    · have hroom := room_pos first
      have hpos := List.length_pos_iff.mpr hdata
      have hshorter : (data.drop (room first)).length < fuel := by
        rw [List.length_drop]
        omega
      have hnext : (cc + 1) % 16 < 16 := Nat.mod_lt _ (by decide)
      obtain ⟨later, hlater, hcarried, hcounters⟩ := @ih false _ _ hshorter hnext
      refine ⟨eitPacket first cc (data.take (room first)) :: later, ?_, ?_, ?_⟩
      · have hsum : ((cc + 1) % 16 + later.length) % 16 = (cc + (later.length + 1)) % 16 := by omega
        rw [eitPackets, if_neg hdata]
        simp only [room] at hlater
        simp only [hlater, bind_ok, pure_ok, List.length_cons, hsum, room]
      · refine hcarried.cons fun hlen => ?_
        rw [List.drop_of_length_le (Nat.le_of_lt hlen)] at hlater
        cases fuel with
        | zero => omega
        | succ fuel =>
          rw [eitPackets, if_pos rfl] at hlater
          exact (congrArg Prod.fst (Except.ok.inj hlater)).symm
      · refine counters_cons ?_ hcounters
        rw [continuityCounter, byteAt_eitPacket (by decide), header_counter]
        exact (counter_byte cc).2

/-- Every stored section has a length that a section can have. -/
structure WellStored (vars : RewriteParameters) : Prop where
  numbers : SectionNumbers vars
  lengths : ∀ eit ∈ vars.eitPackets, ∀ i pkt, storedAt eit i = some pkt →
    1 ≤ pkt.lenFull ∧ pkt.lenFull ≤ maxTsSize

/-- One section, whatever the counter stands at. -/
theorem sectionPackets_spec {pkt : MumudvbTsPacket} (hlen : pkt.lenFull ≤ maxTsSize)
    (hcc : cc < 16) :
    ∃ packets, (pkt.dataFull.slice 0 pkt.lenFull >>= eitPackets (maxTsSize + 1) true cc) =
        .ok (packets, (cc + packets.length) % 16) ∧
      Carried true (sectionData pkt) packets ∧ Counters cc packets := by
  rw [Buffer.slice_ok _ (by omega), List.drop_zero, bind_ok]
  refine eitPackets_spec (Nat.lt_succ_of_le ?_) hcc
  rw [List.length_take]
  exact Nat.le_trans (Nat.min_le_left _ _) hlen

/-- What is sent of a choice from the store, and the channel after it. -/
theorem eitSendChosen_spec {vars : RewriteParameters} {channel : MumudvbChannel} {a b k n : Nat}
    {chosen : Option (EitPacket × Nat)} (hvars : WellStored vars) (hcc : channel.eitCc < 16)
    (hselects : Selects vars channel.serviceId a k chosen b n) :
    ∃ packets, eitSendChosen channel b n chosen = .ok (packets, { channel with
        eitCc := (channel.eitCc + packets.length) % 16
        eitSectionToSend := n
        eitTableIdToSend := tableAt b }) ∧
      Counters channel.eitCc packets ∧
      ((chosen = none ∧ packets = []) ∨ ∃ eit i pkt, chosen = some (eit, i) ∧
        storedAt eit i = some pkt ∧ Carried true (sectionData pkt) packets) := by
  have hmod : (channel.eitCc + 0) % 16 = channel.eitCc := Nat.mod_eq_of_lt hcc
  cases hselects with
  | noTable =>
    exact ⟨[], by rw [List.length_nil, hmod]; rfl, by simp [Counters], .inl ⟨rfl, rfl⟩⟩
  | noSection =>
    exact ⟨[], by rw [List.length_nil, hmod]; rfl, by simp [Counters], .inl ⟨rfl, rfl⟩⟩
  | stored round table before number within stored missing =>
    rename_i m l i eit
    obtain ⟨pkt, hpkt⟩ := Option.ne_none_iff_exists'.mp stored
    obtain ⟨-, hlen⟩ := hvars.lengths eit (usable_mem table) i pkt hpkt
    obtain ⟨packets, hpackets, hcarried, hcounters⟩ := sectionPackets_spec hlen hcc
    obtain ⟨data, hdata, hpackets⟩ := bind_eq_ok.mp hpackets
    refine ⟨packets, ?_, hcounters, .inr ⟨eit, i, pkt, rfl, hpkt, hcarried⟩⟩
    rw [eitSendChosen, hpkt]
    dsimp only [Option.getD_some]
    rw [hdata, bind_ok, hpackets]
    rfl

/-- A channel, and all the packets sent to it. -/
structure Sent where
  channel : MumudvbChannel
  packets : List Packet

inductive Event where
  /-- a call with what is stored then -/
  | call (vars : RewriteParameters) (buf : Packet)
  /-- everything else that happens to the channel -/
  | other (channel : MumudvbChannel)

/-- The calls for one channel. Between two of them anything of it may change but the counter,
which belongs to the sender. -/
def sending (cc : Nat) : System Sent Event where
  Initial s := s.channel.eitCc = cc ∧ s.packets = []
  Step s e s' :=
    match e with
    | .call vars buf => WellStored vars ∧ ∃ packets channel,
        eitRewriteNewChannelPacket vars s.channel buf = .ok (packets, channel) ∧
        s' = ⟨channel, s.packets ++ packets⟩
    | .other channel => channel.eitCc = s.channel.eitCc ∧ s' = ⟨channel, s.packets⟩

theorem eitRewriteNewChannelPacket_sends {vars : RewriteParameters} {channel : MumudvbChannel}
    (buf : Packet) (hvars : WellStored vars) (hcc : channel.eitCc < 16) :
    ∃ packets channel', eitRewriteNewChannelPacket vars channel buf = .ok (packets, channel') ∧
      channel'.eitCc = (channel.eitCc + packets.length) % 16 ∧ Counters channel.eitCc packets ∧
      (packets = [] ∨ ∃ eit ∈ vars.eitPackets, (eit.serviceId : Int) = channel.serviceId ∧
        ∃ i pkt, storedAt eit i = some pkt ∧ Carried true (sectionData pkt) packets) := by
  by_cases hcall : channel.channelReady.isReady ∧ payloadUnitStartIndicator buf.cells
  · obtain ⟨chosen, b, n, hselects, -, hsend⟩ :=
      eitRewriteNewChannelPacket_selects hvars.numbers hcall.1 hcall.2
    obtain ⟨packets, hpackets, hcounters, hsent⟩ := eitSendChosen_spec hvars hcc hselects
    refine ⟨packets, _, hsend.trans hpackets, rfl, hcounters, ?_⟩
    rcases hsent with ⟨-, hnone⟩ | ⟨eit, i, pkt, rfl, hpkt, hcarried⟩
    · exact .inl hnone
    · obtain ⟨heit, hservice⟩ := hselects.of_service
      exact .inr ⟨eit, heit, hservice, i, pkt, hpkt, hcarried⟩
  · refine ⟨[], channel, if_neg hcall, (Nat.mod_eq_of_lt hcc).symm, by simp [Counters], .inl rfl⟩

theorem sending_counters {past : List Event} {s : Sent} (hcc : cc < 16)
    (hrun : Run (sending cc) past s) :
    s.channel.eitCc = (cc + s.packets.length) % 16 ∧ Counters cc s.packets := by
  refine hrun.invariant (P := fun _ s => s.channel.eitCc = (cc + s.packets.length) % 16 ∧
    Counters cc s.packets) ?_ ?_
  · rintro s ⟨hinit, hnone⟩
    rw [hnone, hinit]
    exact ⟨(Nat.mod_eq_of_lt hcc).symm, by simp [Counters]⟩
  rintro past s e s' ⟨hcounter, hcounters⟩ hstep
  have hlt : s.channel.eitCc < 16 := by
    rw [hcounter]
    exact Nat.mod_lt _ (by decide)
  cases e with
  | call vars buf =>
    obtain ⟨hvars, packets, channel, hcall, rfl⟩ := hstep
    obtain ⟨packets', channel', hcall', hafter, hmore, -⟩ :=
      eitRewriteNewChannelPacket_sends buf hvars hlt
    rw [hcall] at hcall'
    cases hcall'
    rw [hcounter] at hmore
    refine ⟨?_, counters_append hcounters hmore⟩
    rw [hafter, hcounter, List.length_append]
    omega
  | other channel =>
    obtain ⟨hsame, rfl⟩ := hstep
    exact ⟨hsame.trans hcounter, hcounters⟩

/-- A section of 200 bytes: two packets. -/
def twoPackets : MumudvbTsPacket := { zeroed with lenFull := 200 }

/-- A table with this one section. -/
def oneTable (serviceId : Nat) (tableId : UInt8) : EitPacket where
  serviceId := serviceId
  tableId := tableId
  lastSectionNumber := 0
  sections := ⟨some twoPackets :: List.replicate 255 none, by rw [List.length_cons,
    List.length_replicate]⟩
  fullEitOk := true

def readyChannel : MumudvbChannel := { zeroedChannel with channelReady := .ready, eitCc := 15 }

/-- A packet with the start indicator set. -/
def startPacket : Packet :=
  ⟨setPayloadUnitStart zeroPacket.cells, by rw [setPayloadUnitStart, List.length_set,
    zeroPacket.size]⟩

theorem startPacket_starts : payloadUnitStartIndicator startPacket.cells = true := by
  decide

def oneStored (serviceId : Nat) (tableId : UInt8) : RewriteParameters :=
  { initRewrV with eitPackets := [oneTable serviceId tableId] }

theorem storedAt_oneTable {serviceId i : Nat} {tableId : UInt8} {pkt : MumudvbTsPacket}
    (h : storedAt (oneTable serviceId tableId) i = some pkt) : i = 0 ∧ pkt = twoPackets := by
  cases i with
  | zero =>
    cases h
    exact ⟨rfl, rfl⟩
  | succ i =>
    rw [storedAt, oneTable, List.getElem?_cons_succ, List.getElem?_replicate] at h
    split at h <;> cases h

theorem oneStored_wellStored (serviceId : Nat) (tableId : UInt8) :
    WellStored (oneStored serviceId tableId) where
  numbers eit heit := by
    rw [List.mem_singleton.mp heit]
    exact Nat.succ_pos _
  lengths eit heit i pkt hpkt := by
    rw [List.mem_singleton.mp heit] at hpkt
    obtain ⟨-, rfl⟩ := storedAt_oneTable hpkt
    decide

end MuMuDVB.EitPackets
