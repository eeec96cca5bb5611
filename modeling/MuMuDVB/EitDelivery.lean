import MuMuDVB.EitStore
import MuMuDVB.StartedFrames
import MuMuDVB.TsOpaque
import MuMuDVB.TsReassembly

/-!
# From the received EIT to the sorted EIT of a channel

The store and the sender of one channel run side by side: packets of the EIT are
stored, and in between the sender is called. What it has sent is a stream in
which a receiver finds the sections that were chosen, each once and in order.
-/
namespace MuMuDVB.EitDelivery

open CheckedMemory RecordedRun StartedFrames MuMuDVB.TsHeader MuMuDVB.Ts MuMuDVB.TsAssembler
  MuMuDVB.TsBegin MuMuDVB.TsOpaque MuMuDVB.TsReassembly MuMuDVB.Channel MuMuDVB.RewriteEit
  MuMuDVB.EitSearch MuMuDVB.EitStore

set_option maxRecDepth 20000

/-- The length of a section, once its first three bytes are there. -/
def sectionBytes (xs : List UInt8) : Option Nat :=
  if xs.length < 3 then none else some (sectionSize xs)

/-- A packet as a receiver of one PID takes it. -/
def frame (p : Packet) : Frame UInt8 where
  starts := payloadUnitStartIndicator p.cells
  bytes := EitPackets.payload p

/-- The sections in a stream of packets. -/
def received (packets : List Packet) : List (List UInt8) :=
  collect sectionBytes none (packets.map frame)

/-- What the sender sees of the store. -/
def offered (vars : RewriteParameters) (store : EitVars) : RewriteParameters :=
  { vars with eitPackets := store.eitPackets.map EitNode.view }

/-- The section that a call chooses, and the service that it is sent for. -/
def chosenSection (vars : RewriteParameters) (channel : MumudvbChannel) (buf : Packet) :
    List (Int × List UInt8) :=
  if channel.channelReady.isReady ∧ payloadUnitStartIndicator buf.cells then
    match eitChosen vars channel with
    | .ok (some (eit, i)) =>
      ((storedAt eit i).map fun pkt => (channel.serviceId, EitPackets.sectionData pkt)).toList
    | _ => []
  else []

structure Delivery where
  store : EitVars
  channel : MumudvbChannel
  /-- all that was sent to the channel -/
  packets : List Packet
  /-- all that the calls have chosen -/
  chosen : List (Int × List UInt8)

inductive Event where
  /-- `eit_rewrite_new_global_packet` -/
  | received (calloc : Nat → Callocs) (mem : TableMemory)
  /-- `eit_rewrite_new_channel_packet` -/
  | call (buf : Packet)
  /-- everything else that happens to the channel -/
  | other (channel : MumudvbChannel)

/-- The store and the sender of one channel, in any order. Only the sender writes the counter. -/
def delivering (vars : RewriteParameters) : System Delivery Event where
  Initial s := (∃ eitNeedsUpdate, s.store = emptyStore eitNeedsUpdate) ∧ s.channel.eitCc = 0 ∧
    s.packets = [] ∧ s.chosen = []
  Step s e s' :=
    match e with
    | .received calloc mem => ∃ store, eitRewriteNewGlobalPacket calloc mem s.store = .ok store ∧
        s' = { s with store := store }
    | .call buf => ∃ packets channel,
        eitRewriteNewChannelPacket (offered vars s.store) s.channel buf = .ok (packets, channel) ∧
        s' = { s with
          channel := channel
          packets := s.packets ++ packets
          chosen := s.chosen ++ chosenSection (offered vars s.store) s.channel buf }
    | .other channel => channel.eitCc = s.channel.eitCc ∧ s' = { s with channel := channel }

/-- A section of the EIT of a service. -/
structure EitSection (serviceId : Int) (data : List UInt8) : Prop where
  isSection : IsSection data
  currentNext : currentNextIndicator data = 1
  tableId : ∃ t, tableId data = tableAt t
  serviceId : (eitServiceId data : Int) = serviceId

section sections

variable {data : List UInt8} {node : EitNode} {pkt : MumudvbTsPacket} {i t : Nat}

theorem tableAt_ne (t : Nat) {b : UInt8} (h : (List.range 17).all (tableAt · != b) = true) :
    tableAt t ≠ b := by
  have := List.all_eq_true.mp h (t % 17) (List.mem_range.mpr (Nat.mod_lt _ (by decide)))
  rw [tableAt_mod] at this
  exact bne_iff_ne.mp this

/-- The last four bytes of a section with remainder zero are the register of those before. -/
theorem crc_last {front last : List UInt8} (hlast : last.length = 4)
    (h : crc32 (front ++ last) = 0) :
    last = TableCrc.bytes (TableCrc.remainder crc32Word (BitVec.allOnes 32) front) := by
  rw [crc32, TableCrc.remainder_append] at h
  obtain ⟨-, hbytes⟩ := TableCrc.remainder_eq_zero crc32Word_zero crc32Word_low
    (Nat.le_of_eq hlast) h
  rw [hlast] at hbytes
  exact hbytes

/-- The section that begins with `front` and has nothing but its CRC behind it. -/
def onlyCrc (front : List UInt8) : List UInt8 :=
  front ++ TableCrc.bytes (TableCrc.remainder crc32Word (BitVec.allOnes 32) front)

theorem eq_onlyCrc {n : Nat} (hcrc : crc32 data = 0) (hn : data.length = n + 4) :
    data = onlyCrc (data.take n) := by
  have hlast : (data.drop n).length = 4 := by
    rw [List.length_drop]
    omega
  have hsplit : data.take n ++ data.drop n = data := List.take_append_drop n data
  rw [onlyCrc, ← crc_last hlast (by rw [hsplit]; exact hcrc), hsplit]

/-- No section of the EIT has one byte before its CRC. -/
theorem oneByte_ne (t : Nat) : sectionSize (onlyCrc [tableAt t]) ≠ 5 := by
  have hall : (List.range 17).all (fun t => sectionSize (onlyCrc [tableAt t]) != 5) = true := by
    decide +kernel
  have := List.all_eq_true.mp hall (t % 17) (List.mem_range.mpr (Nat.mod_lt _ (by decide)))
  rw [tableAt_mod] at this
  exact bne_iff_ne.mp this

/-- Those with two bytes before it are not applicable yet. -/
theorem twoBytes_ne (t k : Nat) (hk : k < 16)
    (hsize : sectionSize (onlyCrc [tableAt t, UInt8.ofNat (16 * k)]) = 6) :
    currentNextIndicator (onlyCrc [tableAt t, UInt8.ofNat (16 * k)]) ≠ 1 := by
  have hall : (List.range 17).all (fun t => (List.range 16).all fun k =>
      sectionSize (onlyCrc [tableAt t, UInt8.ofNat (16 * k)]) != 6 ||
        currentNextIndicator (onlyCrc [tableAt t, UInt8.ofNat (16 * k)]) != 1) = true := by
    decide +kernel
  have ht := List.all_eq_true.mp hall (t % 17) (List.mem_range.mpr (Nat.mod_lt _ (by decide)))
  have := List.all_eq_true.mp ht k (List.mem_range.mpr hk)
  rw [tableAt_mod, hsize] at this
  simpa using this

theorem take_two {b c : UInt8} {n : Nat} (hb : byteAt data 0 = b) (hc : byteAt data 1 = c)
    (hn : n + 2 ≤ data.length) : data.take 2 = [b, c] := by
  match data, hb, hc with
  | x :: y :: rest, rfl, rfl => rfl

/-- No section of the EIT is so short that all of it but two bytes is the CRC: the two that are
could not be applicable yet. -/
theorem seven_le_length (hcrc : crc32 data = 0) (hlen : data.length = sectionSize data)
    (ht : tableId data = tableAt t) (hcurrent : data.length = 6 → currentNextIndicator data = 1) :
    7 ≤ data.length := by
  have hthree := three_le_sectionSize data
  by_contra hshort
  have hcases : data.length = 3 ∨ data.length = 4 ∨ data.length = 5 ∨ data.length = 6 := by omega
  rcases hcases with h | h | h | h
  · obtain ⟨hshift, -⟩ := TableCrc.remainder_eq_zero crc32Word_zero crc32Word_low (by omega) hcrc
    rw [h] at hshift
    exact absurd hshift (by decide)
  · have hones := eq_onlyCrc (n := 0) hcrc (by omega)
    have hff : tableId (onlyCrc []) = 0xff := by decide +kernel
    rw [List.take_zero] at hones
    rw [← hones, ht] at hff
    exact tableAt_ne t (by decide) hff
  · have hone := eq_onlyCrc (n := 1) hcrc (by omega)
    have hfirst : data.take 1 = [tableAt t] := by
      match data, ht with
      | x :: rest, rfl => rfl
    rw [hfirst] at hone
    refine oneByte_ne t ?_
    rw [← hone, ← hlen, h]
  · have htwo := eq_onlyCrc (n := 2) hcrc (by omega)
    have hnibble : (byteAt data 1).toNat % 16 = 0 := by
      rw [h, sectionSize, sectionLength, hilo] at hlen
      simp only [bytesBfrSecLen] at hlen
      omega
    have hsecond : byteAt data 1 = UInt8.ofNat (16 * ((byteAt data 1).toNat / 16)) := by
      rw [show 16 * ((byteAt data 1).toNat / 16) = (byteAt data 1).toNat by omega,
        UInt8.ofNat_toNat]
    rw [take_two ht hsecond (Nat.le_of_eq h.symm)] at htwo
    have hlt := (byteAt data 1).toNat_lt
    refine twoBytes_ne t ((byteAt data 1).toNat / 16) (by omega) ?_ ?_
    · rw [← htwo, ← hlen, h]
    · rw [← htwo]
      exact hcurrent h

/-- What the store holds of a table that the sender looks for. -/
theorem holdsSection_eit (h : HoldsSection node i pkt) (ht : node.tableId = tableAt t) :
    EitSection node.serviceId (EitPackets.sectionData pkt) := by
  have hthree := three_le_sectionSize pkt.dataFull.cells
  have hmax := h.atMost
  have hlenFull := h.length
  have hlength : (EitPackets.sectionData pkt).length = pkt.lenFull := by
    rw [EitPackets.sectionData, List.length_take, pkt.dataFull.length_cells]
    exact Nat.min_eq_left hmax
  have hsize : (EitPackets.sectionData pkt).length = sectionSize (EitPackets.sectionData pkt) := by
    rw [hlength, EitPackets.sectionData, sectionSize_take (by omega), hlenFull]
  have hfirst : tableId (EitPackets.sectionData pkt) = tableAt t := by
    rw [← ht, ← h.tableId]
    exact byteAt_take (by omega)
  have hnext : ∀ {n}, n ≤ pkt.lenFull → 6 ≤ n →
      currentNextIndicator (EitPackets.sectionData pkt) = 1 := by
    intro n hn hsix
    rw [currentNextIndicator, EitPackets.sectionData, byteAt_take (by omega)]
    exact h.currentNext
  have hseven := seven_le_length h.crc hsize hfirst fun hsix =>
    hnext (n := 6) (by omega) (Nat.le_refl _)
  refine ⟨⟨?_, hsize, hseven, ?_, h.crc⟩, hnext (n := 7) (by omega) (by decide), ⟨t, hfirst⟩, ?_⟩
  · rw [hfirst]
    exact tableAt_ne t (by decide)
  · rw [hlength]
    exact hmax
  · rw [eitServiceId, EitPackets.sectionData, byteAt_take (by omega), byteAt_take (by omega)]
    exact congrArg Nat.cast h.serviceId

end sections

section stream

variable {first : Bool} {cc : Nat} {data : List UInt8} {packets later : List Packet}

theorem isSection_tellsLength (h : IsSection data) : TellsLength sectionBytes data where
  early xs n hprefix hn := by
    rw [sectionBytes] at hn
    split at hn
    · cases hn
    next hlen =>
      obtain ⟨more, rfl⟩ := hprefix
      rw [h.length, sectionSize_append (by omega)]
      exact (Option.some.inj hn).symm
  whole more := by
    have := h.atLeast
    rw [sectionBytes, if_neg (by rw [List.length_append]; omega), sectionSize_append (by omega),
      h.length]

/-- The packets of a section are frames that carry it. -/
theorem carried_carries (h : EitPackets.Carried true data packets) (hne : packets ≠ []) :
    StartedFrames.Carries data (packets.map frame) where
  first := by
    obtain ⟨p, rest, rfl⟩ := List.exists_cons_of_ne_nil hne
    exact ⟨frame p, rfl, (h.start 0 p rfl).mpr ⟨rfl, rfl⟩⟩
  others := by
    obtain ⟨p, rest, rfl⟩ := List.exists_cons_of_ne_nil hne
    intro f hf
    obtain ⟨q, hq, rfl⟩ := List.mem_map.mp hf
    obtain ⟨i, hi⟩ := List.mem_iff_getElem?.mp hq
    have hstart := h.start (i + 1) q hi
    exact Bool.eq_false_iff.mpr fun hq => absurd (hstart.mp hq).2 (Nat.succ_ne_zero i)
  bytes := by
    obtain ⟨n, -, hbytes⟩ := h.payloads
    exact ⟨_, by rw [← hbytes, List.map_map]; rfl⟩

theorem Packetised.append {pid : Nat} {rest : List UInt8} {todo todo' : List (List UInt8)}
    (h : Packetised pid cc rest todo packets) (hcc : cc < 16)
    (hlater : Packetised pid ((cc + packets.length) % 16) [] todo' later) :
    Packetised pid cc rest (todo ++ todo') (packets ++ later) := by
  induction h with
  | done cc =>
    rw [List.length_nil, Nat.add_zero, Nat.mod_eq_of_lt hcc] at hlater
    exact hlater
  | @packet cc rest starts todo p packets carries _ ih =>
    rw [List.append_assoc, List.cons_append]
    refine .packet carries (ih (Nat.mod_lt _ (by decide)) ?_)
    rw [List.length_cons] at hlater
    rwa [Nat.mod_add_mod, show cc + 1 + packets.length = cc + (packets.length + 1) by omega]

/-- The end of a section, and the section that starts, in a packet of the sender. -/
def endOf (first : Bool) (data : List UInt8) : List UInt8 := if first then [] else data
def startOf (first : Bool) (data : List UInt8) : List (List UInt8) := if first then [data] else []

theorem room_startOf (first : Bool) (data : List UInt8) :
    TsReassembly.room (startOf first data) = EitPackets.room first := by
  cases first <;> rfl

theorem endOf_startOf (first : Bool) (data : List UInt8) :
    endOf first data ++ (startOf first data).flatten = data := by
  cases first
  · exact List.append_nil data
  · exact List.append_nil data

theorem eitPacket_carries (hcc : cc < 16)
    (hpes : ¬ IsPes (eitPacket first cc (data.take (EitPackets.room first)))) :
    TsReassembly.Carries (eitPacket first cc (data.take (EitPackets.room first))) 18 cc
      (endOf first data) (startOf first data) where
  startIndicator := by
    rw [EitPackets.start_eitPacket]
    cases first <;> simp [startOf]
  pid := by
    rw [TsHeader.pid, EitPackets.byteAt_eitPacket (by decide),
      EitPackets.byteAt_eitPacket (by decide), EitPackets.header_start, EitPackets.header_pid]
    cases first <;> decide
  adaptationField := by
    rw [adaptationFieldControl, EitPackets.byteAt_eitPacket (by decide), EitPackets.header_counter]
    exact (EitPackets.counter_byte cc).1
  counter := by
    rw [continuityCounter, EitPackets.byteAt_eitPacket (by decide), EitPackets.header_counter,
      (EitPackets.counter_byte cc).2, Nat.mod_eq_of_lt hcc]
  payload := by
    rw [EitPackets.cells_eitPacket, room_startOf, endOf_startOf, pad]
    cases first <;> rfl
  startsFit := by
    cases first <;> simp [startOf, endOf]
  noPes := hpes
  completions := by
    have hrest : (if endOf first data = [] then 0 else 1) ≤ 1 := by split <;> decide
    have hstarts : (startOf first data).length ≤ 1 := by cases first <;> simp [startOf]
    rw [completions]
    omega

/-- What the loop over a section sends is the section in packets. -/
theorem eitPackets_packetised {fuel last : Nat} (hcc : cc < 16) (hdata : first = true → data ≠ [])
    (h : eitPackets fuel first cc data = .ok (packets, last)) (hpes : ∀ p ∈ packets, ¬ IsPes p) :
    Packetised 18 cc (endOf first data) (startOf first data) packets := by
  induction fuel generalizing first cc data packets with
  | zero => cases h
  | succ fuel ih =>
    rw [eitPackets] at h
    split at h
    case isTrue hnil =>
      cases h
      cases first with
      | false =>
        rw [hnil]
        exact .done _
      | true => exact absurd hnil (hdata rfl)
    case isFalse =>
      obtain ⟨⟨later, last'⟩, hlater, heq⟩ := bind_eq_ok.mp h
      cases heq
      have hroom : (if first = true then tsPacketSize - tsHeaderLen
          else tsPacketSize - (tsHeaderLen - 1)) = EitPackets.room first := rfl
      rw [hroom] at hlater hpes ⊢
      have hrest := ih (Nat.mod_lt _ (by decide)) (fun h => absurd h (by decide)) hlater
        fun p hp => hpes p (List.mem_cons_of_mem _ hp)
      have hleft : leftOver (endOf first data) (startOf first data) =
          endOf false (data.drop (EitPackets.room first)) := by
        rw [leftOver, endOf_startOf, room_startOf]
        rfl
      have hnext := Packetised.packet (eitPacket_carries hcc (hpes _ List.mem_cons_self))
        (hleft ▸ hrest)
      rwa [show startOf false (data.drop (EitPackets.room first)) = [] from rfl,
        List.append_nil] at hnext

end stream

section calls

variable {vars : RewriteParameters} {store : EitVars} {serviceId : Int} {eit : EitPacket}
  {a n i b k : Nat} {channel : MumudvbChannel} {buf : Packet}

theorem offered_wellStored (hinv : EitInvariant store) :
    EitPackets.WellStored (offered vars store) :=
  hinv.wellStored vars

/-- What the sender chooses from the store is a section of the EIT of the service. -/
theorem chosen_eitSection (hinv : EitInvariant store)
    (hselects : Selects (offered vars store) serviceId a n (some (eit, i)) b k) :
    ∃ pkt, storedAt eit i = some pkt ∧ pkt.lenFull ≤ maxTsSize ∧
      EitSection serviceId (EitPackets.sectionData pkt) := by
  cases hselects with
  | stored round table before number within stored missing =>
    obtain ⟨pkt, hpkt⟩ := Option.ne_none_iff_exists'.mp stored
    obtain ⟨node, hnode, rfl⟩ := List.mem_map.mp (usable_mem table)
    obtain ⟨hservice, htable⟩ := usable_matches table
    obtain ⟨hmarked, hfull⟩ := storedAt_view hpkt
    obtain ⟨pkt', hpkt', hholds⟩ := (hinv.nodes node hnode).stored i hmarked
    rw [hfull] at hpkt'
    cases hpkt'
    have hsection := holdsSection_eit hholds htable
    exact ⟨pkt, hpkt, hholds.atMost, hservice ▸ hsection⟩

/-- What one call sends: nothing, or the section that it chose. -/
inductive Sends (cc : Nat) (serviceId : Int) : List (Int × List UInt8) → List Packet → Prop where
  | nothing : Sends cc serviceId [] []
  | chosen {data : List UInt8} {packets : List Packet} (isEit : EitSection serviceId data)
      (carried : StartedFrames.Carries data (packets.map frame))
      (packetised : (∀ p ∈ packets, ¬ IsPes p) → Packetised 18 cc [] [data] packets) :
      Sends cc serviceId [(serviceId, data)] packets

theorem call_sends (hinv : EitInvariant store) (hcc : channel.eitCc < 16) :
    ∃ packets channel',
      eitRewriteNewChannelPacket (offered vars store) channel buf = .ok (packets, channel') ∧
      channel'.eitCc = (channel.eitCc + packets.length) % 16 ∧
      Sends channel.eitCc channel.serviceId (chosenSection (offered vars store) channel buf)
        packets := by
  by_cases hcall : channel.channelReady.isReady ∧ payloadUnitStartIndicator buf.cells
  · obtain ⟨chosen, b, n, hselects, hchosen, hsend⟩ :=
      eitRewriteNewChannelPacket_selects (offered_wellStored hinv).numbers hcall.1 hcall.2
    rw [hsend, chosenSection, if_pos hcall, hchosen]
    cases chosen with
    | none => exact ⟨[], _, rfl, (Nat.mod_eq_of_lt hcc).symm, .nothing⟩
    | some place =>
      obtain ⟨eit, i⟩ := place
      obtain ⟨pkt, hpkt, hmax, hsection⟩ := chosen_eitSection hinv hselects
      obtain ⟨packets, hpackets, hcarried, -⟩ := EitPackets.sectionPackets_spec hmax hcc
      have hslice : pkt.dataFull.slice 0 pkt.lenFull = .ok (EitPackets.sectionData pkt) :=
        Buffer.slice_ok _ (by omega)
      rw [hslice, bind_ok] at hpackets
      have hdata : EitPackets.sectionData pkt ≠ [] := by
        have := hsection.isSection.atLeast
        exact List.ne_nil_of_length_pos (by omega)
      have hne : packets ≠ [] := by
        rintro rfl
        obtain ⟨n, -, hbytes⟩ := hcarried.payloads
        exact hdata (List.append_eq_nil_iff.mp hbytes.symm).1
      refine ⟨packets, { channel with
        eitCc := (channel.eitCc + packets.length) % 16
        eitSectionToSend := n
        eitTableIdToSend := tableAt b }, ?_, rfl, ?_⟩
      · rw [eitSendChosen, hpkt]
        dsimp only [Option.getD_some]
        rw [hslice, bind_ok, hpackets]
        rfl
      · dsimp only
        rw [hpkt]
        exact .chosen hsection (carried_carries hcarried hne)
          (eitPackets_packetised hcc (fun _ => hdata) hpackets)
  · refine ⟨[], channel, if_neg hcall, (Nat.mod_eq_of_lt hcc).symm, ?_⟩
    rw [chosenSection, if_neg hcall]
    exact .nothing

/-- What holds after any run: the store is sound, the counter is that of the next packet, and the
packets so far are received as what was chosen. -/
structure Delivered (s : Delivery) : Prop where
  store : EitInvariant s.store
  counter : s.channel.eitCc = s.packets.length % 16
  sections : ∀ chosen ∈ s.chosen, EitSection chosen.1 chosen.2
  frames : ∀ later, collect sectionBytes none (s.packets.map frame ++ later) =
    s.chosen.map Prod.snd ++ collect sectionBytes none later
  packetised : (∀ p ∈ s.packets, ¬ IsPes p) →
    Packetised 18 0 [] (s.chosen.map Prod.snd) s.packets

theorem Delivered.initial {s : Delivery} (h : (delivering vars).Initial s) : Delivered s := by
  obtain ⟨⟨eitNeedsUpdate, hstore⟩, hcounter, hpackets, hchosen⟩ := h
  refine ⟨?_, ?_, ?_, ?_, ?_⟩
  · rw [hstore]
    exact emptyStore_invariant eitNeedsUpdate
  · rw [hcounter, hpackets]
    rfl
  · rw [hchosen]
    simp
  · intro later
    rw [hpackets, hchosen]
    rfl
  · rw [hpackets, hchosen]
    exact fun _ => .done 0

theorem Delivered.sent {s : Delivery} (h : Delivered s) {packets : List Packet}
    {chosen : List (Int × List UInt8)} {channel' : MumudvbChannel}
    (hsends : Sends s.channel.eitCc serviceId chosen packets)
    (hcounter : channel'.eitCc = (s.channel.eitCc + packets.length) % 16) :
    Delivered { s with
      channel := channel'
      packets := s.packets ++ packets
      chosen := s.chosen ++ chosen } := by
  have hcc : channel'.eitCc = (s.packets ++ packets).length % 16 := by
    rw [hcounter, h.counter, List.length_append]
    omega
  cases hsends with
  | nothing =>
    rw [List.append_nil, List.append_nil] at *
    exact ⟨h.store, hcc, h.sections, h.frames, h.packetised⟩
  | @chosen data packets isEit carried packetised =>
    refine ⟨h.store, hcc, ?_, fun later => ?_, fun hpes => ?_⟩
    · refine List.forall_mem_append.mpr ⟨h.sections, ?_⟩
      simpa using isEit
    · rw [List.map_append, List.append_assoc, h.frames, List.map_append,
        collect_carries (isSection_tellsLength isEit.isSection) carried none, List.append_assoc]
      rfl
    · rw [List.map_append]
      have hbefore := h.packetised fun p hp => hpes p (List.mem_append_left _ hp)
      have hafter := packetised fun p hp => hpes p (List.mem_append_right _ hp)
      refine Packetised.append hbefore (by decide) ?_
      rw [Nat.zero_add, ← h.counter]
      exact hafter

theorem delivering_delivered {past : List Event} {s : Delivery}
    (hrun : Run (delivering vars) past s) : Delivered s := by
  refine hrun.invariant (P := fun _ s => Delivered s) (fun s h => .initial h) ?_
  rintro past s e s' h hstep
  cases e with
  | received calloc mem =>
    obtain ⟨store, hstore, rfl⟩ := hstep
    obtain ⟨store', hstore', hinv⟩ := eitRewriteNewGlobalPacket_invariant calloc mem h.store
    rw [hstore] at hstore'
    cases hstore'
    exact ⟨hinv, h.counter, h.sections, h.frames, h.packetised⟩
  | call buf =>
    obtain ⟨packets, channel, hcall, rfl⟩ := hstep
    have hcc : s.channel.eitCc < 16 := by
      rw [h.counter]
      exact Nat.mod_lt _ (by decide)
    obtain ⟨packets', channel', hcall', hcounter, hsends⟩ := call_sends h.store hcc
    rw [hcall] at hcall'
    cases hcall'
    exact h.sent hsends hcounter
  | other channel =>
    obtain ⟨hcounter, rfl⟩ := hstep
    exact ⟨h.store, hcounter.trans h.counter, h.sections, h.frames, h.packetised⟩

end calls

/-- Whatever is received and whenever the sender is called, what was sent to the channel is received
as the sections that were chosen, each once and in order, and each of them is a section of the EIT
of the service it was chosen for. The program's own assembler hands out the same when no packet
looks like the start of a PES packet. -/
theorem delivering_received {vars : RewriteParameters} {past : List Event} {s : Delivery}
    (hrun : Run (delivering vars) past s) :
    received s.packets = s.chosen.map Prod.snd ∧
      (∀ chosen ∈ s.chosen, EitSection chosen.1 chosen.2) ∧
      ((∀ p ∈ s.packets, ¬ IsPes p) →
        ∃ pkt, takeStream s.packets zeroed = .ok (s.chosen.map Prod.snd, pkt)) := by
  have h := delivering_delivered hrun
  refine ⟨?_, h.sections, fun hpes => ?_⟩
  · have hframes := h.frames []
    rwa [List.append_nil, collect, List.append_nil] at hframes
  · refine takeStream_zeroed (fun data hdata => ?_) (h.packetised hpes)
    obtain ⟨chosen, hchosen, rfl⟩ := List.mem_map.mp hdata
    exact (h.sections chosen hchosen).isSection

/-- A section of the present and following events of service 1, without events. -/
def presentSection : List UInt8 :=
  [0x4e, 0xf0, 0x0f, 0x00, 0x01, 0xc1, 0x00, 0x00, 0x00, 0x01, 0x00, 0x01, 0x00, 0x4e, 0x1e, 0x22,
    0xbd, 0x88]

/-- A packet that carries it, with a byte of the counter. -/
def presentPacket (counter : UInt8) : TableMemory :=
  ⟨[0x47, 0x40, 18, counter, 0x00] ++ pad 183 presentSection ++ List.replicate 8 0, by simp⟩

def enough : Nat → Callocs := fun _ => ⟨true, true⟩

def serviceOne : MumudvbChannel := { zeroedChannel with channelReady := .ready, serviceId := 1 }

/-- What a call chooses after the packet has come twice. -/
def chosenAfter : List (Int × List UInt8) :=
  match eitStorePackets [(presentPacket 0x13, enough), (presentPacket 0x14, enough)]
      (emptyStore true) with
  | .ok store => chosenSection (offered initRewrV store) serviceOne EitPackets.startPacket
  | .error _ => []

theorem chosenAfter_present : chosenAfter = [(1, presentSection)] := by
  decide +kernel

/-- The section of the first packet is handed out with the second, and then sent. -/
theorem delivering_presentPacket : ∃ past s, Run (delivering initRewrV) past s ∧
    s.chosen = [(1, presentSection)] ∧ received s.packets = [presentSection] := by
  have hempty := emptyStore_invariant true
  obtain ⟨store₁, hfirst, h₁⟩ :=
    eitRewriteNewGlobalPacket_invariant enough (presentPacket 0x13) hempty
  obtain ⟨store₂, hsecond, h₂⟩ := eitRewriteNewGlobalPacket_invariant enough (presentPacket 0x14) h₁
  have hcc : serviceOne.eitCc < 16 := by decide
  obtain ⟨packets, channel, hcall, -⟩ :=
    @call_sends initRewrV store₂ serviceOne EitPackets.startPacket h₂ hcc
  have hchosen := chosenAfter_present
  rw [chosenAfter, eitStorePackets, hfirst, bind_ok, eitStorePackets, hsecond, bind_ok,
    eitStorePackets] at hchosen
  have hstart : Run (delivering initRewrV) [] ⟨emptyStore true, serviceOne, [], []⟩ :=
    .start ⟨⟨true, rfl⟩, rfl, rfl, rfl⟩
  have hstep₁ : (delivering initRewrV).Step ⟨emptyStore true, serviceOne, [], []⟩
      (.received enough (presentPacket 0x13)) ⟨store₁, serviceOne, [], []⟩ := ⟨store₁, hfirst, rfl⟩
  have hstep₂ : (delivering initRewrV).Step ⟨store₁, serviceOne, [], []⟩
      (.received enough (presentPacket 0x14)) ⟨store₂, serviceOne, [], []⟩ := ⟨store₂, hsecond, rfl⟩
  have hstep₃ : (delivering initRewrV).Step ⟨store₂, serviceOne, [], []⟩
      (.call EitPackets.startPacket) ⟨store₂, channel, packets, [(1, presentSection)]⟩ :=
    ⟨packets, channel, hcall, congrArg (Delivery.mk store₂ channel packets) hchosen.symm⟩
  have hrun := ((hstart.next hstep₁).next hstep₂).next hstep₃
  exact ⟨_, _, hrun, rfl, (delivering_received hrun).1⟩

end MuMuDVB.EitDelivery
