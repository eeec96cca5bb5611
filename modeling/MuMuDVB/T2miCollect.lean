import MuMuDVB.T2miInput

/-!
# T2-MI packets from TS packets

What a well formed stream of TS packets does to the collected T2-MI packet: the
first bytes of `t2packet` are the bytes sent so far. One lemma for each kind of
TS packet: one that starts a T2-MI packet, one that goes on with it, and one
that ends it and starts the next.
-/
namespace MuMuDVB.T2miCollect

open CheckedMemory MuMuDVB.TsHeader MuMuDVB.T2mi MuMuDVB.T2miInput

/-- The payload of a TS packet: all behind the header, or what an adaptation field leaves. -/
inductive Payload (input : Nat → UInt8) : List UInt8 → Prop where
  | plain (control : adaptationField input = 0x01) : Payload input (block input 4 184)
  | adapted (control : adaptationField input = 0x03) (length : (input 4).toNat ≤ 182) :
      Payload input (block input (5 + (input 4).toNat) (183 - (input 4).toNat))

/-- A T2-MI packet is open, and `sent` is what there is of it. -/
structure Collected (s : T2State) (sent : List UInt8) : Prop where
  active : s.active = true
  position : s.t2packetpos = sent.length
  bytes : s.t2packet.cells.take sent.length = sent

section block

variable {input : Nat → UInt8}

theorem block_add (i m n : Nat) :
    block input i (m + n) = block input i m ++ block input (i + m) n := by
  simp only [block, List.range_add, List.map_append, List.map_map]
  congr 1
  refine List.map_congr_left fun j _ => ?_
  simp only [Function.comp_apply, Nat.add_assoc]

theorem block_succ (i n : Nat) : block input i (n + 1) = input i :: block input (i + 1) n := by
  rw [Nat.add_comm n 1, block_add]
  rfl

/-- A block that is two lists is two blocks. -/
theorem block_split {i n : Nat} {xs ys : List UInt8} (h : block input i n = xs ++ ys) :
    block input i xs.length = xs ∧ block input (i + xs.length) ys.length = ys := by
  have hlen := congrArg List.length h
  rw [length_block, List.length_append] at hlen
  rw [hlen, block_add] at h
  exact List.append_inj h (length_block i xs.length)

theorem Payload.offset {payload : List UInt8} (h : Payload input payload) :
    ∃ payloadStart, payloadStartOffset input = some payloadStart ∧
      payload = block input (4 + payloadStart) (188 - 4 - payloadStart) := by
  cases h with
  | plain control => exact ⟨0, by simp [payloadStartOffset, control], rfl⟩
  | adapted control length =>
    refine ⟨(input 4).toNat + 1, ?_, ?_⟩
    · rw [payloadStartOffset, if_pos control, if_neg (by omega)]
    · congr 1 <;> omega

end block

section packets

variable {input : Nat → UInt8} {outputBufOffset outputBufSize : Nat} {plpId : UInt8}
  {s : T2State} {sent rest head payload : List UInt8}

theorem Collected.continues (h : Collected s sent) (hpayload : Payload input payload)
    (hunit : payloadUnitStart input = false) (hroom : (sent ++ payload).length ≤ t2packetSize) :
    ∃ s' reads, processt2 input outputBufOffset outputBufSize plpId s = .ok ⟨s', reads, .none⟩ ∧
      Collected s' (sent ++ payload) ∧ s'.first = s.first := by
  obtain ⟨payloadStart, hstart, rfl⟩ := hpayload.offset
  rw [List.length_append, length_block] at hroom
  obtain ⟨t, ht, hcells⟩ := s.t2packet.write_ok s.t2packetpos
    (block input (4 + payloadStart) (188 - 4 - payloadStart))
    (by rw [h.position, length_block]; exact hroom)
  obtain ⟨reads, hcall⟩ := processt2_continues hstart hunit h.active ht
  refine ⟨_, reads, hcall, ⟨h.active, ?_, ?_⟩, rfl⟩
  · simp [h.position]
  · change t.cells.take _ = _
    rw [hcells, h.position, take_splice (by rw [Buffer.length_cells]; omega) (by simp), h.bytes]

/-- A baseband frame that starts with `head`, which goes to the end of the TS packet. -/
theorem startPacket_collected {buf len offset : Nat} (hlen : len ≤ 184)
    (hhead : block input (buf + offset) (len - offset) = head) (htype : head.head? = some 0) :
    ∃ s' more, startPacket input buf len offset s = .ok (s', more) ∧ Collected s' head ∧
      s'.first = s.first := by
  have hsize : head.length = len - offset := by rw [← hhead, length_block]
  have hpos : 0 < len - offset := by
    rw [← hsize]
    exact List.length_pos_of_ne_nil fun hnil => by simp [hnil] at htype
  obtain ⟨n, hn⟩ := Nat.exists_eq_add_of_lt hpos
  have hfirst : input (buf + offset) = 0 := by
    rw [← hhead, hn, Nat.zero_add, block_succ] at htype
    exact Option.some.inj htype
  obtain ⟨t, ht, hcells⟩ := s.t2packet.write_ok 0 (block input (buf + offset) (len - offset))
    (by rw [length_block]; simp only [t2packetSize]; omega)
  rw [startPacket, if_pos ⟨hfirst, by omega⟩, ht]
  refine ⟨_, _, rfl, ⟨rfl, hsize.symm, ?_⟩, rfl⟩
  · change t.cells.take head.length = head
    rw [hcells, hhead, take_splice_zero]

/-- The pointer field counts the bytes of `rest`; the payload ends with `head`. -/
theorem pointer_payload {payloadStart : Nat}
    (h : block input (4 + payloadStart) (188 - 4 - payloadStart) =
      UInt8.ofNat rest.length :: (rest ++ head)) :
    (input (4 + payloadStart)).toNat = rest.length ∧
      block input (4 + payloadStart + 1) rest.length = rest ∧
      block input (4 + payloadStart + (1 + rest.length))
        (188 - 4 - payloadStart - (1 + rest.length)) = head ∧
      1 + rest.length + head.length = 188 - 4 - payloadStart := by
  have hlen := congrArg List.length h
  rw [length_block, List.length_cons] at hlen
  rw [hlen, block_succ] at h
  obtain ⟨hpointer, hpayload⟩ := List.cons.inj h
  obtain ⟨hrest, hhead⟩ := block_split hpayload
  rw [List.length_append] at hlen
  refine ⟨?_, hrest, ?_, by omega⟩
  · rw [hpointer, UInt8.toNat_ofNat', Nat.mod_eq_of_lt (by omega)]
  · rw [← Nat.add_assoc, show 188 - 4 - payloadStart - (1 + rest.length) = head.length by omega]
    exact hhead

/-- With the end of the open T2-MI packet `t2packet` holds all of it. -/
theorem Collected.collectEnd (h : Collected s sent) {buf : Nat}
    (hrest : block input (buf + 1) rest.length = rest)
    (hroom : (sent ++ rest).length ≤ t2packetSize) :
    ∃ t, T2mi.collectEnd input buf (1 + rest.length) s = .ok t ∧
      t.cells.take (sent ++ rest).length = sent ++ rest := by
  rw [T2mi.collectEnd, Nat.add_sub_cancel_left, hrest, h.position]
  by_cases hempty : rest = []
  case pos =>
    refine ⟨s.t2packet, by simp [hempty], ?_⟩
    rw [hempty, List.append_nil, h.bytes]
  case neg =>
    have hlen := List.length_pos_iff.mpr hempty
    rw [List.length_append] at hroom
    obtain ⟨t, ht, hcells⟩ := s.t2packet.write_ok sent.length rest hroom
    refine ⟨t, by rw [if_pos (by omega), ht], ?_⟩
    rw [hcells, take_splice (by rw [Buffer.length_cells]; omega) List.length_append, h.bytes]

/-- A TS packet in which a T2-MI packet starts, when none is open. -/
theorem starts_collected (hactive : s.active = false) (hpayload : Payload input payload)
    (hunit : payloadUnitStart input = true)
    (hbytes : payload = UInt8.ofNat rest.length :: (rest ++ head)) (htype : head.head? = some 0) :
    ∃ s' reads, processt2 input outputBufOffset outputBufSize plpId s = .ok ⟨s', reads, .none⟩ ∧
      Collected s' head ∧ s'.first = s.first := by
  obtain ⟨payloadStart, hstart, hblock⟩ := hpayload.offset
  obtain ⟨hpointer, -, hhead, -⟩ := pointer_payload (hblock.symm.trans hbytes)
  obtain ⟨s', more, hmore, hcollected, hfirst⟩ := startPacket_collected (s := s)
    (show 188 - 4 - payloadStart ≤ 184 by omega) hhead htype
  rw [← hpointer] at hmore
  obtain ⟨reads, hcall⟩ := processt2_starts hstart hunit hactive hmore
  exact ⟨s', reads, hcall, hcollected, hfirst⟩

/-- A TS packet in which the open T2-MI packet ends and the next one starts: `t` holds the T2-MI
packet that ended. -/
theorem Collected.ends (h : Collected s sent) (hpayload : Payload input payload)
    (hunit : payloadUnitStart input = true)
    (hbytes : payload = UInt8.ofNat rest.length :: (rest ++ head)) (htype : head.head? = some 0)
    (hroom : (sent ++ rest).length ≤ t2packetSize) :
    ∃ t : Buffer UInt8 t2packetSize, t.cells.take (sent ++ rest).length = sent ++ rest ∧
      ∀ out first, extractPlp t outputBufOffset outputBufSize plpId s.first = .ok (out, first) →
        ∃ s' reads, processt2 input outputBufOffset outputBufSize plpId s = .ok ⟨s', reads, out⟩ ∧
          Collected s' head ∧ s'.first = first := by
  obtain ⟨payloadStart, hstart, hblock⟩ := hpayload.offset
  obtain ⟨hpointer, hrest, hhead, hlen⟩ := pointer_payload (hblock.symm.trans hbytes)
  have hne : 0 < head.length := List.length_pos_of_ne_nil fun hnil => by simp [hnil] at htype
  obtain ⟨t, ht, hcells⟩ := h.collectEnd hrest hroom
  refine ⟨t, hcells, fun out first hextract => ?_⟩
  obtain ⟨s', more, hmore, hcollected, hfirst⟩ := startPacket_collected
    (s := ⟨Buffer.fill _ 0, s.t2packetpos, false, first⟩)
    (show 188 - 4 - payloadStart ≤ 184 by omega) hhead htype
  rw [← hpointer] at hmore ht
  have hend : endPacket input outputBufOffset outputBufSize plpId (4 + payloadStart)
      (1 + (input (4 + payloadStart)).toNat) s =
        .ok (⟨Buffer.fill _ 0, s.t2packetpos, false, first⟩, out) := by
    rw [endPacket, ht, bind_ok, hextract]
    rfl
  obtain ⟨reads, hcall⟩ := processt2_ends hstart hunit h.active (by omega) hend hmore
  exact ⟨s', reads, hcall, hcollected, hfirst⟩

end packets

/-- A TS packet without adaptation field. -/
def tsPacket (start : Bool) (payload : List UInt8) : Nat → UInt8
  | 0 => 0x47
  | 1 => if start then 0x40 else 0x00
  | 2 => 0x00
  | 3 => 0x10
  | i + 4 => byteAt payload i

theorem payloadUnitStart_tsPacket (start : Bool) (payload : List UInt8) :
    payloadUnitStart (tsPacket start payload) = start := by
  have hflags : tsPacket start payload 1 = if start then 0x40 else 0x00 := rfl
  rw [payloadUnitStart, hflags]
  cases start <;> decide

theorem payload_tsPacket (start : Bool) {payload : List UInt8} (h : payload.length = 184) :
    Payload (tsPacket start payload) payload := by
  have hblock : block (tsPacket start payload) 4 184 = payload := by
    refine List.ext_getElem (by rw [length_block, h]) fun i hi hi' => ?_
    simp only [block, List.getElem_map, List.getElem_range, Nat.add_comm 4 i]
    change byteAt payload i = payload[i]
    rw [byteAt, List.getD_eq_getElem?_getD, List.getElem?_eq_getElem hi']
    rfl
  have hcontrol : adaptationField (tsPacket start payload) = 0x01 := by
    have hflags : tsPacket start payload 3 = 0x10 := rfl
    rw [adaptationField, hflags]
    decide
  have hplain := Payload.plain hcontrol
  rwa [hblock] at hplain

end MuMuDVB.T2miCollect
