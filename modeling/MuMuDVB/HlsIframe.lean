import MuMuDVB.Hls

/-!
# hls_find_iframe and the adaptation field

The flags of the adaptation field are read through a structure that is laid
`TS_HEADER_LEN` bytes into the packet. That constant counts the pointer field of
a section too, and the structure lists the flags of a byte the other way round:
in a packet with an adaptation field bit 1 of byte 6 is taken for the random
access indicator, which is bit 6 of byte 5.
-/
namespace MuMuDVB.HlsIframe

open CheckedMemory Hls MuMuDVB.TsHeader

/-- The packet has an adaptation field, and the field has flags. -/
structure HasFlags (p : Packet) : Prop where
  control : 1 < adaptationFieldControl p.cells
  length : 1 ≤ (byteAt p.cells 4).toNat

/-- `random_access_indicator` of ISO 13818-1, in the byte behind the length of the field. -/
def randomAccess (p : Packet) : Bool := (byteAt p.cells 5).toNat / 64 % 2 == 1

/-- The flag as the code reads it. -/
def structFlag (p : Packet) : Bool := randomAccessIndicator p.cells 0

/-- The buffer of whole packets. -/
def buffer (packets : List Packet) : List UInt8 := packets.flatMap (·.cells)

/-- Where the first packet with random access begins. -/
def firstRandomAccess (packets : List Packet) : Option Nat :=
  (packets.findIdx? randomAccess).map (tsPacketSize * ·)

/-- Up to the first packet with random access the code reads the flag as it is. -/
def FlagsAgree (packets : List Packet) : Prop :=
  ∀ (i : Nat) (p : Packet), packets[i]? = some p →
    (∀ (j : Nat) (q : Packet), j < i → packets[j]? = some q → randomAccess q = false) →
    structFlag p = randomAccess p

section find

variable {packets : List Packet} {p : Packet}

theorem length_buffer (packets : List Packet) :
    (buffer packets).length = tsPacketSize * packets.length := by
  induction packets with
  | nil => rfl
  | cons p packets ih =>
    rw [buffer, List.flatMap_cons, List.length_append, p.length_cells, List.length_cons]
    rw [buffer] at ih
    rw [ih]
    simp only [tsPacketSize]
    omega

theorem drop_buffer {i : Nat} (h : packets[i]? = some p) :
    ∃ rest, (buffer packets).drop (tsPacketSize * i) = p.cells ++ rest := by
  induction packets generalizing i with
  | nil => cases h
  | cons q packets ih =>
    cases i with
    | zero =>
      cases h
      exact ⟨buffer packets, rfl⟩
    | succ i =>
      obtain ⟨rest, hrest⟩ := ih h
      refine ⟨rest, ?_⟩
      rw [← hrest, buffer, List.flatMap_cons, Nat.mul_succ, Nat.add_comm, ← List.drop_drop,
        List.drop_left' q.length_cells]
      rfl

theorem byteAt_drop (xs : List UInt8) (i k : Nat) : byteAt xs (i + k) = byteAt (xs.drop i) k := by
  rw [byteAt, byteAt, List.getD_eq_getElem?_getD, List.getD_eq_getElem?_getD, List.getElem?_drop]

theorem byteAt_left {xs : List UInt8} {k : Nat} (h : k < xs.length) (ys : List UInt8) :
    byteAt (xs ++ ys) k = byteAt xs k := by
  rw [byteAt, byteAt, List.getD_eq_getElem?_getD, List.getD_eq_getElem?_getD,
    List.getElem?_append_left h]

/-- The code looks at each packet alone. -/
theorem isIframe_buffer {i : Nat} (h : packets[i]? = some p) (hflags : HasFlags p) :
    isIframe (buffer packets) (tsPacketSize * i) = structFlag p := by
  obtain ⟨rest, hdrop⟩ := drop_buffer h
  have hbyte : ∀ k, k < tsPacketSize →
      byteAt (buffer packets) (tsPacketSize * i + k) = byteAt p.cells k := by
    intro k hk
    rw [byteAt_drop, hdrop, byteAt_left (by rwa [p.length_cells])]
  have hcontrol : adaptationFieldControl ((buffer packets).drop (tsPacketSize * i)) =
      adaptationFieldControl p.cells := by
    rw [adaptationFieldControl, adaptationFieldControl, hdrop,
      byteAt_left (by rw [p.length_cells]; decide)]
  have hafter : adaptationFieldControl p.cells ≠ 1 := Nat.ne_of_gt hflags.control
  rw [isIframe, hcontrol, randomAccessIndicator, structFlag, randomAccessIndicator, Nat.add_assoc,
    hbyte _ (by decide), Nat.zero_add]
  simp only [hflags.control, decide_true, Bool.true_and, beq_eq_false_iff_ne.mpr hafter,
    Bool.false_and, Bool.or_false]

/-- The first packet whose flag is set, as the code reads it, is returned. -/
theorem hlsFindIframe_buffer (hflags : ∀ p ∈ packets, HasFlags p) :
    hlsFindIframe (buffer packets) = (packets.findIdx? structFlag).map (tsPacketSize * ·) := by
  have hcount : ((buffer packets).length + (tsPacketSize - 1)) / tsPacketSize = packets.length := by
    rw [length_buffer]
    simp only [tsPacketSize]
    omega
  rw [hlsFindIframe, hcount, List.find?_map]
  congr 1
  refine Option.ext fun i => ?_
  rw [List.find?_range_eq_some, List.findIdx?_eq_some_iff_getElem]
  have hat : ∀ j (hj : j < packets.length),
      (isIframe (buffer packets) ∘ (tsPacketSize * ·)) j = structFlag packets[j] := fun j hj =>
    isIframe_buffer (List.getElem?_eq_getElem hj) (hflags _ (List.getElem_mem hj))
  constructor
  · rintro ⟨hi, hmem, hbefore⟩
    have hlt := List.mem_range.mp hmem
    refine ⟨hlt, by rwa [← hat i hlt], fun j hj => ?_⟩
    have hfree := hbefore j hj
    rw [hat j (by omega)] at hfree
    simpa using hfree
  · rintro ⟨hlt, hi, hbefore⟩
    refine ⟨by rwa [hat i hlt], List.mem_range.mpr hlt, fun j hj => ?_⟩
    rw [hat j (by omega)]
    simpa using hbefore j hj

theorem flagsAgree_cons {packets : List Packet} :
    FlagsAgree (p :: packets) ↔
      structFlag p = randomAccess p ∧ (randomAccess p = false → FlagsAgree packets) := by
  constructor
  · intro h
    refine ⟨h 0 p rfl fun j q hj => absurd hj (Nat.not_lt_zero j), fun hp i q hq hbefore => ?_⟩
    refine h (i + 1) q hq fun j q' hj hq' => ?_
    cases j with
    | zero =>
      cases hq'
      exact hp
    | succ j => exact hbefore j q' (by omega) hq'
  · rintro ⟨hp, hrest⟩ i q hq hbefore
    cases i with
    | zero =>
      cases hq
      exact hp
    | succ i =>
      exact hrest (hbefore 0 p (by omega) rfl) i q hq fun j q' hj hq' =>
        hbefore (j + 1) q' (by omega) hq'

/-- The first packet with random access is found exactly when no packet up to it has the wrong bit
set, and it has that bit set itself. -/
theorem hlsFindIframe_iff (hflags : ∀ p ∈ packets, HasFlags p) :
    hlsFindIframe (buffer packets) = firstRandomAccess packets ↔ FlagsAgree packets := by
  have hinj : Function.Injective (Option.map (tsPacketSize * ·)) :=
    Option.map_injective fun a b h => Nat.eq_of_mul_eq_mul_left (by decide) h
  rw [hlsFindIframe_buffer hflags, firstRandomAccess, hinj.eq_iff]
  clear hflags
  induction packets with
  | nil =>
    refine ⟨fun _ i p hp => ?_, fun _ => rfl⟩
    cases hp
  | cons p packets ih =>
    rw [flagsAgree_cons,
      iff_congr Iff.rfl (and_congr_right' (imp_congr_right fun _ => ih.symm))]
    rw [List.findIdx?_cons, List.findIdx?_cons]
    have hsucc : Function.Injective (Option.map (· + 1) : Option Nat → Option Nat) :=
      Option.map_injective fun a b h => Nat.add_right_cancel h
    cases hiso : randomAccess p <;> cases hcode : structFlag p
    · simp [hsucc.eq_iff]
    · simp
    · simp
    · simp

end find

/-! A packet with random access, with a payload behind the flags. -/

theorem length_packetWith (flags behind : UInt8) :
    ([0x47, 0, 33, 0x30, 1, flags, behind] ++ List.replicate 181 0 : List UInt8).length =
      tsPacketSize := by
  rw [List.length_append, List.length_replicate]
  rfl

/-- A packet whose adaptation field has one byte, and the byte behind it. -/
def packetWith (flags behind : UInt8) : Packet :=
  ⟨[0x47, 0, 33, 0x30, 1, flags, behind] ++ List.replicate 181 0, length_packetWith flags behind⟩

theorem hlsFindIframe_iff_seen :
    hlsFindIframe (buffer [packetWith 0 0, packetWith 0x40 2]) =
      firstRandomAccess [packetWith 0 0, packetWith 0x40 2] ↔
        FlagsAgree [packetWith 0 0, packetWith 0x40 2] :=
  hlsFindIframe_iff fun p hp => by
    rcases List.mem_cons.mp hp with rfl | hp
    · exact ⟨by decide, by decide⟩
    · rw [List.mem_singleton.mp hp]
      exact ⟨by decide, by decide⟩

/-- The flag is set, and the packet is not found. -/
theorem hlsFindIframe_missed : HasFlags (packetWith 0x40 0) ∧
    firstRandomAccess [packetWith 0x40 0] = some 0 ∧
    hlsFindIframe (buffer [packetWith 0x40 0]) = none :=
  ⟨⟨by decide, by decide⟩, by decide +kernel, by decide +kernel⟩

end MuMuDVB.HlsIframe
