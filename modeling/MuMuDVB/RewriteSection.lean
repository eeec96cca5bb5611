import MuMuDVB.Channel
import MuMuDVB.TsReassembly

/-!
# What the three rewriters share

Each of them builds a packet in `buf_dest`: the header of an incoming packet
with the start indicator set and the pointer field erased, a table header, the
entries it keeps, and then the same end: section length, CRC-32 and padding.
-/
namespace MuMuDVB.RewriteSection

open CheckedMemory MuMuDVB.TsHeader MuMuDVB.Ts MuMuDVB.TsAssembler MuMuDVB.TsRefinement
open MuMuDVB.TsReassembly

variable {n : Nat}

/-- `ts_header->payload_unit_start_indicator=1; buf[TS_HEADER_LEN-1]=0;` -/
def startHeader (buf : Buffer UInt8 n) : Buffer UInt8 n :=
  ⟨(setPayloadUnitStart buf.cells).set 4 0, by simp [setPayloadUnitStart]⟩

/-- The table header at `buf + off` made applicable at once, section 0 of 0. -/
def onlySectionAt (buf : Buffer UInt8 n) (off : Nat) : Buffer UInt8 n :=
  ⟨buf.cells.take off ++ makeOnlySection (buf.cells.drop off), by
    have := buf.length_cells
    simp [makeOnlySection]
    omega⟩

@[simp] theorem onlySectionAt_zero (buf : Buffer UInt8 n) :
    (onlySectionAt buf 0).cells = makeOnlySection buf.cells := by simp [onlySectionAt]

/-- `memcpy(buf_dest+buf_dest_pos, src, …)`, where `dest` are the bytes of `buf_dest`
written so far. -/
def appendDest (dest src : List UInt8) : Checked (List UInt8) :=
  if dest.length + src.length ≤ tsPacketSize then .ok (dest ++ src) else .error .outOfBounds

/-- The two bytes of the section length. -/
def setSectionLength (dest : List UInt8) (len : Nat) : List UInt8 :=
  (dest.set 6 (UInt8.ofNat (len / 256 % 16) ||| (0xf0 &&& byteAt dest 6))).set 7 (UInt8.ofNat len)

/-- The section in `buf_dest`, with its CRC. -/
def withCrc (dest : List UInt8) : List UInt8 :=
  dest ++ TableCrc.bytes (crc32Long (dest.drop tsHeaderLen))

/-- `buf_dest` with its new section length and its CRC. -/
def closed (dest : List UInt8) : List UInt8 :=
  let newSectionLength := dest.length - tsHeaderLen + 1
  withCrc (setSectionLength dest newSectionLength)

/-- The common end of the rewriters: section length, CRC-32, padding. -/
def closeSection (dest : List UInt8) : Checked Packet :=
  if h : (closed dest).length ≤ tsPacketSize then
    .ok ⟨closed dest ++ List.replicate (tsPacketSize - (closed dest).length) 0xff, by
      simp only [List.length_append, List.length_replicate]
      omega⟩
  else .error .outOfBounds

/-- The section a generated packet holds. -/
def sectionOf (p : Packet) : List UInt8 :=
  (p.cells.drop tsHeaderLen).take (sectionSize (p.cells.drop tsHeaderLen))

variable {dest : List UInt8}

theorem appendDest_ok {src : List UInt8} (h : dest.length + src.length ≤ 188) :
    appendDest dest src = .ok (dest ++ src) := if_pos h

@[simp] theorem length_setSectionLength (len : Nat) :
    (setSectionLength dest len).length = dest.length := by simp [setSectionLength]

theorem length_closed : (closed dest).length = dest.length + 4 := by simp [closed, withCrc]

theorem closeSection_ok (h : dest.length ≤ 184) :
    ∃ p, closeSection dest = .ok p ∧
      p.cells = closed dest ++ List.replicate (184 - dest.length) 0xff := by
  have hroom : (closed dest).length ≤ 188 := by
    rw [length_closed]
    omega
  rw [closeSection, dif_pos hroom]
  refine ⟨_, rfl, ?_⟩
  show closed dest ++ List.replicate (188 - (closed dest).length) 0xff = _
  rw [length_closed, show 188 - (dest.length + 4) = 184 - dest.length by omega]

/-- A rewriter that returned a packet did not leave `buf_dest`. -/
theorem closeSection_eq_ok {p : Packet} (h : closeSection dest = .ok p) :
    dest.length ≤ 184 ∧ p.cells = closed dest ++ List.replicate (184 - dest.length) 0xff := by
  by_cases hlen : dest.length ≤ 184
  · obtain ⟨p', hp', hcells⟩ := closeSection_ok hlen
    rw [hp'] at h
    cases h
    exact ⟨hlen, hcells⟩
  · unfold closeSection at h
    rw [dif_neg (by rw [length_closed]; simp only [tsPacketSize]; omega)] at h
    cases h

/-- The section in `buf_dest` before its CRC. -/
def openSection (dest : List UInt8) : List UInt8 :=
  (setSectionLength dest (dest.length - 5 + 1)).drop 5

theorem closed_drop (h5 : 5 ≤ dest.length) :
    (closed dest).drop 5 = openSection dest ++ TableCrc.bytes (crc32Long (openSection dest)) := by
  rw [closed, withCrc, List.drop_append_of_le_length (by rw [length_setSectionLength]; exact h5)]
  rfl

theorem length_openSection : (openSection dest).length = dest.length - 5 := by
  simp [openSection]

theorem openSection_eq :
    openSection dest = ((dest.drop 5).set 1
      (UInt8.ofNat ((dest.length - 5 + 1) / 256 % 16) ||| (0xf0 &&& byteAt dest 6))).set 2
      (UInt8.ofNat (dest.length - 5 + 1)) := by
  simp [openSection, setSectionLength, List.drop_set]

/-- Only the length field differs from what was written. -/
theorem byteAt_openSection {i : Nat} (h1 : i ≠ 1) (h2 : i ≠ 2) :
    byteAt (openSection dest) i = byteAt (dest.drop 5) i := by
  rw [openSection_eq, byteAt, List.getD_eq_getElem?_getD, List.getElem?_set_ne (Ne.symm h2),
    List.getElem?_set_ne (Ne.symm h1)]
  rfl

theorem low_nibble (a : Nat) (ha : a < 16) (x : UInt8) :
    (UInt8.ofNat a ||| (0xf0 &&& x)).toNat % 16 = a := by
  have h : (0xf0 : UInt8).toNat % 2 ^ 4 = 0 := by decide
  rw [UInt8.toNat_or, UInt8.toNat_and, UInt8.toNat_ofNat', show 16 = 2 ^ 4 from rfl,
    Nat.or_mod_two_pow, Nat.and_mod_two_pow, h, Nat.zero_and, Nat.or_zero]
  omega

theorem byteAt_one_openSection (h : 8 ≤ dest.length) :
    byteAt (openSection dest) 1 =
      UInt8.ofNat ((dest.length - 5 + 1) / 256 % 16) ||| (0xf0 &&& byteAt dest 6) := by
  have hlt : 1 < (dest.drop 5).length := by
    rw [List.length_drop]
    omega
  rw [openSection_eq, byteAt, List.getD_eq_getElem?_getD, List.getElem?_set_ne (by decide),
    List.getElem?_set_self hlt]
  rfl

theorem byteAt_two_openSection (h : 8 ≤ dest.length) :
    byteAt (openSection dest) 2 = UInt8.ofNat (dest.length - 5 + 1) := by
  have hlt : 2 < ((dest.drop 5).set 1
      (UInt8.ofNat ((dest.length - 5 + 1) / 256 % 16) ||| (0xf0 &&& byteAt dest 6))).length := by
    rw [List.length_set, List.length_drop]
    omega
  rw [openSection_eq, byteAt, List.getD_eq_getElem?_getD, List.getElem?_set_self hlt]
  rfl

/-- The length written is the length of what follows it. -/
theorem sectionSize_openSection (h : 8 ≤ dest.length) (hmax : dest.length ≤ 184) :
    sectionSize (openSection dest) = dest.length - 1 := by
  unfold sectionSize sectionLength hilo
  rw [byteAt_one_openSection h, byteAt_two_openSection h, low_nibble _ (Nat.mod_lt _ (by decide)),
    UInt8.toNat_ofNat']
  simp only [bytesBfrSecLen]
  omega

/-- Packet `p` holds section `s` right after a zero pointer field, then stuffing. -/
structure Holds (p : Packet) (s : List UInt8) : Prop where
  start : payloadUnitStartIndicator p.cells = true
  pointer : byteAt p.cells 4 = 0
  payload : ∃ k, p.cells.drop 5 = s ++ List.replicate k 0xff
  length : s.length = sectionSize s
  atLeast : 8 ≤ s.length
  accepted : Accepted s
  noPes : byteAt s 1 ≠ 1
  sectionNumber : byteAt s 6 = 0

/-- A fresh `get_ts_packet` recovers section `s` from packet `p`, and nothing else. -/
def Delivers (p : Packet) (s : List UInt8) : Prop :=
  ∃ pkt, takeStream [p] zeroed = .ok ([s], pkt)

/-- The sections in the store of a fresh assembler after packet `p`. -/
def recovered (p : Packet) : List (List UInt8) := (empty.call (some p)).2.store

theorem takeStream_single (p : Packet) :
    ∃ pkt, takeStream [p] zeroed = .ok (recovered p, pkt) := by
  have hcall : (view zeroed).call (some p) =
      (decide ((view zeroed).store ≠ []), (empty.call (some p)).2) := by
    rw [view_zeroed]
    apply Prod.ext
    · simp only [Assembler.call]
      cases payloadStart p with
      | none => rfl
      | some off =>
        simp only
        split <;> rfl
    · rfl
  obtain ⟨pkt₁, hinv, hcase⟩ := takeSections_packet zeroed_repInvariant 16 (by decide) hcall
  rcases hcase with ⟨_, htake, hview⟩ | ⟨s, later, hcons, _⟩
  · have hmax := length_store hinv.toStoreInvariant
    have h15 := hinv.fullNumber
    obtain ⟨pkt, hdrain, _⟩ := takeSections_drain hinv 17 (by omega)
    refine ⟨pkt, ?_⟩
    rw [takeStream, htake, bind_ok]
    simp only [takeStream, hdrain, hview, bind_ok]
    rfl
  · cases hcons

theorem delivers_iff_recovered {p : Packet} {s : List UInt8} :
    Delivers p s ↔ recovered p = [s] := by
  obtain ⟨pkt, htake⟩ := takeStream_single p
  constructor
  · rintro ⟨pkt', h⟩
    rw [htake, Except.ok.injEq, Prod.mk.injEq] at h
    exact h.1
  · intro h
    exact ⟨pkt, by rw [htake, h]⟩

theorem mem_complete {a : Assembler} {s t : List UInt8} (h : t ∈ (a.complete s).store) :
    t ∈ a.store ∨ t = s := by
  unfold Assembler.complete at h
  split at h
  · split at h
    · exact Or.inl h
    · split at h
      · cases h
      · rcases List.mem_append.mp h with h | h
        · exact Or.inl h
        · exact Or.inr (List.mem_singleton.mp h)
  · exact Or.inl h

/-- The sections that a payload completes are blocks of it. -/
theorem mem_start {a : Assembler} {data : List UInt8} {pid cc : Nat} {t : List UInt8}
    (h : t ∈ (a.start data pid cc).store) : t ∈ a.store ∨ t <:+: data := by
  have htake : ∀ data : List UInt8, data.take (sectionSize data) <:+: data :=
    fun data => (List.take_prefix _ _).isInfix
  induction a, data using Assembler.start.induct with
  | case1 a data h3 =>
    rw [Assembler.start, if_pos h3] at h
    exact Or.inl h
  | case2 a data h3 hfit rest hend =>
    rw [Assembler.start, if_neg h3, if_pos hfit, if_pos hend] at h
    rcases mem_complete h with h | rfl
    · exact Or.inl h
    · exact Or.inr (htake data)
  | case3 a data h3 hfit a₁ rest hgo ih =>
    rw [Assembler.start, if_neg h3, if_pos hfit, if_neg hgo] at h
    rcases ih h with h | h
    · rcases mem_complete h with h | rfl
      · exact Or.inl h
      · exact Or.inr (htake data)
    · exact Or.inr (h.trans (List.drop_suffix _ _).isInfix)
  | case4 a data h3 hfit =>
    rw [Assembler.start, if_neg h3, if_neg hfit] at h
    exact Or.inl h

/-- A section with a zero byte does not stand in its own packet a second time, further on:
each shift would find that zero again, until it is in the stuffing. -/
theorem not_infix_drop {s : List UInt8} {i j k : Nat} (hi : s[i]? = some 0) (hj : 0 < j) :
    ¬ s <:+: (s ++ List.replicate k 0xff).drop j := by
  rintro ⟨before, after, heq⟩
  have hshift : ∀ q, q < s.length →
      (s ++ List.replicate k 0xff)[q + (j + before.length)]? = s[q]? := by
    intro q hq
    have h := congrArg (fun xs => xs[before.length + q]?) heq
    simp only [List.getElem?_drop, List.append_assoc] at h
    rw [List.getElem?_append_right (by omega), Nat.add_sub_cancel_left,
      List.getElem?_append_left hq] at h
    rw [h]
    congr 1
    omega
  have hzero : ∀ q, (s ++ List.replicate k 0xff)[i + q * (j + before.length)]? = some 0 := by
    intro q
    induction q with
    | zero =>
      have hlt : i < s.length := (List.getElem?_eq_some_iff.mp hi).1
      rw [Nat.zero_mul, Nat.add_zero, List.getElem?_append_left hlt, hi]
    | succ q ih =>
      have hlt : i + q * (j + before.length) < s.length := by
        by_contra hge
        rw [List.getElem?_append_right (by omega)] at ih
        have hmem := List.mem_of_getElem? ih
        rw [List.mem_replicate] at hmem
        exact absurd hmem.2 (by decide)
      rw [List.getElem?_append_left hlt] at ih
      rw [Nat.succ_mul, ← Nat.add_assoc, hshift _ hlt, ih]
  have hend := hzero (s ++ List.replicate k 0xff).length
  rw [List.getElem?_eq_none] at hend
  · cases hend
  · have := Nat.le_mul_of_pos_right (s ++ List.replicate k 0xff).length
      (show 0 < j + before.length by omega)
    omega

theorem payload_of_holds {p : Packet} {s : List UInt8} (h : Holds p s) :
    ∃ k, payload p 5 183 = s ++ List.replicate k 0xff := by
  obtain ⟨k, hk⟩ := h.payload
  refine ⟨k, ?_⟩
  rw [payload, List.take_of_length_le (by simp), hk]

/-- Without an adaptation field the section is where the decoder looks for it. -/
theorem recovered_of_no_field {p : Packet} {s : List UInt8} (h : Holds p s)
    (hafc : adaptationFieldControl p.cells / 2 % 2 = 0) : recovered p = [s] := by
  obtain ⟨k, hk⟩ := h.payload
  have hlen := h.atLeast
  have hpes : (p.cells.drop 4).take 3 ≠ [0x00, 0x00, 0x01] := by
    intro hc
    have hs1 : s[1]? = some 0x01 := by
      have := congrArg (fun xs => xs[2]?) hc
      simp only [List.getElem?_take, List.getElem?_drop] at this
      have h6 : (p.cells.drop 5)[1]? = s[1]? := by
        rw [hk, List.getElem?_append_left (by omega)]
      rw [List.getElem?_drop] at h6
      rw [← h6]
      simpa using this
    apply h.noPes
    rw [byteAt, List.getD_eq_getElem?_getD, hs1]
    rfl
  have hoff : payloadStart p = some 4 := by
    unfold payloadStart
    simp only
    rw [if_neg (by omega), if_neg (by simp [hpes])]
  have hzero : (byteAt p.cells 4).toNat = 0 := by
    rw [h.pointer]
    rfl
  have hbig : ¬ PointerTooBig p 4 := by simp [PointerTooBig, hzero]
  obtain ⟨k', hk'⟩ := payload_of_holds h
  have hfits : Fits ((empty.pop).store ++ [s]) := by
    have hmax := congrArg List.length hk'
    rw [length_payload p (show 5 + 183 ≤ 188 by decide), List.length_append] at hmax
    refine ⟨by simp [empty, Assembler.pop], ?_⟩
    simp only [empty, Assembler.pop, List.tail_nil, List.nil_append, List.flatten_singleton]
    omega
  have htail : List.replicate k' (0xff : UInt8) = [] ∨ byteAt (List.replicate k' 0xff) 0 = 0xff := by
    cases k' with
    | zero => exact Or.inl rfl
    | succ k' => exact Or.inr rfl
  unfold recovered
  simp only [Assembler.call, hoff]
  rw [if_neg (by simp [hbig])]
  simp only [Assembler.add]
  rw [if_pos h.start, if_neg hbig, hzero, if_neg (by simp)]
  show ((empty.pop).start (payload p 5 183) _ _).store = [s]
  rw [hk', start_section h.length, if_pos htail, complete_fits h.accepted hfits]
  rfl

/-- With one, the decoder starts at least a byte late. -/
theorem recovered_of_field {p : Packet} {s : List UInt8} (h : Holds p s)
    (hafc : adaptationFieldControl p.cells / 2 % 2 = 1) : s ∉ recovered p := by
  obtain ⟨k, hk⟩ := h.payload
  have hzero : (byteAt p.cells 4).toNat = 0 := by
    rw [h.pointer]
    rfl
  have hsix : s[6]? = some 0 := by
    have hlt : 6 < s.length := by
      have := h.atLeast
      omega
    have hsec := h.sectionNumber
    rw [byteAt, List.getD_eq_getElem?_getD, List.getElem?_eq_getElem hlt] at hsec
    rw [List.getElem?_eq_getElem hlt]
    exact congrArg some hsec
  unfold recovered
  simp only [Assembler.call]
  have hstart : payloadStart p = if adaptationFieldControl p.cells = 2 then none else some 5 := by
    unfold payloadStart
    simp only
    rw [if_pos hafc, hzero]
    by_cases h2 : adaptationFieldControl p.cells = 2
    · rw [if_pos (Or.inr h2), if_pos h2]
    · rw [if_neg (by simp [h2]), if_neg h2]
  rw [hstart]
  by_cases h2 : adaptationFieldControl p.cells = 2
  · rw [if_pos h2]
    simp [Assembler.pop, empty]
  · rw [if_neg h2]
    simp only
    have hadd : s ∉ ((empty.pop).add p 5).store := by
      unfold Assembler.add
      rw [if_pos h.start]
      by_cases hbig : PointerTooBig p 5
      · rw [if_pos hbig]
        simp [Assembler.pop, empty]
      · rw [if_neg hbig]
        have hidle : ∀ data pid cc, (empty.pop).append data pid cc = empty.pop := fun _ _ _ => rfl
        simp only [hidle, ite_self]
        intro hmem
        rcases mem_start hmem with hmem | hmem
        · simp [Assembler.pop, empty] at hmem
        · apply not_infix_drop (j := 1 + (byteAt p.cells 5).toNat) (k := k) hsix (by omega)
          rw [← hk, List.drop_drop]
          refine hmem.trans ?_
          rw [payload, ← Nat.add_assoc]
          exact (List.take_prefix _ _).isInfix
    split
    · exact hadd
    · exact hadd

/-- The decoder agrees with the packet exactly when its header announces no adaptation field. -/
theorem delivers_iff {p : Packet} {s : List UInt8} (h : Holds p s) :
    Delivers p s ↔ adaptationFieldControl p.cells / 2 % 2 = 0 := by
  rw [delivers_iff_recovered]
  constructor
  · intro hrec
    by_contra hafc
    apply recovered_of_field h (by omega)
    rw [hrec]
    exact List.mem_singleton_self s
  · exact recovered_of_no_field h

variable {p : Packet}

theorem byteAt_closed {i : Nat} (hi : i < 6) (hlen : 8 ≤ dest.length) :
    byteAt (closed dest) i = byteAt dest i := by
  unfold closed withCrc setSectionLength
  simp only
  rw [byteAt_append_left (by simp; omega), byteAt, List.getD_eq_getElem?_getD,
    List.getElem?_set_ne (by omega), List.getElem?_set_ne (by omega)]
  rfl

/-- The header of the packet is the header in `buf_dest`. -/
theorem byteAt_closeSection {i : Nat} (hi : i < 6) (hlen : 8 ≤ dest.length)
    (h : closeSection dest = .ok p) : byteAt p.cells i = byteAt dest i := by
  obtain ⟨_, hcells⟩ := closeSection_eq_ok h
  rw [hcells, byteAt_append_left (by rw [length_closed]; omega), byteAt_closed hi hlen]

theorem sectionSize_closeSection (h13 : 13 ≤ dest.length) (hmax : dest.length ≤ 184) :
    sectionSize (openSection dest ++ TableCrc.bytes (crc32Long (openSection dest))) =
      dest.length - 1 := by
  rw [sectionSize_append (by rw [length_openSection]; omega),
    sectionSize_openSection (by omega) hmax]

/-- The section with its CRC, behind the pointer field. -/
theorem length_closedSection (h13 : 13 ≤ dest.length) :
    (openSection dest ++ TableCrc.bytes (crc32Long (openSection dest))).length =
      dest.length - 1 := by
  rw [List.length_append, length_openSection, TableCrc.length_bytes]
  omega

/-- The section a rewriter wrote: what is in `buf_dest` with its length, then the CRC. -/
theorem sectionOf_closeSection (h13 : 13 ≤ dest.length) (h : closeSection dest = .ok p) :
    sectionOf p = openSection dest ++ TableCrc.bytes (crc32Long (openSection dest)) := by
  obtain ⟨hmax, hcells⟩ := closeSection_eq_ok h
  have hdrop : p.cells.drop 5 =
      (openSection dest ++ TableCrc.bytes (crc32Long (openSection dest))) ++
        List.replicate (184 - dest.length) 0xff := by
    rw [hcells, List.drop_append_of_le_length (by rw [length_closed]; omega), closed_drop (by omega)]
  have hlen := length_closedSection h13
  unfold sectionOf
  simp only [tsHeaderLen]
  rw [hdrop, sectionSize_append (by omega), sectionSize_closeSection h13 hmax, ← hlen,
    List.take_left]

/-- A packet a rewriter wrote holds its section, ready for the decoder. -/
theorem holds_closeSection (h13 : 13 ≤ dest.length) (h : closeSection dest = .ok p)
    (hstart : payloadUnitStartIndicator dest = true) (hpointer : byteAt dest 4 = 0)
    (hsection : byteAt dest 11 = 0) : Holds p (sectionOf p) := by
  obtain ⟨hmax, hcells⟩ := closeSection_eq_ok h
  rw [sectionOf_closeSection h13 h]
  have hlen := length_closedSection h13
  refine ⟨?_, ?_, ⟨184 - dest.length, ?_⟩, ?_, by omega, Or.inr (crc32_append_crc32Long _), ?_, ?_⟩
  · rw [payloadUnitStartIndicator, byteAt_closeSection (by omega) (by omega) h]
    exact hstart
  · rw [byteAt_closeSection (by omega) (by omega) h, hpointer]
  · rw [hcells, List.drop_append_of_le_length (by rw [length_closed]; omega), closed_drop (by omega)]
  · rw [sectionSize_closeSection h13 hmax, hlen]
  · rw [byteAt_append_left (by rw [length_openSection]; omega), byteAt_one_openSection (by omega)]
    intro hone
    have hlow := low_nibble ((dest.length - 5 + 1) / 256 % 16) (Nat.mod_lt _ (by decide))
      (byteAt dest 6)
    rw [hone] at hlow
    have h1 : (1 : UInt8).toNat % 16 = 1 := by decide
    omega
  · rw [byteAt_append_left (by rw [length_openSection]; omega),
      byteAt_openSection (by decide) (by decide), byteAt, List.getD_eq_getElem?_getD,
      List.getElem?_drop]
    exact hsection

/-- `buf_dest` begins with the header of packet `h`, a zero pointer field and a table header
that is applicable at once, section 0 of 0. -/
structure Opened (h dest : List UInt8) : Prop where
  atLeast : 13 ≤ dest.length
  syncByte : byteAt dest 0 = byteAt h 0
  scrambling : transportScramblingControl dest = transportScramblingControl h
  start : payloadUnitStartIndicator dest = true
  adaptationField : adaptationFieldControl dest = adaptationFieldControl h
  pointer : byteAt dest 4 = 0
  current : (byteAt dest 10).toNat % 2 = 1
  sectionNumber : byteAt dest 11 = 0
  lastSectionNumber : byteAt dest 12 = 0

variable {h : List UInt8}

theorem Opened.append (hopen : Opened h dest) (src : List UInt8) : Opened h (dest ++ src) := by
  have hlen := hopen.atLeast
  refine ⟨by rw [List.length_append]; omega, ?_, ?_, ?_, ?_, ?_, ?_, ?_, ?_⟩
  · rw [byteAt_append_left (by omega), hopen.syncByte]
  · rw [transportScramblingControl, byteAt_append_left (by omega)]
    exact hopen.scrambling
  · rw [payloadUnitStartIndicator, byteAt_append_left (by omega)]
    exact hopen.start
  · rw [adaptationFieldControl, byteAt_append_left (by omega)]
    exact hopen.adaptationField
  · rw [byteAt_append_left (by omega), hopen.pointer]
  · rw [byteAt_append_left (by omega), hopen.current]
  · rw [byteAt_append_left (by omega), hopen.sectionNumber]
  · rw [byteAt_append_left (by omega), hopen.lastSectionNumber]

theorem Opened.of_prefix {dest' : List UInt8} (hopen : Opened h dest) (hpre : dest <+: dest') :
    Opened h dest' := by
  obtain ⟨src, rfl⟩ := hpre
  exact hopen.append src

theorem appendDest_extends {src dest' : List UInt8} (happ : appendDest dest src = .ok dest') :
    dest <+: dest' := by
  unfold appendDest at happ
  split at happ <;> cases happ
  exact List.prefix_append _ _

theorem byteAt_set_ne {xs : List UInt8} {i j : Nat} {b : UInt8} (h : i ≠ j) :
    byteAt (xs.set i b) j = byteAt xs j := by
  rw [byteAt, byteAt, List.getD_eq_getElem?_getD, List.getElem?_set_ne h,
    List.getD_eq_getElem?_getD]

theorem byteAt_set_self {xs : List UInt8} {i : Nat} {b : UInt8} (h : i < xs.length) :
    byteAt (xs.set i b) i = b := by
  rw [byteAt, List.getD_eq_getElem?_getD, List.getElem?_set_self h]
  rfl

theorem byteAt_append_right {xs ys : List UInt8} {i : Nat} :
    byteAt (xs ++ ys) (xs.length + i) = byteAt ys i := by
  rw [byteAt, List.getD_eq_getElem?_getD, List.getElem?_append_right (by omega),
    Nat.add_sub_cancel_left]
  rfl

theorem byteAt_drop {xs : List UInt8} {i j : Nat} : byteAt (xs.drop i) j = byteAt xs (i + j) := by
  simp [byteAt]

theorem payloadUnitStart_startHeader {buf : Buffer UInt8 n} (hn : 5 ≤ n) :
    payloadUnitStartIndicator (startHeader buf).cells = true := by
  have hlen := buf.length_cells
  have hbit : ∀ a : Nat, (a ||| 64) / 64 % 2 = 1 := by
    intro a
    have h := Nat.testBit_or a 64 6
    rw [show Nat.testBit 64 6 = true from by decide, Bool.or_true,
      Nat.testBit_eq_decide_div_mod_eq] at h
    simpa using h
  simp only [payloadUnitStartIndicator, startHeader, setPayloadUnitStart]
  rw [byteAt_set_ne (by decide), byteAt_set_self (by omega), UInt8.toNat_or]
  simpa using hbit _

theorem byteAt_startHeader {i : Nat} (buf : Buffer UInt8 n) (h1 : i ≠ 1) (h4 : i ≠ 4) :
    byteAt (startHeader buf).cells i = byteAt buf.cells i := by
  rw [startHeader, byteAt_set_ne (Ne.symm h4), setPayloadUnitStart, byteAt_set_ne (Ne.symm h1)]

theorem adaptationFieldControl_startHeader (buf : Buffer UInt8 n) :
    adaptationFieldControl (startHeader buf).cells = adaptationFieldControl buf.cells := by
  rw [adaptationFieldControl, byteAt_startHeader buf (by decide) (by decide)]
  rfl

theorem pointer_startHeader {buf : Buffer UInt8 n} (hn : 5 ≤ n) :
    byteAt (startHeader buf).cells 4 = 0 := by
  have hlen := buf.length_cells
  exact byteAt_set_self (by rw [setPayloadUnitStart, List.length_set]; omega)

@[simp] theorem length_makeOnlySection (s : List UInt8) :
    (makeOnlySection s).length = s.length := by simp [makeOnlySection]

theorem byteAt_makeOnlySection {s : List UInt8} {i : Nat} (h5 : i ≠ 5) (h6 : i ≠ 6) (h7 : i ≠ 7) :
    byteAt (makeOnlySection s) i = byteAt s i := by
  rw [makeOnlySection, byteAt_set_ne (Ne.symm h7), byteAt_set_ne (Ne.symm h6),
    byteAt_set_ne (Ne.symm h5)]

theorem current_makeOnlySection {s : List UInt8} (hlen : 8 ≤ s.length) :
    byteAt (makeOnlySection s) 5 = byteAt s 5 ||| 1 := by
  rw [makeOnlySection, byteAt_set_ne (by decide), byteAt_set_ne (by decide),
    byteAt_set_self (by omega)]

theorem odd_or_one (x : UInt8) : (x ||| 1).toNat % 2 = 1 := by
  rw [UInt8.toNat_or, show 2 = 2 ^ 1 from rfl, Nat.or_mod_two_pow,
    show (1 : UInt8).toNat % 2 ^ 1 = 1 from by decide]
  rcases Nat.mod_two_eq_zero_or_one x.toNat with h | h <;> rw [Nat.pow_one, h] <;> rfl

theorem sectionNumber_makeOnlySection {s : List UInt8} (hlen : 8 ≤ s.length) :
    byteAt (makeOnlySection s) 6 = 0 ∧ byteAt (makeOnlySection s) 7 = 0 := by
  constructor
  · rw [makeOnlySection, byteAt_set_ne (by decide), byteAt_set_self (by rw [List.length_set]; omega)]
  · rw [makeOnlySection, byteAt_set_self (by rw [List.length_set, List.length_set]; omega)]

/-- The header every rewriter starts `buf_dest` with. -/
theorem opened_header {buf : Buffer UInt8 n} {s : List UInt8} {k : Nat} (hn : 5 ≤ n)
    (hs : 8 ≤ s.length) (hk : 8 ≤ k) :
    Opened buf.cells ((startHeader buf).cells.take 5 ++ (makeOnlySection s).take k) := by
  have hlen := (startHeader buf).length_cells
  have h5 : ((startHeader buf).cells.take 5).length = 5 := by
    rw [List.length_take]
    omega
  have hright : ∀ i, i < 8 → byteAt ((startHeader buf).cells.take 5 ++ (makeOnlySection s).take k)
      (5 + i) = byteAt (makeOnlySection s) i := by
    intro i hi
    have h := @byteAt_append_right ((startHeader buf).cells.take 5) ((makeOnlySection s).take k) i
    rw [h5] at h
    rw [h, byteAt_take (by omega)]
  have hleft : ∀ i, i < 5 → byteAt ((startHeader buf).cells.take 5 ++ (makeOnlySection s).take k) i =
      byteAt (startHeader buf).cells i := by
    intro i hi
    rw [byteAt_append_left (by omega), byteAt_take hi]
  refine ⟨?_, ?_, ?_, ?_, ?_, ?_, ?_, ?_, ?_⟩
  · rw [List.length_append, h5, List.length_take, length_makeOnlySection]
    omega
  · rw [hleft 0 (by decide), byteAt_startHeader buf (by decide) (by decide)]
  · rw [transportScramblingControl, hleft 3 (by decide),
      byteAt_startHeader buf (by decide) (by decide)]
    rfl
  · rw [payloadUnitStartIndicator, hleft 1 (by decide)]
    exact payloadUnitStart_startHeader hn
  · rw [adaptationFieldControl, hleft 3 (by decide)]
    exact adaptationFieldControl_startHeader buf
  · rw [hleft 4 (by decide), pointer_startHeader hn]
  · rw [hright 5 (by decide), current_makeOnlySection hs, odd_or_one]
  · rw [hright 6 (by decide), (sectionNumber_makeOnlySection hs).1]
  · rw [hright 7 (by decide), (sectionNumber_makeOnlySection hs).2]

/-- The header of the section after its length field. -/
theorem byteAt_sectionOf {i : Nat} (h13 : 13 ≤ dest.length) (hclose : closeSection dest = .ok p)
    (h3 : 3 ≤ i) (h8 : i < 8) : byteAt (sectionOf p) i = byteAt dest (5 + i) := by
  rw [sectionOf_closeSection h13 hclose,
    byteAt_append_left (by rw [length_openSection]; omega),
    byteAt_openSection (by omega) (by omega), byteAt_drop]

/-- A section that is applicable at once, section 0 of 0, with a right length and a right CRC. -/
structure OnlySection (s : List UInt8) : Prop where
  length : s.length = sectionSize s
  crc : crc32 s = 0
  current : currentNextIndicator s = 1
  sectionNumber : sectionNumber s = 0
  lastSectionNumber : lastSectionNumber s = 0

/-- What every rewriter's packet is: a valid section that the decoder gets, provided that the
header it took over announces no adaptation field. -/
theorem closeSection_opened (hopen : Opened h dest) (hclose : closeSection dest = .ok p) :
    OnlySection (sectionOf p) ∧
      (Delivers p (sectionOf p) ↔ adaptationFieldControl h / 2 % 2 = 0) := by
  have h13 := hopen.atLeast
  have hholds := holds_closeSection h13 hclose hopen.start hopen.pointer hopen.sectionNumber
  have hsec := sectionOf_closeSection h13 hclose
  refine ⟨⟨hholds.length, ?_, ?_, ?_, ?_⟩, ?_⟩
  · rw [hsec]
    exact crc32_append_crc32Long _
  · rw [currentNextIndicator, byteAt_sectionOf h13 hclose (by decide) (by decide)]
    exact hopen.current
  · rw [sectionNumber, byteAt_sectionOf h13 hclose (by decide) (by decide), hopen.sectionNumber]
    rfl
  · rw [lastSectionNumber, byteAt_sectionOf h13 hclose (by decide) (by decide),
      hopen.lastSectionNumber]
    rfl
  · rw [delivers_iff hholds, ← hopen.adaptationField, adaptationFieldControl,
      byteAt_closeSection (by decide) (by omega) hclose]
    rfl

/-- The generated packet keeps the sync byte and the scrambling control of the incoming one. -/
theorem closeSection_header (hopen : Opened h dest) (hclose : closeSection dest = .ok p) :
    byteAt p.cells 0 = byteAt h 0 ∧
      transportScramblingControl p.cells = transportScramblingControl h := by
  have h13 := hopen.atLeast
  constructor
  · rw [byteAt_closeSection (by decide) (by omega) hclose, hopen.syncByte]
  · rw [transportScramblingControl, byteAt_closeSection (by decide) (by omega) hclose]
    exact hopen.scrambling

end MuMuDVB.RewriteSection
