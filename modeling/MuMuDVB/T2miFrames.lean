import MuMuDVB.T2miCollect
import MuMuDVB.UserPackets

/-!
# One baseband frame

What `processt2` makes of a finished T2-MI packet with a baseband frame in high
efficiency mode: the end of the user packet that the frame before left
incomplete, and the user packets from SYNCD on behind their sync bytes.
-/
namespace MuMuDVB.T2miFrames

open CheckedMemory MuMuDVB.TsHeader MuMuDVB.T2mi MuMuDVB.T2miCollect UserPackets

/-- The output buffer after some writes. -/
def applyWrites (mem : List UInt8) (writes : List (Nat × List UInt8)) : List UInt8 :=
  writes.foldl (fun mem w => splice mem w.1 w.2) mem

/-- What was written is `xs`, from `output_buf_offset` on. -/
structure Emits (outputBufOffset : Nat) (out : Output) (xs : List UInt8) : Prop where
  bytes : out.outputBytes = xs.length
  memory : ∀ mem, outputBufOffset + xs.length ≤ mem.length →
    applyWrites mem out.writes = splice mem outputBufOffset xs

/-- The data field of a baseband frame in a T2-MI packet. -/
def dataField (f : List UInt8) : List UInt8 :=
  (f.drop 19).take (hilo (byteAt f 13).toNat (byteAt f 14).toNat / 8)

/-- A T2-MI packet with a baseband frame of the PLP: with null packet deletion or without it, and
with a data field in which the first user packet that starts is at `next`. -/
structure IsFrame (plpId : UInt8) (npd : Bool) (next : Nat) (f : List UInt8) : Prop where
  packetType : f.head? = some 0x00
  plp : byteAt f 7 = plpId
  npd : byteAt f 9 &&& 0x4 ≠ 0 ↔ npd = true
  dfl : hilo (byteAt f 13).toNat (byteAt f 14).toNat = 8 * (dataField f).length
  sync : hilo (byteAt f 16).toNat (byteAt f 17).toNat = 8 * next
  atLeast : 188 ≤ (dataField f).length
  atMost : f.length ≤ t2packetSize

section emits

variable {outputBufOffset outputBufSize : Nat} {out : Output} {xs ys : List UInt8}

theorem emits_none : Emits outputBufOffset .none [] :=
  ⟨rfl, fun mem _ => (splice_nil mem outputBufOffset).symm⟩

theorem Emits.copy (h : Emits outputBufOffset out xs) (hlen : xs.length + ys.length < 4294967296) :
    Emits outputBufOffset (out.copy outputBufOffset ys) (xs ++ ys) := by
  refine ⟨?_, fun mem hmem => ?_⟩
  · change uadd out.outputBytes ys.length = _
    rw [h.bytes, uadd_of_lt hlen, List.length_append]
  · rw [List.length_append] at hmem
    change applyWrites mem (out.writes ++ [(outputBufOffset + out.outputBytes, ys)]) = _
    have hmemory := h.memory mem (by omega)
    rw [applyWrites] at hmemory ⊢
    rw [List.foldl_append, hmemory, h.bytes]
    exact splice_splice (by omega)

/-- Packets that all fit are all written. -/
theorem Emits.emit {cs : List (List UInt8)} (h : Emits outputBufOffset out xs)
    (hroom : outputBufOffset + xs.length + (cs.flatMap (tsSyncByte :: ·)).length ≤ outputBufSize)
    (hS : outputBufSize < 4294967296) :
    Emits outputBufOffset (T2mi.emit outputBufOffset outputBufSize out cs)
      (xs ++ cs.flatMap (tsSyncByte :: ·)) := by
  induction cs generalizing out xs with
  | nil => simpa [T2mi.emit] using h
  | cons c cs ih =>
    rw [List.flatMap_cons, List.length_append, List.length_cons] at hroom
    have hfits : ¬ outputBufSize < uadd (uadd outputBufOffset out.outputBytes) (c.length + 1) := by
      have hoffset : uadd outputBufOffset xs.length = outputBufOffset + xs.length :=
        uadd_of_lt (by omega)
      rw [h.bytes, hoffset, uadd_of_lt (by omega)]
      omega
    have hcopied : Emits outputBufOffset
        ((out.copy outputBufOffset [tsSyncByte]).copy outputBufOffset c)
        (xs ++ [tsSyncByte] ++ c) :=
      (h.copy (by simp only [List.length_singleton]; omega)).copy
        (by simp only [List.length_append, List.length_singleton]; omega)
    rw [T2mi.emit, if_neg hfits]
    have hrest := ih hcopied
      (by simp only [List.length_append, List.length_singleton]; omega)
    simpa only [List.flatMap_cons, List.append_assoc, List.cons_append, List.nil_append]
      using hrest

end emits

section frame

variable {outputBufOffset outputBufSize next : Nat} {plpId : UInt8} {npd first : Bool}
  {f : List UInt8} {t : Buffer UInt8 t2packetSize}

theorem byteAt_of_take (ht : t.cells.take f.length = f) {i : Nat} (hi : i < f.length) :
    byteAt t.cells i = byteAt f i := by
  rw [← byteAt_take hi, ht]

/-- The data field of a frame is inside the T2-MI packet. -/
theorem IsFrame.inside (h : IsFrame plpId npd next f) : 19 + (dataField f).length ≤ f.length := by
  have := h.atLeast
  rw [dataField, List.length_take, List.length_drop] at this ⊢
  omega

/-- The header of the T2-MI packet, as the source reads it. -/
theorem IsFrame.header (h : IsFrame plpId npd next f) (ht : t.cells.take f.length = f) :
    dataFieldLength t.cells = (dataField f).length ∧ syncd t.cells = next ∧
      dnp t.cells = npd.toNat ∧ byteAt t.cells 7 = plpId := by
  have hlen := h.inside
  have hatLeast := h.atLeast
  have hbyte : ∀ i, i < 19 → byteAt t.cells i = byteAt f i := fun i hi =>
    byteAt_of_take ht (by omega)
  refine ⟨?_, ?_, ?_, ?_⟩
  · rw [dataFieldLength, hbyte 13 (by omega), hbyte 14 (by omega), h.dfl]
    omega
  · rw [syncd, hbyte 16 (by omega), hbyte 17 (by omega), h.sync]
    omega
  · rw [dnp, hbyte 9 (by omega)]
    cases hnpd : npd with
    | false => rw [if_neg fun hbit => by simp [h.npd.mp hbit] at hnpd]; rfl
    | true => rw [if_pos (h.npd.mpr hnpd)]; rfl
  · rw [hbyte 7 (by omega), h.plp]

/-- A block of the data field, where `t2packet` has it. -/
theorem take_drop_dataField (h : IsFrame plpId npd next f) (ht : t.cells.take f.length = f)
    {k m : Nat} (hk : k + m ≤ (dataField f).length) :
    (t.cells.drop (19 + k)).take m = ((dataField f).drop k).take m := by
  have hinside := h.inside
  have hlen : hilo (byteAt f 13).toNat (byteAt f 14).toNat / 8 = (dataField f).length := by
    rw [h.dfl]
    omega
  have hfield : dataField f = (f.drop 19).take (dataField f).length := by
    rw [← hlen]
    rfl
  rw [hfield, List.drop_take, List.take_take, List.drop_drop, Nat.min_eq_left (by omega)]
  calc (t.cells.drop (19 + k)).take m
      = ((t.cells.take f.length).drop (19 + k)).take m := by
        rw [List.drop_take, List.take_take, Nat.min_eq_left (by omega)]
    _ = (f.drop (19 + k)).take m := by rw [ht]

/-- The packets of the data field from `k` on are those that the stream from there on has. -/
theorem chunks_eq_cut (h : IsFrame plpId npd next f) (ht : t.cells.take f.length = f)
    (fuel k : Nat) (hk : k ≤ (dataField f).length) (hfuel : 65613 < 19 + k + fuel * 187) :
    chunks t.cells fuel (19 + k) = cut 187 npd.toNat ((dataField f).drop k) := by
  obtain ⟨hdfl, -, hdnp, -⟩ := h.header ht
  have hatLeast := h.atLeast
  have hlt := dataFieldLength_lt t.cells
  have hupl : upl t.cells = 19 + (dataField f).length := by rw [upl, hdfl, Nat.add_comm]
  have hend : usub (upl t.cells) 187 = (dataField f).length - 168 := by
    rw [usub_of_le (by omega) (by omega), hupl]
    omega
  have hgap : npd.toNat ≤ 1 := Bool.toNat_le npd
  induction fuel generalizing k with
  | zero => omega
  | succ fuel ih =>
    rw [chunks, hend, hupl]
    by_cases hfull : k + 188 ≤ (dataField f).length
    case pos =>
      have hne : (dataField f).drop k ≠ [] :=
        List.ne_nil_of_length_pos (by rw [List.length_drop]; omega)
      rw [if_pos (by omega), if_neg (by simp only [t2packetSize]; omega),
        take_drop_dataField h ht (by omega), hdnp, Nat.add_assoc,
        ih (k + (187 + npd.toNat)) (by omega) (by omega), cut_of_ne (by decide) hne, List.drop_drop]
    case neg =>
      rw [if_neg (by omega)]
      by_cases hpart : k < (dataField f).length
      case pos =>
        have hlen : ((dataField f).drop k).length = (dataField f).length - k := List.length_drop
        have hne : (dataField f).drop k ≠ [] := List.ne_nil_of_length_pos (by omega)
        have hpacket : ((dataField f).drop k).take 187 = (dataField f).drop k :=
          List.take_of_length_le (by omega)
        have hnone : ((dataField f).drop k).drop (187 + npd.toNat) = [] :=
          List.drop_of_length_le (by omega)
        rw [if_pos (by omega), take_drop_dataField h ht (by omega), cut_of_ne (by decide) hne,
          hpacket, hnone, cut_nil, List.take_of_length_le (by omega)]
      case neg =>
        rw [if_neg (by omega), List.drop_of_length_le (by omega), cut_nil]

/-- What completes the user packet that the frame before left incomplete. -/
def completion (npd first : Bool) (next : Nat) (f : List UInt8) : List UInt8 :=
  if first then [] else (dataField f).take (next - npd.toNat)

theorem emits_restCopied (h : IsFrame plpId npd next f) (ht : t.cells.take f.length = f)
    (hnext : next < 188) :
    Emits outputBufOffset (restCopied outputBufOffset first t.cells)
      (completion npd first next f) := by
  obtain ⟨-, hsyncd, hdnp, -⟩ := h.header ht
  have hatLeast := h.atLeast
  rw [restCopied, hsyncd, hdnp, completion]
  cases first with
  | true => exact emits_none
  | false =>
    by_cases hzero : 0 < next
    case neg =>
      have hnone : next - npd.toNat = 0 := by omega
      rw [if_neg (by simp [hzero]), hnone]
      exact emits_none
    case pos =>
      have hfield : (t.cells.drop 19).take (next - npd.toNat) =
          (dataField f).take (next - npd.toNat) :=
        take_drop_dataField (k := 0) h ht (by omega)
      rw [if_pos ⟨rfl, hzero⟩, hfield]
      refine emits_none.copy ?_
      rw [List.length_nil, List.length_take]
      omega

/-- A frame gives the rest of the last user packet and the packets from SYNCD on, if the rest ends
at a packet boundary of the output. -/
theorem extractPlp_frame (h : IsFrame plpId npd next f) (ht : t.cells.take f.length = f)
    (hplp : plpId < 128) (hnext : next < 188)
    (haligned : (outputBufOffset + (completion npd first next f).length) % 188 = 0)
    (hroom : outputBufOffset + (completion npd first next f).length +
      (marked tsSyncByte 187 npd.toNat ((dataField f).drop next)).length ≤ outputBufSize)
    (hS : outputBufSize < 4294967296) :
    ∃ out, extractPlp t outputBufOffset outputBufSize plpId first = .ok (out, false) ∧
      Emits outputBufOffset out (completion npd first next f ++
        marked tsSyncByte 187 npd.toNat ((dataField f).drop next)) := by
  obtain ⟨hdfl, hsyncd, hdnp, hbyte⟩ := h.header ht
  have hatLeast := h.atLeast
  have hgap : npd.toNat ≤ 1 := Bool.toNat_le npd
  have hsame : samePlp t.cells plpId = true := by
    rw [samePlp, hbyte]
    simpa using hplp
  have hlength : restLength first t.cells = (completion npd first next f).length := by
    rw [restLength, hsyncd, hdnp, completion]
    cases first with
    | true => simp
    | false =>
      simp only [true_and, Bool.false_eq_true, ↓reduceIte, List.length_take]
      split <;> omega
  have hrest : Emits outputBufOffset (restCopied outputBufOffset first t.cells)
    (completion npd first next f) := emits_restCopied h ht hnext
  have hfuel : 65613 < 19 + next + copyFuel * 187 := by
    simp only [copyFuel]
    omega
  have hrealign : realign outputBufOffset (restCopied outputBufOffset first t.cells) =
      restCopied outputBufOffset first t.cells := by
    refine realign_aligned ?_ (by rw [hrest.bytes]; omega)
    rw [hrest.bytes, uadd_of_lt (by omega), haligned]
  have hfits : ¬ outputBufSize < uadd outputBufOffset (restLength first t.cells) := by
    rw [hlength, uadd_of_lt (by omega)]
    omega
  rw [extractPlp, if_pos hsame, extract_eq first (by omega) (by omega) hS, if_neg hfits, hrealign,
    hsyncd, chunks_eq_cut h ht copyFuel next (by omega) hfuel]
  exact ⟨_, rfl, hrest.emit hroom hS⟩

end frame

/-! A frame of 188 bytes, all of them zero. -/

section nullFrame

def nullHeader (syncdHigh syncdLow : UInt8) : List UInt8 :=
  [0, 0, 0, 0, 0, 0, 0, 0, 0, 0, 0, 0, 0, 0x05, 0xe0, 0, syncdHigh, syncdLow, 0]

def nullFrame (syncdHigh syncdLow : UInt8) : List UInt8 :=
  nullHeader syncdHigh syncdLow ++ List.replicate 188 0

variable (a b : UInt8)

theorem length_nullFrame : (nullFrame a b).length = 207 := by
  rw [nullFrame, List.length_append, List.length_replicate]
  rfl

theorem dataField_nullFrame : dataField (nullFrame a b) = List.replicate 188 0 := by
  have hhigh : byteAt (nullFrame a b) 13 = 0x05 := rfl
  have hlow : byteAt (nullFrame a b) 14 = 0xe0 := rfl
  have hdfl : hilo (0x05 : UInt8).toNat (0xe0 : UInt8).toNat / 8 = 188 := by decide
  rw [dataField, hhigh, hlow, hdfl, nullFrame,
    List.drop_left' (show (nullHeader a b).length = 19 from rfl)]
  exact List.take_of_length_le (Nat.le_of_eq List.length_replicate)

theorem isFrame_nullFrame {next : Nat} (h : hilo a.toNat b.toNat = 8 * next) :
    IsFrame 0 false next (nullFrame a b) where
  packetType := rfl
  plp := rfl
  npd := by
    have hmatype : byteAt (nullFrame a b) 9 = 0 := rfl
    rw [hmatype]
    decide
  dfl := by
    have hhigh : byteAt (nullFrame a b) 13 = 0x05 := rfl
    have hlow : byteAt (nullFrame a b) 14 = 0xe0 := rfl
    rw [dataField_nullFrame, List.length_replicate, hhigh, hlow]
    decide
  sync := h
  atLeast := Nat.le_of_eq (by rw [dataField_nullFrame, List.length_replicate])
  atMost := by
    rw [length_nullFrame]
    decide

/-- The payload in which a frame starts. -/
def startPayload : List UInt8 :=
  UInt8.ofNat ([] : List UInt8).length :: ([] ++ (nullFrame a b).take 183)

/-- The payload in which a frame ends, after `k` bytes of it, and the next one starts. -/
def endPayload (k : Nat) (next : List UInt8) : List UInt8 :=
  UInt8.ofNat ((nullFrame a b).drop k).length :: ((nullFrame a b).drop k ++ next.take (k - 24))

theorem length_startPayload : (startPayload a b).length = 184 := by
  simp [startPayload, length_nullFrame]

theorem length_endPayload {k : Nat} (hk : 24 ≤ k) (hk' : k ≤ 207) (c d : UInt8) :
    (endPayload a b k (nullFrame c d)).length = 184 := by
  simp [endPayload, length_nullFrame]
  omega

end nullFrame

end MuMuDVB.T2miFrames
