import MuMuDVB.T2miFrames

/-!
# Where the output of a frame comes from

The copies that `processt2` makes for a finished T2-MI packet, with the place in
`t2packet` that each is taken from. The loop ends 187 bytes before the data field
does, computed without a sign, and the end of the packet of the frame before is
copied by SYNCD alone.
-/
namespace MuMuDVB.T2miField

open CheckedMemory MuMuDVB.TsHeader MuMuDVB.T2mi

/-- A copy to the output: a sync byte, or `len` bytes of `t2packet` from `pos` on. -/
inductive Piece where
  | sync
  | data (pos len : Nat)
  deriving DecidableEq

def Piece.bytes (t : List UInt8) : Piece → List UInt8
  | .sync => [tsSyncByte]
  | .data pos len => (t.drop pos).take len

/-- What is copied, and how often the body of the loop is entered. -/
structure Trace where
  pieces : List Piece
  turns : Nat
  deriving DecidableEq

def Trace.none : Trace := ⟨[], 0⟩

/-- The places in `t2packet`, with their lengths, that are copied one after the other. -/
def ranges (pieces : List Piece) : List (Nat × Nat) :=
  pieces.filterMap fun
    | .sync => none
    | .data pos len => some (pos, len)

section trace

variable (t : List UInt8) (outputBufOffset outputBufSize : Nat)

/-- `copyPackets` and then `copyPart`. -/
def payloadTrace : Nat → Nat → Nat → Trace
  | 0, _, _ => .none
  | fuel + 1, t2CopyPos, outputBytes =>
    if t2CopyPos < usub (upl t) 187 then
      if t2packetSize - 187 < t2CopyPos ∨
          outputBufSize < uadd (uadd outputBufOffset outputBytes) tsPacketSize then ⟨[], 1⟩
      else
        let later := payloadTrace fuel (uadd t2CopyPos (187 + dnp t)) (uadd (uadd outputBytes 1) 187)
        ⟨.sync :: .data t2CopyPos 187 :: later.pieces, later.turns + 1⟩
    else if t2CopyPos < upl t then
      if t2packetSize - (usub (upl t) t2CopyPos + 1) < t2CopyPos ∨
          outputBufSize < uadd (uadd (uadd outputBufOffset outputBytes)
            (usub (upl t) t2CopyPos)) 1 then .none
      else ⟨[.sync, .data t2CopyPos (usub (upl t) t2CopyPos)], 0⟩
    else .none

/-- From the last packet boundary of the output on, after `restSize` bytes. -/
def realignedTrace (restSize : Nat) : Trace :=
  payloadTrace t outputBufOffset outputBufSize copyFuel (19 + syncd t)
    (usub restSize (uadd outputBufOffset restSize % tsPacketSize))

/-- What completes the packet before, and then the packets. -/
def restTrace (restSize : Nat) : Trace :=
  ⟨.data 19 restSize :: (realignedTrace t outputBufOffset outputBufSize restSize).pieces,
    (realignedTrace t outputBufOffset outputBufSize restSize).turns⟩

/-- The copies of `extract`. -/
def extractTrace (first : Bool) : Trace :=
  if syncd t = 0x1fff then
    if outputBufSize < uadd (uadd outputBufOffset 0) (usub (upl t) 19) then .none
    else if 19 < upl t then ⟨[.data 19 (usub (upl t) 19)], 0⟩
    else .none
  else if first = false ∧ 0 < syncd t then
    if t2packetSize - 19 < usub (syncd t) (dnp t) ∨
        outputBufSize < uadd (uadd outputBufOffset 0) (usub (syncd t) (dnp t)) then .none
    else restTrace t outputBufOffset outputBufSize (usub (syncd t) (dnp t))
  else realignedTrace t outputBufOffset outputBufSize 0

end trace

/-- The copies are from the data field, in order and each byte at most once, and the loop takes no
more turns than there are packets. -/
structure Within (t : List UInt8) (trace : Trace) : Prop where
  inside : ∀ r ∈ ranges trace.pieces, 19 ≤ r.1 ∧ r.1 + r.2 ≤ 19 + dataFieldLength t
  ordered : (ranges trace.pieces).Pairwise fun r r' => r.1 + r.2 ≤ r'.1
  turns : trace.turns ≤ dataFieldLength t / 187 + 1

/-- What is written for the frame, one block after the other: sync bytes and bytes of the data
field. -/
structure FromDataField (t : Buffer UInt8 t2packetSize) (outputBufOffset outputBufSize : Nat)
    (first : Bool) : Prop where
  written : ∃ out first', extract t outputBufOffset outputBufSize first = .ok (out, first') ∧
    out.writes.map Prod.snd =
      (extractTrace t.cells outputBufOffset outputBufSize first).pieces.map (Piece.bytes t.cells)
  within : Within t.cells (extractTrace t.cells outputBufOffset outputBufSize first)

/-- The frame starts no packet; or what completes the packet before does not fit; or that is in the
data field, and the data field is large enough for the bound of the loop, or no packet fits behind
the last packet boundary of the output. -/
def Consistent (outputBufOffset outputBufSize : Nat) (first : Bool) (t : List UInt8) : Prop :=
  let rest := restLength first t
  let boundary := uadd outputBufOffset (usub rest (uadd outputBufOffset rest % tsPacketSize))
  syncd t = 0x1fff ∨
    (first = false ∧ 0 < syncd t ∧ outputBufSize < uadd outputBufOffset rest) ∨
    (rest ≤ dataFieldLength t ∧
      (168 ≤ dataFieldLength t ∨ outputBufSize < uadd boundary tsPacketSize))

section written

variable {t : Buffer UInt8 t2packetSize} {outputBufOffset outputBufSize : Nat}

theorem writes_copy (out : Output) (bytes : List UInt8) :
    (out.copy outputBufOffset bytes).writes.map Prod.snd = out.writes.map Prod.snd ++ [bytes] := by
  rw [Output.copy, List.map_append]
  rfl

theorem zero_uadd {a : Nat} (h : a < 4294967296) : uadd 0 a = a := by
  rw [uadd_of_lt (by omega), Nat.zero_add]

theorem writes_none : Output.none.writes.map Prod.snd = [] := rfl

theorem outputBytes_realign (out : Output) : (realign outputBufOffset out).outputBytes =
    usub out.outputBytes (uadd outputBufOffset out.outputBytes % tsPacketSize) := rfl

theorem outputBytes_copy (out : Output) (bytes : List UInt8) :
    (out.copy outputBufOffset bytes).outputBytes = uadd out.outputBytes bytes.length := rfl

theorem length_of_slice {i len : Nat} {bytes : List UInt8} (h : t.slice i len = .ok bytes) :
    bytes = (t.cells.drop i).take len ∧ bytes.length = len := by
  rw [Buffer.slice] at h
  split at h
  case isTrue hin =>
    cases h
    refine ⟨rfl, ?_⟩
    rw [List.length_take, List.length_drop, t.length_cells]
    omega
  case isFalse => cases h

/-- The partial packet at the end. -/
theorem copyPart_written {pos : Nat} {out out' : Output}
    (h : copyPart t outputBufOffset outputBufSize pos out = .ok out') :
    out'.writes.map Prod.snd = out.writes.map Prod.snd ++
      (if pos < upl t.cells then
        if t2packetSize - (usub (upl t.cells) pos + 1) < pos ∨
            outputBufSize < uadd (uadd (uadd outputBufOffset out.outputBytes)
              (usub (upl t.cells) pos)) 1 then .none
        else ⟨[.sync, .data pos (usub (upl t.cells) pos)], 0⟩
      else Trace.none).pieces.map (Piece.bytes t.cells) := by
  rw [copyPart] at h
  by_cases hlt : pos < upl t.cells
  · rw [if_pos hlt] at h ⊢
    dsimp only at h
    split at h
    case isTrue hno =>
      cases h
      rw [if_pos hno]
      exact (List.append_nil _).symm
    case isFalse hroom =>
      obtain ⟨part, hpart, ⟨⟩⟩ := bind_eq_ok.mp h
      rw [if_neg hroom, writes_copy, writes_copy, (length_of_slice hpart).1, List.append_assoc]
      rfl
  · rw [if_neg hlt] at h ⊢
    cases h
    exact (List.append_nil _).symm

/-- The loop and the partial packet write the pieces of the trace. -/
theorem copyPayload_written (fuel : Nat) : ∀ {pos : Nat} {out out' : Output},
    copyPayload t outputBufOffset outputBufSize fuel pos out = .ok out' →
      out'.writes.map Prod.snd = out.writes.map Prod.snd ++
        (payloadTrace t.cells outputBufOffset outputBufSize fuel pos out.outputBytes).pieces.map
          (Piece.bytes t.cells) := by
  induction fuel with
  | zero =>
    intro pos out out' h
    cases h
  | succ fuel ih =>
    intro pos out out' h
    rw [copyPayload, copyPackets] at h
    rw [payloadTrace]
    by_cases hloop : pos < usub (upl t.cells) 187
    · rw [if_pos hloop] at h ⊢
      by_cases hfull : t2packetSize - 187 < pos ∨
          outputBufSize < uadd (uadd outputBufOffset out.outputBytes) tsPacketSize
      · rw [if_pos hfull] at h ⊢
        cases h
        exact (List.append_nil _).symm
      · rw [if_neg hfull] at h ⊢
        rw [bind_assoc] at h
        obtain ⟨packet, hpacket, h⟩ := bind_eq_ok.mp h
        obtain ⟨hbytes, hlen⟩ := length_of_slice hpacket
        have hlater := ih h
        rw [outputBytes_copy, outputBytes_copy, hlen, writes_copy, writes_copy] at hlater
        rw [hlater, hbytes]
        simp only [List.map_cons, List.append_assoc, List.singleton_append]
        rfl
    · rw [if_neg hloop] at h ⊢
      exact copyPart_written h

theorem extractTrace_noStart (first : Bool) (hsyncd : syncd t.cells = 0x1fff) :
    extractTrace t.cells outputBufOffset outputBufSize first =
      if outputBufSize < uadd outputBufOffset (dataFieldLength t.cells) ∨
          dataFieldLength t.cells = 0 then .none
      else ⟨[.data 19 (dataFieldLength t.cells)], 0⟩ := by
  have hdfl := dataFieldLength_lt t.cells
  have hmax : usub (upl t.cells) 19 = dataFieldLength t.cells := by
    rw [usub_of_le (by rw [upl]; omega) (by rw [upl]; omega), upl, Nat.add_sub_cancel]
  rw [extractTrace, if_pos hsyncd, hmax, uadd_assoc, Nat.zero_add, upl]
  by_cases hroom : outputBufSize < uadd outputBufOffset (dataFieldLength t.cells)
  · rw [if_pos hroom, if_pos (.inl hroom)]
  · by_cases hempty : dataFieldLength t.cells = 0
    · rw [if_neg hroom, if_neg (by omega), if_pos (.inr hempty)]
    · rw [if_neg hroom, if_pos (by omega), if_neg (not_or.mpr ⟨hroom, hempty⟩)]

theorem syncdSize_eq (t : List UInt8) (h : 0 < syncd t) :
    usub (syncd t) (dnp t) = syncd t - dnp t := by
  have hdnp := dnp_le t
  have hsyncd := syncd_lt t
  exact usub_of_le (by omega) (by omega)

/-- The end of the packet of the frame before, when it is looked for. -/
theorem extractTrace_rest (hsyncd : syncd t.cells ≠ 0x1fff) (hpos : 0 < syncd t.cells) :
    extractTrace t.cells outputBufOffset outputBufSize false =
      if outputBufSize < uadd outputBufOffset (syncd t.cells - dnp t.cells) then .none
      else restTrace t.cells outputBufOffset outputBufSize (syncd t.cells - dnp t.cells) := by
  have hlt := syncd_lt t.cells
  have hinside : ¬t2packetSize - 19 < syncd t.cells - dnp t.cells := by
    simp only [t2packetSize]
    omega
  rw [extractTrace, if_neg hsyncd, if_pos ⟨rfl, hpos⟩, syncdSize_eq _ hpos, uadd_assoc,
    Nat.zero_add]
  simp only [hinside, false_or]

theorem extractTrace_noRest {first : Bool} (hsyncd : syncd t.cells ≠ 0x1fff)
    (hrest : ¬(first = false ∧ 0 < syncd t.cells)) :
    extractTrace t.cells outputBufOffset outputBufSize first =
      realignedTrace t.cells outputBufOffset outputBufSize 0 := by
  rw [extractTrace, if_neg hsyncd, if_neg hrest]

theorem copyRest_rest (hpos : 0 < syncd t.cells) :
    copyRest t outputBufOffset outputBufSize false =
      if outputBufSize < uadd outputBufOffset (syncd t.cells - dnp t.cells) then .ok none
      else .ok (some (Output.none.copy outputBufOffset
        ((t.cells.drop 19).take (syncd t.cells - dnp t.cells)))) := by
  have hlt := syncd_lt t.cells
  have hinside : ¬t2packetSize - 19 < syncd t.cells - dnp t.cells := by
    simp only [t2packetSize]
    omega
  simp only [copyRest, true_and, if_pos hpos, syncdSize_eq _ hpos, hinside, false_or, uadd_assoc,
    Nat.zero_add, slice_rest, bind_ok]

/-- A frame is written as the pieces of its trace. -/
theorem extract_written (t : Buffer UInt8 t2packetSize) (outputBufOffset outputBufSize : Nat)
    (first : Bool) :
    ∃ out first', extract t outputBufOffset outputBufSize first = .ok (out, first') ∧
      out.writes.map Prod.snd =
        (extractTrace t.cells outputBufOffset outputBufSize first).pieces.map
          (Piece.bytes t.cells) := by
  obtain ⟨⟨out, first'⟩, h⟩ : ∃ out, extract t outputBufOffset outputBufSize first = .ok out :=
    extract_ok first
  refine ⟨out, first', h, ?_⟩
  by_cases hsyncd : syncd t.cells = 0x1fff
  · rw [extract_noStart first hsyncd] at h
    rw [extractTrace_noStart first hsyncd]
    split at h
    case isTrue hnone =>
      rw [if_pos hnone]
      cases h
      rfl
    case isFalse hdata =>
      rw [if_neg hdata]
      cases h
      rw [writes_copy, writes_none]
      simp only [List.map_cons, List.map_nil, List.nil_append, Piece.bytes]
  · rw [extract, if_neg hsyncd] at h
    by_cases hrest : first = false ∧ 0 < syncd t.cells
    · obtain ⟨rfl, hpos⟩ := hrest
      rw [copyRest_rest hpos] at h
      rw [extractTrace_rest hsyncd hpos]
      split at h
      case isTrue hroom =>
        rw [if_pos hroom]
        cases h
        rfl
      case isFalse hroom =>
        rw [bind_ok] at h
        obtain ⟨out', hpayload, ⟨⟩⟩ := bind_eq_ok.mp h
        have hwritten := copyPayload_written copyFuel hpayload
        have hlt := syncd_lt t.cells
        have hbytes : (Output.none.copy outputBufOffset
            ((t.cells.drop 19).take (syncd t.cells - dnp t.cells))).outputBytes =
              syncd t.cells - dnp t.cells := by
          rw [outputBytes_copy, (length_of_slice slice_rest).2]
          exact zero_uadd (by omega)
        rw [writes_realign, outputBytes_realign, writes_copy, writes_none, hbytes,
          List.nil_append] at hwritten
        rw [if_neg hroom, hwritten, restTrace, realignedTrace]
        simp only [List.map_cons, Piece.bytes, List.singleton_append]
    · rw [copyRest, if_neg hrest, bind_ok] at h
      obtain ⟨out', hpayload, ⟨⟩⟩ := bind_eq_ok.mp h
      have hwritten := copyPayload_written copyFuel hpayload
      have hnone : Output.none.outputBytes = 0 := rfl
      rw [writes_realign, outputBytes_realign, writes_none, List.nil_append] at hwritten
      rw [extractTrace_noRest hsyncd hrest, hwritten, hnone, realignedTrace]

end written

section field

variable {t : List UInt8} {outputBufOffset outputBufSize : Nat}

/-- Copies from `pos` on, in order and within the data field, and no more turns than packets. -/
structure Field (t : List UInt8) (pos : Nat) (trace : Trace) : Prop where
  inside : ∀ r ∈ ranges trace.pieces, pos ≤ r.1 ∧ r.1 + r.2 ≤ upl t
  ordered : (ranges trace.pieces).Pairwise fun r r' => r.1 + r.2 ≤ r'.1
  turns : trace.turns * 187 ≤ upl t - pos

theorem field_none (t : List UInt8) (pos : Nat) : Field t pos .none :=
  ⟨List.forall_mem_nil _, List.Pairwise.nil, Nat.le_trans (by decide) (Nat.zero_le _)⟩

theorem ranges_data (pos len : Nat) (pieces : List Piece) :
    ranges (.data pos len :: pieces) = (pos, len) :: ranges pieces := rfl

theorem ranges_sync (pieces : List Piece) : ranges (.sync :: pieces) = ranges pieces := rfl

/-- No copy goes back. -/
theorem payloadTrace_behind (fuel : Nat) : ∀ pos outputBytes, pos < 4294967296 →
    ∀ r ∈ ranges (payloadTrace t outputBufOffset outputBufSize fuel pos outputBytes).pieces,
      pos ≤ r.1 := by
  have hdnp := dnp_le t
  induction fuel with
  | zero => exact fun _ _ _ => List.forall_mem_nil _
  | succ fuel ih =>
    intro pos outputBytes hpos
    rw [payloadTrace]
    split
    case isTrue =>
      split
      case isTrue => exact List.forall_mem_nil _
      case isFalse hinside =>
        simp only [t2packetSize, not_or] at hinside
        have hnext : uadd pos (187 + dnp t) = pos + (187 + dnp t) := uadd_of_lt (by omega)
        have hlater := ih (pos + (187 + dnp t)) (uadd (uadd outputBytes 1) 187) (by omega)
        rw [hnext]
        simp only [ranges_sync, ranges_data, List.forall_mem_cons]
        refine ⟨Nat.le_refl _, fun r hr => ?_⟩
        have := hlater r hr
        omega
    case isFalse =>
      split
      case isTrue =>
        split
        · exact List.forall_mem_nil _
        · simp only [ranges_sync, ranges_data, List.forall_mem_cons]
          exact ⟨Nat.le_refl _, List.forall_mem_nil _⟩
      case isFalse => exact List.forall_mem_nil _

/-- With a data field of at least 168 bytes the loop stays in it. -/
theorem payloadTrace_field (hdfl : 168 ≤ dataFieldLength t) (fuel : Nat) :
    ∀ pos outputBytes, pos < 65612 →
      Field t pos (payloadTrace t outputBufOffset outputBufSize fuel pos outputBytes) := by
  have hupl := upl_lt t
  have hdnp := dnp_le t
  have hlarge : 187 ≤ upl t := by
    rw [upl]
    omega
  have hend : usub (upl t) 187 = upl t - 187 := usub_of_le hlarge (by omega)
  induction fuel with
  | zero => exact fun pos _ _ => field_none t pos
  | succ fuel ih =>
    intro pos outputBytes hpos
    rw [payloadTrace, hend]
    split
    case isTrue hloop =>
      split
      case isTrue =>
        refine ⟨List.forall_mem_nil _, List.Pairwise.nil, ?_⟩
        dsimp only
        omega
      case isFalse =>
        have hnext : uadd pos (187 + dnp t) = pos + (187 + dnp t) := uadd_of_lt (by omega)
        rw [hnext]
        have hlater := ih (pos + (187 + dnp t)) (uadd (uadd outputBytes 1) 187) (by omega)
        refine ⟨?_, ?_, ?_⟩
        · simp only [ranges_sync, ranges_data, List.forall_mem_cons]
          refine ⟨⟨Nat.le_refl _, by omega⟩, fun r hr => ?_⟩
          have := hlater.inside r hr
          omega
        · simp only [ranges_sync, ranges_data, List.pairwise_cons]
          refine ⟨fun r hr => ?_, hlater.ordered⟩
          have := (hlater.inside r hr).1
          omega
        · have := hlater.turns
          dsimp only
          omega
    case isFalse =>
      split
      case isTrue hlt =>
        rw [usub_of_le (Nat.le_of_lt hlt) (by omega)]
        split
        · exact field_none t pos
        · refine ⟨?_, ?_, ?_⟩
          · simp only [ranges_sync, ranges_data, List.forall_mem_cons]
            exact ⟨⟨Nat.le_refl _, by omega⟩, List.forall_mem_nil _⟩
          · exact List.pairwise_singleton _ _
          · dsimp only
            omega
      case isFalse => exact field_none t pos

/-- With less than 168 bytes the loop takes a packet from behind the data field, if there is room
for it. -/
theorem payloadTrace_short (hdfl : dataFieldLength t < 168) (fuel pos outputBytes : Nat)
    (hpos : 19 ≤ pos) (hmax : pos ≤ 65425) :
    (outputBufSize < uadd (uadd outputBufOffset outputBytes) tsPacketSize →
      payloadTrace t outputBufOffset outputBufSize (fuel + 1) pos outputBytes = ⟨[], 1⟩) ∧
    (¬outputBufSize < uadd (uadd outputBufOffset outputBytes) tsPacketSize →
      (pos, 187) ∈
        ranges (payloadTrace t outputBufOffset outputBufSize (fuel + 1) pos outputBytes).pieces ∧
      upl t < pos + 187) := by
  have hloop : pos < usub (upl t) 187 := by
    rw [usub, upl]
    omega
  have hinside : ¬t2packetSize - 187 < pos := by
    simp only [t2packetSize]
    omega
  rw [payloadTrace, if_pos hloop]
  constructor
  · intro hroom
    rw [if_pos (.inr hroom)]
  · intro hroom
    rw [if_neg (not_or.mpr ⟨hinside, hroom⟩)]
    refine ⟨List.mem_cons_self, ?_⟩
    rw [upl]
    omega

end field

section frame

variable {t : List UInt8} {outputBufOffset outputBufSize : Nat}

theorem within_none (t : List UInt8) : Within t .none :=
  ⟨List.forall_mem_nil _, List.Pairwise.nil, Nat.zero_le _⟩

/-- The packets behind `restSize` bytes. -/
theorem realignedTrace_within (restSize : Nat) :
    Within t (realignedTrace t outputBufOffset outputBufSize restSize) ↔
      168 ≤ dataFieldLength t ∨ outputBufSize < uadd (uadd outputBufOffset
        (usub restSize (uadd outputBufOffset restSize % tsPacketSize))) tsPacketSize := by
  have hlt := syncd_lt t
  have hupl : upl t = dataFieldLength t + 19 := rfl
  rw [realignedTrace]
  generalize usub restSize (uadd outputBufOffset restSize % tsPacketSize) = outputBytes
  by_cases hdfl : 168 ≤ dataFieldLength t
  · refine iff_of_true ?_ (.inl hdfl)
    have hfield := @payloadTrace_field t outputBufOffset outputBufSize hdfl copyFuel
      (19 + syncd t) outputBytes (by omega)
    refine ⟨fun r hr => ?_, hfield.ordered, ?_⟩
    · have := hfield.inside r hr
      omega
    · have := hfield.turns
      omega
  · obtain ⟨hnone, hbehind⟩ := @payloadTrace_short t outputBufOffset outputBufSize (by omega) 351
      (19 + syncd t) outputBytes (by omega) (by omega)
    rw [copyFuel, or_iff_right hdfl]
    constructor
    · intro hwithin
      by_contra hroom
      obtain ⟨hmem, hout⟩ := hbehind hroom
      have := (hwithin.inside _ hmem).2
      dsimp only at this
      omega
    · intro hroom
      rw [hnone hroom]
      exact ⟨List.forall_mem_nil _, List.Pairwise.nil, Nat.le_add_left 1 _⟩

/-- A first copy in front of all others. -/
theorem within_cons {restSize : Nat} {later : Trace}
    (hbehind : ∀ r ∈ ranges later.pieces, 19 + restSize ≤ r.1) :
    Within t ⟨.data 19 restSize :: later.pieces, later.turns⟩ ↔
      restSize ≤ dataFieldLength t ∧ Within t later := by
  constructor
  · rintro ⟨hinside, hordered, hturns⟩
    rw [ranges_data, List.forall_mem_cons] at hinside
    rw [ranges_data, List.pairwise_cons] at hordered
    exact ⟨by omega, hinside.2, hordered.2, hturns⟩
  · rintro ⟨hle, hinside, hordered, hturns⟩
    refine ⟨?_, ?_, hturns⟩
    · rw [ranges_data, List.forall_mem_cons]
      exact ⟨⟨Nat.le_refl _, by omega⟩, hinside⟩
    · rw [ranges_data, List.pairwise_cons]
      exact ⟨hbehind, hordered⟩

/-- With the end of the packet before, which is in front of what SYNCD points to. -/
theorem restTrace_within {restSize : Nat} (hrest : restSize ≤ syncd t) :
    Within t (restTrace t outputBufOffset outputBufSize restSize) ↔
      restSize ≤ dataFieldLength t ∧
        (168 ≤ dataFieldLength t ∨ outputBufSize < uadd (uadd outputBufOffset
          (usub restSize (uadd outputBufOffset restSize % tsPacketSize))) tsPacketSize) := by
  have hlt := syncd_lt t
  have hbehind : ∀ r ∈ ranges (realignedTrace t outputBufOffset outputBufSize restSize).pieces,
      19 + restSize ≤ r.1 := by
    intro r hr
    rw [realignedTrace] at hr
    have := payloadTrace_behind copyFuel _ _ (by omega) r hr
    omega
  rw [restTrace, within_cons hbehind, realignedTrace_within]

/-- What a frame gives is from its data field exactly when its header is consistent. -/
theorem extractTrace_within (t : Buffer UInt8 t2packetSize) (outputBufOffset outputBufSize : Nat)
    (first : Bool) :
    Within t.cells (extractTrace t.cells outputBufOffset outputBufSize first) ↔
      Consistent outputBufOffset outputBufSize first t.cells := by
  rw [Consistent]
  by_cases hsyncd : syncd t.cells = 0x1fff
  · refine iff_of_true ?_ (.inl hsyncd)
    rw [extractTrace_noStart first hsyncd]
    split
    · exact within_none _
    · exact ⟨by simp [ranges], List.pairwise_singleton _ _, Nat.zero_le _⟩
  · simp only [hsyncd, false_or]
    by_cases hrest : first = false ∧ 0 < syncd t.cells
    · obtain ⟨rfl, hpos⟩ := hrest
      have hlength : restLength false t.cells = syncd t.cells - dnp t.cells :=
        if_pos ⟨rfl, hpos⟩
      rw [extractTrace_rest hsyncd hpos, hlength]
      simp only [hpos, true_and]
      split
      case isTrue hroom => exact iff_of_true (within_none _) (.inl hroom)
      case isFalse hroom => rw [restTrace_within (Nat.sub_le _ _), or_iff_right hroom]
    · have hlength : restLength first t.cells = 0 := if_neg hrest
      have hnever : ¬(first = false ∧ 0 < syncd t.cells ∧
          outputBufSize < uadd outputBufOffset 0) := fun h => hrest ⟨h.1, h.2.1⟩
      rw [extractTrace_noRest hsyncd hrest, hlength, realignedTrace_within, or_iff_right hnever]
      simp only [Nat.zero_le, true_and]

end frame

/-- The frames of which only data is copied: any header, any place in the output. -/
theorem fromDataField_iff (t : Buffer UInt8 t2packetSize) (outputBufOffset outputBufSize : Nat)
    (first : Bool) :
    FromDataField t outputBufOffset outputBufSize first ↔
      Consistent outputBufOffset outputBufSize first t.cells := by
  rw [← extractTrace_within]
  exact ⟨fun h => h.within, fun h => ⟨extract_written t outputBufOffset outputBufSize first, h⟩⟩

/-- A padding frame: all its bytes are zero, so that it has no data field. -/
def paddingFrame : Buffer UInt8 t2packetSize := Buffer.fill t2packetSize 0

theorem byteAt_paddingFrame (i : Nat) : byteAt paddingFrame.cells i = 0 := by
  rw [byteAt, paddingFrame, Buffer.fill, List.getD_eq_getElem?_getD, List.getElem?_replicate]
  split <;> rfl

/-- The packets behind its header are copied to the output. -/
theorem not_fromDataField_padding : ¬FromDataField paddingFrame 0 65612 true := by
  intro h
  have hconsistent := (extractTrace_within _ _ _ _).mp h.within
  simp only [Consistent, restLength, syncd, dataFieldLength, byteAt_paddingFrame] at hconsistent
  revert hconsistent
  decide

end MuMuDVB.T2miField
