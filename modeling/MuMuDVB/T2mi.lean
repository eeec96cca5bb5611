import MuMuDVB.TsHeader

/-!
# T2-MI decapsulation

`processt2` collects a T2-MI packet from the payloads of TS packets, and copies
the user packets of a finished one to the output buffer. The input is what
stands in memory from the TS packet on; a call keeps a record of what it reads
there and of what it writes to the output buffer. `unsigned int` arithmetic is
written out, and `output_buf + output_bytes` is an address: there is no wrap
around in it. The log messages are left out.
-/
namespace MuMuDVB.T2mi

open CheckedMemory MuMuDVB.TsHeader

/-- `sizeof(t2packet)`. -/
@[simp] abbrev t2packetSize : Nat := 65612

/-- `TS_SYNC_BYTE`. -/
def tsSyncByte : UInt8 := 0x47

def uadd (a b : Nat) : Nat := (a + b) % 4294967296

def usub (a b : Nat) : Nat := (a + 4294967296 - b) % 4294967296

/-- `t2packet`, `t2packetpos`, `t2mi_active` and `t2mi_first`. -/
structure T2State where
  t2packet : Buffer UInt8 t2packetSize
  t2packetpos : Nat
  active : Bool
  first : Bool
  deriving DecidableEq

def initial : T2State := ⟨Buffer.fill _ 0, 0, false, true⟩

/-- `output_bytes`, and the blocks written so far with their indices in the output buffer. -/
structure Output where
  outputBytes : Nat
  writes : List (Nat × List UInt8)
  deriving DecidableEq

def Output.none : Output := ⟨0, []⟩

/-- The returned `int`. -/
def Output.count (out : Output) : Int :=
  if out.outputBytes < 2147483648 then out.outputBytes else (out.outputBytes : Int) - 4294967296

/-- Copy a block behind `output_bytes`. -/
def Output.copy (outputBufOffset : Nat) (out : Output) (bytes : List UInt8) : Output where
  outputBytes := uadd out.outputBytes bytes.length
  writes := out.writes ++ [(outputBufOffset + out.outputBytes, bytes)]

/-- What a call leaves, reads (index in the TS packet and length) and writes. -/
structure Call where
  state : T2State
  reads : List (Nat × Nat)
  output : Output
  deriving DecidableEq


section header

variable (t : List UInt8)

/-- `t2packet[7]==plpId`: a `char` is signed, a `uint8_t` is not. -/
def samePlp (plpId : UInt8) : Bool := byteAt t 7 < 128 ∧ byteAt t 7 = plpId

/-- SYNCD, in bytes. -/
def syncd : Nat := hilo (byteAt t 16).toNat (byteAt t 17).toNat / 8

/-- DFL, in bytes. -/
def dataFieldLength : Nat := hilo (byteAt t 13).toNat (byteAt t 14).toNat / 8

/-- Where the data field ends. -/
def upl : Nat := dataFieldLength t + 19

/-- The length of what stands for deleted null packets. -/
def dnp : Nat := if byteAt t 9 &&& 0x4 ≠ 0 then 1 else 0

end header

section extract

variable (t2packet : Buffer UInt8 t2packetSize) (outputBufOffset outputBufSize : Nat)

/-- The loop over the full packets: what it wrote, and `t2_copy_pos`, or nothing after
`goto t2_copy_end`. -/
def copyPackets : Nat → Nat → Output → Checked (Output × Option Nat)
  | 0, _, _ => .error .endless
  | fuel + 1, t2CopyPos, out =>
    if t2CopyPos < usub (upl t2packet.cells) 187 then
      if t2packetSize - 187 < t2CopyPos ∨
          outputBufSize < uadd (uadd outputBufOffset out.outputBytes) tsPacketSize then
        .ok (out, none)
      else do
        let packet ← t2packet.slice t2CopyPos 187
        copyPackets fuel (uadd t2CopyPos (187 + dnp t2packet.cells))
          ((out.copy outputBufOffset [tsSyncByte]).copy outputBufOffset packet)
    else .ok (out, some t2CopyPos)

/-- The partial packet at the end of the data field. -/
def copyPart (t2CopyPos : Nat) (out : Output) : Checked Output :=
  if t2CopyPos < upl t2packet.cells then
    let partSize := usub (upl t2packet.cells) t2CopyPos
    if t2packetSize - (partSize + 1) < t2CopyPos ∨
        outputBufSize < uadd (uadd (uadd outputBufOffset out.outputBytes) partSize) 1 then
      .ok out
    else do
      let part ← t2packet.slice t2CopyPos partSize
      .ok ((out.copy outputBufOffset [tsSyncByte]).copy outputBufOffset part)
  else .ok out

/-- The rest of the packet that the frame before left incomplete; nothing on a jump. -/
def copyRest (first : Bool) : Checked (Option Output) :=
  if first = false ∧ 0 < syncd t2packet.cells then
    let syncdSize := usub (syncd t2packet.cells) (dnp t2packet.cells)
    if t2packetSize - 19 < syncdSize ∨ outputBufSize < uadd (uadd outputBufOffset 0) syncdSize then
      .ok none
    else do
      let rest ← t2packet.slice 19 syncdSize
      .ok (some (Output.none.copy outputBufOffset rest))
  else .ok (some .none)

/-- `output_bytes -= output_part`. -/
def realign (out : Output) : Output :=
  { out with
    outputBytes := usub out.outputBytes (uadd outputBufOffset out.outputBytes % tsPacketSize) }

/-- The loop and the partial packet, from `t2_copy_pos` on. -/
def copyPayload (fuel t2CopyPos : Nat) (out : Output) : Checked Output := do
  match ← copyPackets t2packet outputBufOffset outputBufSize fuel t2CopyPos out with
  | (out, none) => .ok out
  | (out, some t2CopyPos) => copyPart t2packet outputBufOffset outputBufSize t2CopyPos out

theorem writes_mk (outputBytes : Nat) (writes : List (Nat × List UInt8)) :
    (Output.mk outputBytes writes).writes = writes := rfl

theorem writes_realign (out : Output) : (realign outputBufOffset out).writes = out.writes :=
  writes_mk _ _

/-- More than enough: a turn of the loop takes 187 bytes of `t2packet`. -/
def copyFuel : Nat := 352

/-- The user packets of a finished T2-MI packet, and the new `t2mi_first`. -/
def extract (first : Bool) : Checked (Output × Bool) :=
  if syncd t2packet.cells = 0x1fff then
    let maxsync := usub (upl t2packet.cells) 19
    if outputBufSize < uadd (uadd outputBufOffset 0) maxsync then .ok (.none, first)
    else if 19 < upl t2packet.cells then do
      let rest ← t2packet.slice 19 maxsync
      .ok (Output.none.copy outputBufOffset rest, first)
    else .ok (.none, first)
  else do
    match ← copyRest t2packet outputBufOffset outputBufSize first with
    | none => .ok (.none, first)
    | some out => do
      let out ← copyPayload t2packet outputBufOffset outputBufSize copyFuel
        (19 + syncd t2packet.cells) (realign outputBufOffset out)
      .ok (out, false)

end extract

section input

variable (input : Nat → UInt8)

def block (i len : Nat) : List UInt8 := (List.range len).map fun j => input (i + j)

/-- The adaptation field control. -/
def adaptationField : UInt8 := (input 3 &&& 0x30) >>> 4

/-- The length of the adaptation field; nothing when the packet is left aside. -/
def payloadStartOffset : Option Nat :=
  if adaptationField input = 0x03 then
    if 183 < (input 4).toNat + 1 then none else some ((input 4).toNat + 1)
  else if adaptationField input = 0x02 then none
  else some 0

def adaptationReads : List (Nat × Nat) :=
  if adaptationField input = 0x03 then [(3, 1), (4, 1)] else [(3, 1)]

def payloadUnitStart : Bool := (input 1 &&& 0x40) >>> 4 = 0x04

/-- The T2-MI packet that starts at `buf[offset]`, if it is a baseband frame. -/
def startPacket (buf len offset : Nat) (s : T2State) : Checked (T2State × List (Nat × Nat)) :=
  if input (buf + offset) = 0 ∧ offset < len then do
    let t2packet ← s.t2packet.write 0 (block input (buf + offset) (len - offset))
    .ok ({ s with t2packet := t2packet, t2packetpos := len - offset, active := true },
      [(buf + offset, 1), (buf + offset, len - offset)])
  else .ok (s, [(buf + offset, 1)])

/-- The end of the open T2-MI packet: `offset-1` more bytes of it. -/
def collectEnd (buf offset : Nat) (s : T2State) : Checked (Buffer UInt8 t2packetSize) :=
  if 1 < offset then s.t2packet.write s.t2packetpos (block input (buf + 1) (offset - 1))
  else .ok s.t2packet

/-- The user packets of the selected PLP. -/
def extractPlp (t2packet : Buffer UInt8 t2packetSize) (outputBufOffset outputBufSize : Nat)
    (plpId : UInt8) (first : Bool) : Checked (Output × Bool) :=
  if samePlp t2packet.cells plpId then extract t2packet outputBufOffset outputBufSize first
  else .ok (.none, first)

def endPacket (outputBufOffset outputBufSize : Nat) (plpId : UInt8) (buf offset : Nat)
    (s : T2State) : Checked (T2State × Output) := do
  let t2packet ← collectEnd input buf offset s
  let (out, first) ← extractPlp t2packet outputBufOffset outputBufSize plpId s.first
  .ok (⟨Buffer.fill _ 0, s.t2packetpos, false, first⟩, out)

def processt2 (outputBufOffset outputBufSize : Nat) (plpId : UInt8) (s : T2State) :
    Checked Call :=
  match payloadStartOffset input with
  | none => .ok ⟨s, adaptationReads input, .none⟩
  | some payloadStart =>
    let buf := 4 + payloadStart
    let len := 188 - 4 - payloadStart
    let reads := adaptationReads input ++ [(1, 1)]
    if payloadUnitStart input then
      let offset := 1 + (input buf).toNat
      let reads := reads ++ [(buf, 1)]
      if s.active then
        if 184 ≤ offset then .ok ⟨s, reads, .none⟩
        else do
          let (s, out) ← endPacket input outputBufOffset outputBufSize plpId buf offset s
          let (s, more) ← startPacket input buf len offset s
          .ok ⟨s, reads ++ (buf + 1, offset - 1) :: more, out⟩
      else do
        let (s, more) ← startPacket input buf len offset s
        .ok ⟨s, reads ++ more, .none⟩
    else if s.active then do
      let t2packet ← s.t2packet.write s.t2packetpos (block input buf len)
      .ok ⟨{ s with t2packet := t2packet, t2packetpos := s.t2packetpos + len },
        reads ++ [(buf, len)], .none⟩
    else .ok ⟨s, reads, .none⟩

end input

section call

/-- The ways a call returns: it leaves the packet aside, starts a T2-MI packet, ends one and starts
the next, or collects more of one. -/
inductive Returns (input : Nat → UInt8) (outputBufOffset outputBufSize : Nat) (plpId : UInt8)
    (s : T2State) : Call → Prop where
  | aside {reads : List (Nat × Nat)}
      (haside : ∀ payloadStart, payloadStartOffset input = some payloadStart →
        payloadUnitStart input = true → s.active = true →
          184 ≤ 1 + (input (4 + payloadStart)).toNat) :
      Returns input outputBufOffset outputBufSize plpId s ⟨s, reads, .none⟩
  | starts {payloadStart : Nat} {s' : T2State} {reads more : List (Nat × Nat)}
      (hpayload : payloadStartOffset input = some payloadStart) (hactive : s.active = false)
      (hstart : startPacket input (4 + payloadStart) (188 - 4 - payloadStart)
        (1 + (input (4 + payloadStart)).toNat) s = .ok (s', more)) :
      Returns input outputBufOffset outputBufSize plpId s ⟨s', reads, .none⟩
  | ends {payloadStart : Nat} {s₁ s' : T2State} {reads more : List (Nat × Nat)} {out : Output}
      (hpayload : payloadStartOffset input = some payloadStart)
      (hunit : payloadUnitStart input = true) (hactive : s.active = true)
      (hpointer : 1 + (input (4 + payloadStart)).toNat < 184)
      (hend : endPacket input outputBufOffset outputBufSize plpId (4 + payloadStart)
        (1 + (input (4 + payloadStart)).toNat) s = .ok (s₁, out))
      (hstart : startPacket input (4 + payloadStart) (188 - 4 - payloadStart)
        (1 + (input (4 + payloadStart)).toNat) s₁ = .ok (s', more)) :
      Returns input outputBufOffset outputBufSize plpId s ⟨s', reads, out⟩
  | continues {payloadStart : Nat} {t : Buffer UInt8 t2packetSize} {reads : List (Nat × Nat)}
      (hpayload : payloadStartOffset input = some payloadStart)
      (hunit : payloadUnitStart input = false) (hactive : s.active = true)
      (hwrite : s.t2packet.write s.t2packetpos
        (block input (4 + payloadStart) (188 - 4 - payloadStart)) = .ok t) :
      Returns input outputBufOffset outputBufSize plpId s
        ⟨{ s with t2packet := t, t2packetpos := s.t2packetpos + (188 - 4 - payloadStart) },
          reads, .none⟩

theorem processt2_returns {input : Nat → UInt8} {outputBufOffset outputBufSize : Nat}
    {plpId : UInt8} {s : T2State} {r : Call}
    (h : processt2 input outputBufOffset outputBufSize plpId s = .ok r) :
    Returns input outputBufOffset outputBufSize plpId s r := by
  rw [processt2] at h
  cases hpayload : payloadStartOffset input with
  | none =>
    simp only [hpayload] at h
    cases h
    exact .aside (by simp [hpayload])
  | some payloadStart =>
    simp only [hpayload] at h
    split at h
    case isTrue hunit =>
      split at h
      case isTrue hactive =>
        split at h
        case isTrue hpointer =>
          cases h
          refine .aside fun start hstart _ _ => ?_
          cases hpayload.symm.trans hstart
          exact hpointer
        case isFalse hpointer =>
          obtain ⟨⟨s₁, out⟩, hs₁, h⟩ := bind_eq_ok.mp h
          obtain ⟨⟨s', more⟩, hs', ⟨⟩⟩ := bind_eq_ok.mp h
          exact .ends hpayload hunit hactive (by omega) hs₁ hs'
      case isFalse hactive =>
        obtain ⟨⟨s', more⟩, hs', ⟨⟩⟩ := bind_eq_ok.mp h
        exact .starts hpayload (by simpa using hactive) hs'
    case isFalse hunit =>
      split at h
      case isTrue hactive =>
        obtain ⟨t, ht, ⟨⟩⟩ := bind_eq_ok.mp h
        exact .continues hpayload (by simpa using hunit) hactive ht
      case isFalse =>
        cases h
        exact .aside fun _ _ hstart => absurd hstart hunit

variable {input : Nat → UInt8} {outputBufOffset outputBufSize payloadStart : Nat} {plpId : UInt8}
  {s s₁ s' : T2State} {more : List (Nat × Nat)}

/-- A packet without payload, or with an adaptation field that is too long. -/
theorem processt2_aside (hpayload : payloadStartOffset input = none) :
    processt2 input outputBufOffset outputBufSize plpId s =
      .ok ⟨s, adaptationReads input, .none⟩ := by
  rw [processt2, hpayload]

/-- A packet that goes on with a T2-MI packet of which the start was missed. -/
theorem processt2_missed (hpayload : payloadStartOffset input = some payloadStart)
    (hunit : payloadUnitStart input = false) (hactive : s.active = false) :
    processt2 input outputBufOffset outputBufSize plpId s =
      .ok ⟨s, adaptationReads input ++ [(1, 1)], .none⟩ := by
  rw [processt2, hpayload]
  simp only [hunit, Bool.false_eq_true, ↓reduceIte, hactive]

theorem processt2_starts (hpayload : payloadStartOffset input = some payloadStart)
    (hunit : payloadUnitStart input = true) (hactive : s.active = false)
    (hstart : startPacket input (4 + payloadStart) (188 - 4 - payloadStart)
      (1 + (input (4 + payloadStart)).toNat) s = .ok (s', more)) :
    ∃ reads, processt2 input outputBufOffset outputBufSize plpId s = .ok ⟨s', reads, .none⟩ := by
  rw [processt2, hpayload]
  simp only [hunit, hactive, Bool.false_eq_true, ↓reduceIte, hstart, bind_ok]
  exact ⟨_, rfl⟩

theorem processt2_ends {out : Output} (hpayload : payloadStartOffset input = some payloadStart)
    (hunit : payloadUnitStart input = true) (hactive : s.active = true)
    (hpointer : 1 + (input (4 + payloadStart)).toNat < 184)
    (hend : endPacket input outputBufOffset outputBufSize plpId (4 + payloadStart)
      (1 + (input (4 + payloadStart)).toNat) s = .ok (s₁, out))
    (hstart : startPacket input (4 + payloadStart) (188 - 4 - payloadStart)
      (1 + (input (4 + payloadStart)).toNat) s₁ = .ok (s', more)) :
    ∃ reads, processt2 input outputBufOffset outputBufSize plpId s = .ok ⟨s', reads, out⟩ := by
  rw [processt2, hpayload]
  simp only [hunit, hactive, ↓reduceIte, if_neg (Nat.not_le.mpr hpointer), hend, hstart, bind_ok]
  exact ⟨_, rfl⟩

theorem processt2_continues {t : Buffer UInt8 t2packetSize}
    (hpayload : payloadStartOffset input = some payloadStart)
    (hunit : payloadUnitStart input = false) (hactive : s.active = true)
    (hwrite : s.t2packet.write s.t2packetpos
      (block input (4 + payloadStart) (188 - 4 - payloadStart)) = .ok t) :
    ∃ reads, processt2 input outputBufOffset outputBufSize plpId s =
      .ok ⟨{ s with t2packet := t, t2packetpos := s.t2packetpos + (188 - 4 - payloadStart) },
        reads, .none⟩ := by
  rw [processt2, hpayload]
  simp only [hunit, Bool.false_eq_true, ↓reduceIte, if_pos hactive, hwrite, bind_ok]
  exact ⟨_, rfl⟩

end call

section copies

variable {t2packet : Buffer UInt8 t2packetSize} {outputBufOffset outputBufSize : Nat}

theorem uadd_of_lt {a b : Nat} (h : a + b < 4294967296) : uadd a b = a + b := Nat.mod_eq_of_lt h

theorem usub_of_le {a b : Nat} (h : b ≤ a) (ha : a < 4294967296) : usub a b = a - b := by
  rw [usub]
  omega

/-- An output that ends at a packet boundary stays as it is. -/
theorem realign_aligned {out : Output} (h : uadd outputBufOffset out.outputBytes % 188 = 0)
    (hlt : out.outputBytes < 4294967296) : realign outputBufOffset out = out := by
  cases out with
  | mk outputBytes writes =>
    have hsame : usub outputBytes 0 = outputBytes := usub_of_le (Nat.zero_le _) hlt
    simp only [realign, tsPacketSize, h, hsame]

theorem uadd_assoc (a b c : Nat) : uadd (uadd a b) c = uadd a (b + c) := by
  simp only [uadd]
  omega

theorem hilo_toNat_lt (a b : UInt8) : hilo a.toNat b.toNat < 65536 := by
  have ha := a.toNat_lt
  have hb := b.toNat_lt
  rw [hilo]
  omega

theorem syncd_lt (t : List UInt8) : syncd t < 8192 := by
  have := hilo_toNat_lt (byteAt t 16) (byteAt t 17)
  rw [syncd]
  omega

theorem dataFieldLength_lt (t : List UInt8) : dataFieldLength t < 8192 := by
  have := hilo_toNat_lt (byteAt t 13) (byteAt t 14)
  rw [dataFieldLength]
  omega

theorem upl_lt (t : List UInt8) : upl t < 8211 := by
  have := dataFieldLength_lt t
  rw [upl]
  omega

theorem dnp_le (t : List UInt8) : dnp t ≤ 1 := by
  rw [dnp]
  split <;> decide

/-- The packets of the data field from `pos` on, without their sync bytes; the last one may be
partial. A data field of less than 168 bytes ends with `t2packet`. -/
def chunks (t : List UInt8) : Nat → Nat → List (List UInt8)
  | 0, _ => []
  | fuel + 1, pos =>
    if pos < usub (upl t) 187 then
      if t2packetSize - 187 < pos then []
      else (t.drop pos).take 187 :: chunks t fuel (pos + (187 + dnp t))
    else if pos < upl t then [(t.drop pos).take (upl t - pos)]
    else []

/-- Packets are copied, each behind a sync byte, as long as they fit. -/
def emit (outputBufOffset outputBufSize : Nat) : Output → List (List UInt8) → Output
  | out, [] => out
  | out, c :: cs =>
    if outputBufSize < uadd (uadd outputBufOffset out.outputBytes) (c.length + 1) then out
    else emit outputBufOffset outputBufSize
      ((out.copy outputBufOffset [tsSyncByte]).copy outputBufOffset c) cs

/-- The partial packet is inside `t2packet`. -/
theorem copyPart_eq (pos : Nat) (out : Output) (hpos : 19 ≤ pos) :
    copyPart t2packet outputBufOffset outputBufSize pos out =
      .ok (emit outputBufOffset outputBufSize out
        (if pos < upl t2packet.cells
          then [(t2packet.cells.drop pos).take (upl t2packet.cells - pos)] else [])) := by
  have hdfl := upl_lt t2packet.cells
  rw [copyPart]
  by_cases hlt : pos < upl t2packet.cells
  case neg => rw [if_neg hlt, if_neg hlt, emit]
  case pos =>
    have hlen : ((t2packet.cells.drop pos).take (upl t2packet.cells - pos)).length =
        upl t2packet.cells - pos := by
      simp
      omega
    have hinside : ¬ t2packetSize - (upl t2packet.cells - pos + 1) < pos := by
      simp only [t2packetSize]
      omega
    have hslice := t2packet.slice_ok (show pos + (upl t2packet.cells - pos) ≤ t2packetSize by
      simp only [t2packetSize]
      omega)
    simp only [if_pos hlt, usub_of_le (Nat.le_of_lt hlt) (Nat.lt_trans hdfl (by decide)),
      uadd_assoc (uadd _ _), hinside, false_or, emit, hlen, hslice, bind_ok]
    split <;> rfl

theorem copyPayload_eq (fuel : Nat) : ∀ pos out, 19 ≤ pos → pos ≤ 65613 →
    65613 < pos + fuel * 187 →
    copyPayload t2packet outputBufOffset outputBufSize fuel pos out =
      .ok (emit outputBufOffset outputBufSize out (chunks t2packet.cells fuel pos)) := by
  have hdnp := dnp_le t2packet.cells
  induction fuel with
  | zero =>
    intro pos out _ _ hfuel
    omega
  | succ fuel ih =>
    intro pos out hpos hmax hfuel
    rw [copyPayload, copyPackets, chunks]
    by_cases hloop : pos < usub (upl t2packet.cells) 187
    case neg =>
      rw [if_neg hloop, if_neg hloop]
      exact copyPart_eq pos out hpos
    case pos =>
      rw [if_pos hloop, if_pos hloop]
      by_cases hend : t2packetSize - 187 < pos
      case pos =>
        rw [if_pos hend, if_pos (.inl hend)]
        rfl
      case neg =>
        have hinside : pos + 187 ≤ 65612 := by
          simp only [t2packetSize] at hend
          omega
        have hlen : ((t2packet.cells.drop pos).take 187).length = 187 := by
          rw [List.length_take, List.length_drop, t2packet.length_cells]
          omega
        rw [if_neg hend, emit, hlen]
        by_cases hroom : outputBufSize < uadd (uadd outputBufOffset out.outputBytes) tsPacketSize
        case pos =>
          rw [if_pos (.inr hroom), if_pos hroom]
          rfl
        case neg =>
          have hnext : uadd pos (187 + dnp t2packet.cells) = pos + (187 + dnp t2packet.cells) :=
            uadd_of_lt (by omega)
          rw [if_neg (not_or.mpr ⟨hend, hroom⟩), if_neg hroom, t2packet.slice_ok hinside, bind_ok,
            hnext]
          exact ih _ _ (by omega) (by omega) (by omega)

/-- How much completes the last packet of the frame before. -/
def restLength (first : Bool) (t : List UInt8) : Nat :=
  if first = false ∧ 0 < syncd t then syncd t - dnp t else 0

def restCopied (outputBufOffset : Nat) (first : Bool) (t : List UInt8) : Output :=
  if first = false ∧ 0 < syncd t
    then Output.none.copy outputBufOffset ((t.drop 19).take (syncd t - dnp t)) else .none

theorem restLength_lt (first : Bool) (t : List UInt8) : restLength first t < 8192 := by
  have := syncd_lt t
  rw [restLength]
  split <;> omega

/-- What completes the last packet of the frame before lies in `t2packet`. -/
theorem slice_rest : t2packet.slice 19 (syncd t2packet.cells - dnp t2packet.cells) =
    .ok ((t2packet.cells.drop 19).take (syncd t2packet.cells - dnp t2packet.cells)) := by
  have hsyncd := syncd_lt t2packet.cells
  refine t2packet.slice_ok ?_
  simp only [t2packetSize]
  omega

theorem copyRest_eq (first : Bool) (hO : outputBufOffset ≤ outputBufSize)
    (hS : outputBufSize < 4294967296) :
    copyRest t2packet outputBufOffset outputBufSize first =
      .ok (if outputBufSize < uadd outputBufOffset (restLength first t2packet.cells) then none
        else some (restCopied outputBufOffset first t2packet.cells)) := by
  have hsyncd := syncd_lt t2packet.cells
  have hdnp := dnp_le t2packet.cells
  rw [copyRest, restLength, restCopied]
  by_cases hrest : first = false ∧ 0 < syncd t2packet.cells
  case neg =>
    have hroom : ¬ outputBufSize < uadd outputBufOffset 0 := by rw [uadd_of_lt (by omega)]; omega
    simp only [if_neg hrest, if_neg hroom]
  case pos =>
    have hinside : ¬ t2packetSize - 19 < syncd t2packet.cells - dnp t2packet.cells := by
      simp only [t2packetSize]
      omega
    simp only [if_pos hrest, usub_of_le (show dnp t2packet.cells ≤ syncd t2packet.cells by omega)
      (show syncd t2packet.cells < 4294967296 by omega), hinside, false_or, uadd_assoc,
      Nat.zero_add, slice_rest, bind_ok]
    split <;> rfl

/-- A frame in which a packet starts: what completes the last packet of the frame before, and then
packets, from the last packet boundary on. -/
theorem extract_eq (first : Bool) (hsyncd : syncd t2packet.cells ≠ 0x1fff)
    (hO : outputBufOffset ≤ outputBufSize) (hS : outputBufSize < 4294967296) :
    extract t2packet outputBufOffset outputBufSize first =
      .ok (if outputBufSize < uadd outputBufOffset (restLength first t2packet.cells)
        then (.none, first)
        else (emit outputBufOffset outputBufSize
          (realign outputBufOffset (restCopied outputBufOffset first t2packet.cells))
          (chunks t2packet.cells copyFuel (19 + syncd t2packet.cells)), false)) := by
  have hlt := syncd_lt t2packet.cells
  rw [extract, if_neg hsyncd, copyRest_eq first hO hS, bind_ok]
  by_cases hroom : outputBufSize < uadd outputBufOffset (restLength first t2packet.cells)
  case pos => simp only [if_pos hroom]
  case neg =>
    simp only [if_neg hroom]
    rw [copyPayload_eq _ _ _ (by omega) (by omega) (by simp only [copyFuel]; omega)]
    rfl

/-- A frame in which no packet starts. -/
theorem extract_noStart (first : Bool) (hsyncd : syncd t2packet.cells = 0x1fff) :
    extract t2packet outputBufOffset outputBufSize first =
      .ok (if outputBufSize < uadd outputBufOffset (dataFieldLength t2packet.cells) ∨
          dataFieldLength t2packet.cells = 0
        then (.none, first)
        else (Output.none.copy outputBufOffset
          ((t2packet.cells.drop 19).take (dataFieldLength t2packet.cells)), first)) := by
  have hdfl := dataFieldLength_lt t2packet.cells
  have hslice := t2packet.slice_ok (show 19 + dataFieldLength t2packet.cells ≤ t2packetSize by
    simp only [t2packetSize]
    omega)
  have hmax : usub (upl t2packet.cells) 19 = dataFieldLength t2packet.cells := by
    rw [usub_of_le (by rw [upl]; omega) (by rw [upl]; omega), upl, Nat.add_sub_cancel]
  rw [extract, if_pos hsyncd, hmax]
  simp only [uadd_assoc, Nat.zero_add, hslice, bind_ok, upl]
  by_cases hroom : outputBufSize < uadd outputBufOffset (dataFieldLength t2packet.cells)
  case pos => rw [if_pos hroom, if_pos (.inl hroom)]
  case neg =>
    by_cases hempty : dataFieldLength t2packet.cells = 0
    case pos => rw [if_neg hroom, if_neg (by omega), if_pos (.inr hempty)]
    case neg => rw [if_neg hroom, if_pos (by omega), if_neg (not_or.mpr ⟨hroom, hempty⟩)]

theorem copyRest_ok (first : Bool) :
    ∃ out, copyRest t2packet outputBufOffset outputBufSize first = .ok out := by
  have hsyncd := syncd_lt t2packet.cells
  have hdnp := dnp_le t2packet.cells
  rw [copyRest]
  split
  case isFalse => exact ⟨_, rfl⟩
  case isTrue hrest =>
    rw [usub_of_le (show dnp t2packet.cells ≤ syncd t2packet.cells by omega)
      (show syncd t2packet.cells < 4294967296 by omega)]
    simp only [slice_rest, bind_ok]
    split <;> exact ⟨_, rfl⟩

/-- No block that is copied leaves `t2packet`, and the loop ends. -/
theorem extract_ok (first : Bool) :
    ∃ out, extract t2packet outputBufOffset outputBufSize first = .ok out := by
  by_cases hsyncd : syncd t2packet.cells = 0x1fff
  case pos => exact ⟨_, extract_noStart first hsyncd⟩
  case neg =>
    have hlt := syncd_lt t2packet.cells
    obtain ⟨out, hrest⟩ : ∃ out, copyRest t2packet outputBufOffset outputBufSize first = .ok out :=
      copyRest_ok first
    rw [extract, if_neg hsyncd, hrest, bind_ok]
    cases out with
    | none => exact ⟨_, rfl⟩
    | some out =>
      simp only
      rw [copyPayload_eq _ _ _ (by omega) (by omega) (by simp only [copyFuel]; omega)]
      exact ⟨_, rfl⟩

end copies

end MuMuDVB.T2mi
