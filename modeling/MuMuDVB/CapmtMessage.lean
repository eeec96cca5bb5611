import MuMuDVB.CamdSockets

/-!
# The CAPMT message

The message for the camd is made of seventeen bytes and the part of the PMT
behind its head. Three lengths are computed on their own: how much of the PMT is
copied, what the message says about its length, and how much is written to the
socket. The last two count one byte more than the first.
-/
namespace MuMuDVB.CapmtMessage

open CheckedMemory MuMuDVB.TsHeader MuMuDVB.Ts MuMuDVB.CamdSockets

@[simp] abbrev caPmtSize : Nat := 1024

/-- What `scam_send_capmt` puts into `caPMT`, and the bytes that it hands to `write`. -/
def caPmt (serviceId adapter : Int) (scamPmtPacket : MumudvbTsPacket) : Checked (List UInt8) := do
  let caPMT : Buffer UInt8 caPmtSize := Buffer.fill _ 0
  let caPMT ← caPMT.write 0 [0x9f, 0x80, 0x32, 0x82]
  let caPMT ← caPMT.write 6 [0x03, UInt8.ofInt (serviceId / 256), UInt8.ofInt serviceId, 0x00]
  let caPMT ← caPMT.write 12 [0x01]
  let caPMT ← caPMT.write 13 [0x82, 0x02, 0x00, UInt8.ofInt adapter]
  let infoHi ← scamPmtPacket.dataFull.read 10
  let caPMT ← caPMT.write 10 [infoHi]
  let infoLo ← scamPmtPacket.dataFull.read 11
  -- "(+1 for ca_pmt_cmd_id, +4 for above CAPMT_DESC_DEMUX)", and no carry
  let caPMT ← caPMT.write 11 [infoLo + 1 + 4]
  let data ← scamPmtPacket.dataFull.slice 12 (← subtract scamPmtPacket.lenFull (12 + 4))
  let caPMT ← caPMT.write 17 data
  let lengthField := 17 + (scamPmtPacket.lenFull - 11 - 4) - 6
  let caPMT ← caPMT.write 4 [UInt8.ofNat (lengthField / 256), UInt8.ofNat lengthField]
  caPMT.slice 0 (lengthField + 6)

/-- `scam_send_capmt` with what it writes, and the socket to which. -/
def scamSendCapmt (params : ScamParameters) (answers : Answers) (caPidIndex serviceId adapter : Int)
    (scamPmtPacket : MumudvbTsPacket) (chan : CamdChannel) (fds : Descriptors) :
    Checked (Option (Int × List UInt8) × CamdChannel × Descriptors) := do
  match ← staticKey params serviceId with
  | some key => return (none, { chan with
      oddCw := key.odd
      gotKeyOdd := true
      evenCw := key.even
      gotKeyEven := true
      caIdx := caPidIndex + 1
      caIdxRefcnt := if chan.caIdxRefcnt = 0 then 1 else chan.caIdxRefcnt }, fds)
  | none =>
    let (ready, chan, fds) :=
      if chan.camdSocket < 0 then openSocket answers chan fds else (true, chan, fds)
    if ready = false then return (none, chan, fds)
    else do
      let message ← caPmt serviceId adapter scamPmtPacket
      if answers.wrote = false then
        return (some (chan.camdSocket, message), { chan with camdSocket := -1 },
          fds.close chan.camdSocket)
      else return (some (chan.camdSocket, message), chan, fds)

section calls

variable {params : ScamParameters} {answers : Answers} {caPidIndex serviceId adapter : Int}
  {pkt : MumudvbTsPacket} {chan : CamdChannel} {fds : Descriptors}

/-- There is no constant key for the service, and a socket is there or has been opened. -/
structure Connected (params : ScamParameters) (answers : Answers) (serviceId : Int)
    (chan : CamdChannel) (fds : Descriptors) : Prop where
  noKey : staticKey params serviceId = .ok none
  ready : chan.camdSocket < 0 → (openSocket answers chan fds).1 = true

/-- Without its message the function is the one of the connections. -/
theorem scamSendCapmt_sockets
    {r : Option (Int × List UInt8) × CamdChannel × Descriptors}
    (h : scamSendCapmt params answers caPidIndex serviceId adapter pkt chan fds = .ok r) :
    CamdSockets.scamSendCapmt params answers caPidIndex serviceId chan fds = .ok r.2 := by
  rw [scamSendCapmt] at h
  rw [CamdSockets.scamSendCapmt]
  obtain ⟨key, hkey, h⟩ := bind_eq_ok.mp h
  rw [hkey, bind_ok]
  cases key with
  | some key =>
    cases h
    rfl
  | none =>
    dsimp only at h ⊢
    generalize (if chan.camdSocket < 0 then openSocket answers chan fds else (true, chan, fds)) =
      opened at h ⊢
    obtain ⟨ready, chan₁, fds₁⟩ := opened
    cases ready with
    | false =>
      cases h
      rfl
    | true =>
      dsimp only at h ⊢
      rw [if_neg (by decide)] at h ⊢
      obtain ⟨message, -, h⟩ := bind_eq_ok.mp h
      cases hwrote : answers.wrote with
      | false =>
        rw [if_pos hwrote] at h
        cases h
        rfl
      | true =>
        rw [if_neg (by rw [hwrote]; decide)] at h
        cases h
        rfl

/-- Where it is connected, what the function writes is the message. -/
theorem scamSendCapmt_message (h : Connected params answers serviceId chan fds)
    (message : List UInt8) :
    (∃ socket r, scamSendCapmt params answers caPidIndex serviceId adapter pkt chan fds =
      .ok (some (socket, message), r)) ↔ caPmt serviceId adapter pkt = .ok message := by
  have hready : (if chan.camdSocket < 0 then openSocket answers chan fds
      else (true, chan, fds)).1 = true := by
    split
    · exact h.ready ‹_›
    · rfl
  rw [scamSendCapmt, h.noKey, bind_ok]
  dsimp only
  generalize (if chan.camdSocket < 0 then openSocket answers chan fds else (true, chan, fds)) =
    opened at hready ⊢
  obtain ⟨ready, chan₁, fds₁⟩ := opened
  obtain rfl : ready = true := hready
  dsimp only
  rw [if_neg (by decide)]
  constructor
  · rintro ⟨socket, r, hsent⟩
    obtain ⟨built, hbuilt, hsent⟩ := bind_eq_ok.mp hsent
    split at hsent
    · cases hsent
      exact hbuilt
    · cases hsent
      exact hbuilt
  · intro hbuilt
    rw [hbuilt, bind_ok]
    split
    · exact ⟨_, _, rfl⟩
    · exact ⟨_, _, rfl⟩

end calls

section message

/-- The bytes in front of what is copied from the PMT. -/
def capmtHead (serviceId adapter : Int) (infoHi infoLo lengthHi lengthLo : UInt8) : List UInt8 :=
  [0x9f, 0x80, 0x32, 0x82, lengthHi, lengthLo, 0x03, UInt8.ofInt (serviceId / 256),
    UInt8.ofInt serviceId, 0x00, infoHi, infoLo + 1 + 4, 0x01, 0x82, 0x02, 0x00,
    UInt8.ofInt adapter]

theorem length_capmtHead (serviceId adapter : Int) (infoHi infoLo lengthHi lengthLo : UInt8) :
    (capmtHead serviceId adapter infoHi infoLo lengthHi lengthLo).length = 17 := rfl

/-- The bytes that are copied from the PMT: all but its head and its CRC. -/
def copied (pkt : MumudvbTsPacket) : List UInt8 :=
  (pkt.dataFull.cells.drop 12).take (pkt.lenFull - 16)

def lengthField (pkt : MumudvbTsPacket) : Nat := pkt.lenFull - 4

variable {serviceId adapter : Int} {pkt : MumudvbTsPacket}

theorem length_copied (hmax : pkt.lenFull ≤ maxTsSize) :
    (copied pkt).length = pkt.lenFull - 16 := by
  rw [copied, List.length_take, List.length_drop, pkt.dataFull.length_cells]
  simp only [maxTsSize] at hmax ⊢
  omega

/-- The head is filled in before the PMT is copied, but for the length. -/
theorem caPmt_head (serviceId adapter : Int) (h16 : 16 ≤ pkt.lenFull)
    (hmax : pkt.lenFull ≤ maxTsSize) :
    ∃ caPMT : Buffer UInt8 caPmtSize, caPMT.cells =
      capmtHead serviceId adapter (byteAt pkt.dataFull.cells 10) (byteAt pkt.dataFull.cells 11) 0 0
        ++ List.replicate 1007 0 ∧
      caPmt serviceId adapter pkt = (do
        let caPMT ← caPMT.write 17 (copied pkt)
        let caPMT ← caPMT.write 4
          [UInt8.ofNat (lengthField pkt / 256), UInt8.ofNat (lengthField pkt)]
        caPMT.slice 0 (lengthField pkt + 6)) := by
  have hread : ∀ i, i < 12 → pkt.dataFull.read i = .ok (byteAt pkt.dataFull.cells i) := by
    intro i hi
    have hlt : i < maxTsSize := Nat.lt_trans hi (by decide)
    obtain ⟨a, hread, ha⟩ := pkt.dataFull.read_lt hlt
    rw [hread, byteAt, List.getD_eq_getElem?_getD, ha, Option.getD_some]
  have hzeros : (Buffer.fill caPmtSize (0 : UInt8)).cells =
      List.replicate 17 0 ++ List.replicate 1007 0 := by
    rw [List.replicate_append_replicate]
    rfl
  obtain ⟨b₁, h₁, c₁⟩ := Buffer.write_left _ hzeros 0 [0x9f, 0x80, 0x32, 0x82]
    (Nat.le_of_ble_eq_true rfl)
  obtain ⟨b₂, h₂, c₂⟩ := b₁.write_left c₁ 6 [0x03, UInt8.ofInt (serviceId / 256),
    UInt8.ofInt serviceId, 0x00] (Nat.le_of_ble_eq_true rfl)
  obtain ⟨b₃, h₃, c₃⟩ := b₂.write_left c₂ 12 [0x01] (Nat.le_of_ble_eq_true rfl)
  obtain ⟨b₄, h₄, c₄⟩ := b₃.write_left c₃ 13 [0x82, 0x02, 0x00, UInt8.ofInt adapter]
    (Nat.le_of_ble_eq_true rfl)
  obtain ⟨b₅, h₅, c₅⟩ := b₄.write_left c₄ 10 [byteAt pkt.dataFull.cells 10]
    (Nat.le_of_ble_eq_true rfl)
  obtain ⟨b₆, h₆, c₆⟩ := b₅.write_left c₅ 11 [byteAt pkt.dataFull.cells 11 + 1 + 4]
    (Nat.le_of_ble_eq_true rfl)
  have hlength : 17 + (pkt.lenFull - 11 - 4) - 6 = lengthField pkt := by
    rw [lengthField]
    omega
  refine ⟨b₆, c₆, ?_⟩
  rw [caPmt]
  dsimp only
  rw [h₁, bind_ok, h₂, bind_ok, h₃, bind_ok, h₄, bind_ok, hread 10 (by decide), bind_ok, h₅,
    bind_ok, hread 11 (by decide), bind_ok, h₆, bind_ok, subtract_ok h16, bind_ok,
    pkt.dataFull.slice_ok (by simp only [maxTsSize] at hmax ⊢; omega), bind_ok, hlength]
  rfl

/-- The message is the head, what is copied, and one zero more. -/
theorem caPmt_ok (h16 : 16 ≤ pkt.lenFull) (hmax : pkt.lenFull ≤ 1022) :
    caPmt serviceId adapter pkt = .ok (capmtHead serviceId adapter
      (byteAt pkt.dataFull.cells 10) (byteAt pkt.dataFull.cells 11)
      (UInt8.ofNat (lengthField pkt / 256)) (UInt8.ofNat (lengthField pkt)) ++
        (copied pkt ++ [0])) := by
  have hsize : pkt.lenFull ≤ maxTsSize := Nat.le_trans hmax (by decide)
  have hcopied := length_copied hsize
  obtain ⟨b, hcells, hbuilt⟩ := caPmt_head serviceId adapter h16 hsize
  have hzeros : List.replicate 1007 (0 : UInt8) = List.replicate (copied pkt).length 0 ++
      ([0] ++ List.replicate (1006 - (copied pkt).length) 0) := by
    rw [← List.replicate_one, List.replicate_append_replicate, List.replicate_append_replicate]
    congr 1
    omega
  obtain ⟨b₁, h₁, c₁⟩ := b.write_ok 17 (copied pkt) (by simp only [caPmtSize]; omega)
  rw [hcells, hzeros] at c₁
  have hcopy := splice_middle (capmtHead serviceId adapter (byteAt pkt.dataFull.cells 10)
    (byteAt pkt.dataFull.cells 11) 0 0) (List.replicate (copied pkt).length 0)
    ([0] ++ List.replicate (1006 - (copied pkt).length) 0) (copied pkt) List.length_replicate.symm
  obtain ⟨b₂, h₂, c₂⟩ := b₁.write_left (c₁.trans hcopy) 4
    [UInt8.ofNat (lengthField pkt / 256), UInt8.ofNat (lengthField pkt)] (Nat.le_of_ble_eq_true rfl)
  rw [hbuilt, h₁, bind_ok, h₂, bind_ok]
  have hall : b₂.cells = [] ++ ((capmtHead serviceId adapter (byteAt pkt.dataFull.cells 10)
      (byteAt pkt.dataFull.cells 11) (UInt8.ofNat (lengthField pkt / 256))
      (UInt8.ofNat (lengthField pkt)) ++ (copied pkt ++ [0])) ++
        List.replicate (1006 - (copied pkt).length) 0) := by
    rw [c₂, List.nil_append, List.append_assoc, List.append_assoc]
    rfl
  refine b₂.slice_middle hall List.length_nil ?_
  rw [List.length_append, List.length_append, List.length_singleton, length_capmtHead, hcopied,
    lengthField]
  omega

/-- A longer PMT makes the message leave its buffer, or the last byte that is written. -/
theorem caPmt_outside (hmin : 1022 < pkt.lenFull) (hmax : pkt.lenFull ≤ maxTsSize) :
    caPmt serviceId adapter pkt = .error .outOfBounds := by
  have hcopied := length_copied hmax
  obtain ⟨b, -, hbuilt⟩ := caPmt_head serviceId adapter (show 16 ≤ pkt.lenFull by omega) hmax
  rw [hbuilt]
  by_cases h1023 : pkt.lenFull = 1023
  · obtain ⟨b₁, h₁, -⟩ := b.write_ok 17 (copied pkt) (by simp only [caPmtSize]; omega)
    obtain ⟨b₂, h₂, -⟩ := b₁.write_ok 4 [UInt8.ofNat (lengthField pkt / 256),
      UInt8.ofNat (lengthField pkt)] (Nat.le_of_ble_eq_true rfl)
    rw [h₁, bind_ok, h₂, bind_ok, Buffer.slice, if_neg]
    rw [lengthField, caPmtSize]
    omega
  · have hoverflow : b.write 17 (copied pkt) = .error .outOfBounds := by
      rw [Buffer.write, dif_neg]
      simp only [caPmtSize]
      omega
    rw [hoverflow]
    rfl

end message

/-- The `program_info_length`, which has the same place in a PMT and in the message. -/
def programInfoLength (s : List UInt8) : Nat := hilo ((byteAt s 10).toNat % 16) (byteAt s 11).toNat

/-- A message for the PMT, with `body` behind its seventeen bytes. -/
structure IsCapmt (pkt : MumudvbTsPacket) (body message : List UInt8) : Prop where
  infoLength : programInfoLength message = (programInfoLength pkt.dataFull.cells + 5) % 4096
  body : message.drop 17 = body
  lengthField : hilo (byteAt message 4).toNat (byteAt message 5).toNat = (message.drop 6).length

section capmt

variable (params : ScamParameters) (answers : Answers) (caPidIndex serviceId adapter : Int)
  (pkt : MumudvbTsPacket) (chan : CamdChannel) (fds : Descriptors)

/-- `scam_send_capmt` writes a message with `body`, all in its buffer. -/
def SendsCapmt (body : List UInt8) : Prop :=
  ∃ socket message r, scamSendCapmt params answers caPidIndex serviceId adapter pkt chan fds =
    .ok (some (socket, message), r) ∧ IsCapmt pkt body message

variable {params answers caPidIndex serviceId adapter pkt chan fds}

theorem sendsCapmt_iff (h : Connected params answers serviceId chan fds) (body : List UInt8) :
    SendsCapmt params answers caPidIndex serviceId adapter pkt chan fds body ↔
      ∃ message, caPmt serviceId adapter pkt = .ok message ∧ IsCapmt pkt body message := by
  constructor
  · rintro ⟨socket, message, r, hsent, hcapmt⟩
    exact ⟨message, (scamSendCapmt_message h message).mp ⟨socket, r, hsent⟩, hcapmt⟩
  · rintro ⟨message, hbuilt, hcapmt⟩
    obtain ⟨socket, r, hsent⟩ := (scamSendCapmt_message h message).mpr hbuilt
    exact ⟨socket, message, r, hsent, hcapmt⟩

/-- Five more need no carry. -/
theorem add_five_iff (b : UInt8) (hi : Nat) (hlt : hi < 16) :
    hilo hi (b + 1 + 4).toNat = (hilo hi b.toNat + 5) % 4096 ↔ b.toNat < 251 := by
  have hb := b.toNat_lt
  rw [hilo, hilo, UInt8.toNat_add, UInt8.toNat_add]
  simp only [UInt8.reduceToNat]
  omega

theorem hilo_ofNat {n : Nat} (h : n < 65536) :
    hilo (UInt8.ofNat (n / 256)).toNat (UInt8.ofNat n).toNat = n := by
  rw [hilo, UInt8.toNat_ofNat', UInt8.toNat_ofNat']
  omega

/-- What is right about the bytes that are written: all but their last one, where no carry is
needed. -/
theorem isCapmt_iff (h16 : 16 ≤ pkt.lenFull) (hmax : pkt.lenFull ≤ 1022) {body : List UInt8} :
    IsCapmt pkt body (capmtHead serviceId adapter
      (byteAt pkt.dataFull.cells 10) (byteAt pkt.dataFull.cells 11)
      (UInt8.ofNat (lengthField pkt / 256)) (UInt8.ofNat (lengthField pkt)) ++
        (copied pkt ++ [0])) ↔
      (byteAt pkt.dataFull.cells 11).toNat < 251 ∧ copied pkt ++ [0] = body := by
  have hcopied := length_copied (Nat.le_trans hmax (by decide))
  rw [← add_five_iff _ _ (Nat.mod_lt (byteAt pkt.dataFull.cells 10).toNat (by decide))]
  constructor
  · exact fun h => ⟨h.infoLength, h.body⟩
  · rintro ⟨hinfo, hbody⟩
    refine ⟨hinfo, hbody, ?_⟩
    have hlength : hilo (UInt8.ofNat (lengthField pkt / 256)).toNat
        (UInt8.ofNat (lengthField pkt)).toNat = lengthField pkt :=
      hilo_ofNat (by rw [lengthField]; omega)
    refine hlength.trans ?_
    rw [List.length_drop, List.length_append, List.length_append, List.length_singleton,
      length_capmtHead, hcopied, lengthField]
    omega

/-- For no PMT the body of the message is what the PMT has between its head and its CRC: a zero
follows. But for that zero the message is right exactly when it fits with it into its buffer and
the low byte of the `program_info_length` needs no carry. -/
theorem capmt_message (hconnected : Connected params answers serviceId chan fds)
    (h16 : 16 ≤ pkt.lenFull) (hmax : pkt.lenFull ≤ 1024) :
    ¬ SendsCapmt params answers caPidIndex serviceId adapter pkt chan fds (copied pkt) ∧
    (SendsCapmt params answers caPidIndex serviceId adapter pkt chan fds (copied pkt ++ [0]) ↔
      pkt.lenFull ≤ 1022 ∧ (byteAt pkt.dataFull.cells 11).toNat < 251) := by
  have hsends : ∀ body,
      SendsCapmt params answers caPidIndex serviceId adapter pkt chan fds body ↔
        pkt.lenFull ≤ 1022 ∧ (byteAt pkt.dataFull.cells 11).toNat < 251 ∧
          copied pkt ++ [0] = body := by
    intro body
    rw [sendsCapmt_iff hconnected]
    by_cases hfit : pkt.lenFull ≤ 1022
    · rw [caPmt_ok h16 hfit]
      constructor
      · rintro ⟨message, hbuilt, hcapmt⟩
        cases hbuilt
        exact ⟨hfit, (isCapmt_iff h16 hfit).mp hcapmt⟩
      · exact fun h => ⟨_, rfl, (isCapmt_iff h16 hfit).mpr h.2⟩
    · rw [caPmt_outside (by omega) (Nat.le_trans hmax (by decide))]
      constructor
      · rintro ⟨message, hbuilt, -⟩
        cases hbuilt
      · exact fun h => absurd h.1 hfit
  constructor
  · rw [hsends]
    rintro ⟨-, -, hbody⟩
    exact absurd (congrArg List.length hbody) (by simp)
  · rw [hsends]
    exact ⟨fun h => ⟨h.1, h.2.1⟩, fun h => ⟨h.1, h.2, rfl⟩⟩

end capmt

/-- No constant keys. -/
def noKeys : ScamParameters := ⟨Buffer.fill _ ⟨0, [], []⟩, 0⟩

/-- The system does everything that it is asked for. -/
def granted : Answers := ⟨some 7, true, true, true, true, true⟩

/-- A PMT of the program 1 with one video stream. -/
def videoPmt : List UInt8 :=
  [0x02, 0xb0, 0x12, 0x00, 0x01, 0xc1, 0x00, 0x00, 0xe2, 0x00, 0xf0, 0x00,
    0x02, 0xe2, 0x00, 0xf0, 0x00, 0xec, 0x3c, 0x72, 0xa2]

def storedPmt : MumudvbTsPacket := CatCollection.handedOut videoPmt (by decide)

theorem connected_new (fds : Descriptors) :
    Connected noKeys granted 1 (initCamd unusedCamd) fds := ⟨rfl, fun _ => rfl⟩

theorem capmt_message_video :
    ¬ SendsCapmt noKeys granted 0 1 0 storedPmt (initCamd unusedCamd) ⟨[], []⟩ (copied storedPmt) ∧
    (SendsCapmt noKeys granted 0 1 0 storedPmt (initCamd unusedCamd) ⟨[], []⟩
        (copied storedPmt ++ [0]) ↔
      storedPmt.lenFull ≤ 1022 ∧ (byteAt storedPmt.dataFull.cells 11).toNat < 251) :=
  capmt_message (connected_new _) (by decide) (by decide)

/-- Its message ends with a byte that is not in the PMT. -/
theorem capmt_surplus : Connected noKeys granted 1 (initCamd unusedCamd) ⟨[], []⟩ ∧
    ¬ SendsCapmt noKeys granted 0 1 0 storedPmt (initCamd unusedCamd) ⟨[], []⟩
      (copied storedPmt) := by
  have hbuilt : caPmt 1 0 storedPmt = .ok
      [0x9f, 0x80, 0x32, 0x82, 0x00, 0x11, 0x03, 0x00, 0x01, 0x00, 0xf0, 0x05, 0x01, 0x82, 0x02,
        0x00, 0x00, 0x02, 0xe2, 0x00, 0xf0, 0x00, 0x00] := by decide +kernel
  refine ⟨connected_new _, fun hsends => ?_⟩
  obtain ⟨message, hmessage, hcapmt⟩ := (sendsCapmt_iff (connected_new _) _).mp hsends
  rw [hbuilt] at hmessage
  cases hmessage
  exact absurd hcapmt.body (by decide +kernel)

end MuMuDVB.CapmtMessage
