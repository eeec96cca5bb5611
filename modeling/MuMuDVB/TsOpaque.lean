import MuMuDVB.TsRefinement

/-!
# What a continuing packet does to the section in progress

The fields that say how far a section in progress has come, after a packet
without a start: they depend on the header of the packet, except that a packet
whose payload begins like a PES packet is passed over.
-/
namespace MuMuDVB.TsOpaque

open CheckedMemory MuMuDVB.TsHeader MuMuDVB.Ts MuMuDVB.TsAssembler MuMuDVB.TsRefinement

/-- The fields of the section in progress, without its bytes. -/
structure PartialFields where
  status : PacketStatus
  len : Nat
  expectedLen : Nat
  cc : Nat
  deriving DecidableEq

def partialFields (pkt : MumudvbTsPacket) : PartialFields :=
  ⟨pkt.statusPartial, pkt.lenPartial, pkt.expectedLenPartial, pkt.cc⟩

/-- A packet with neither a start nor an adaptation field. -/
structure Continuing (p : Packet) : Prop where
  noStart : payloadUnitStartIndicator p.cells = false
  noField : adaptationFieldControl p.cells = 1

/-- The payload begins with the start code of a PES packet. -/
def IsPes (p : Packet) : Prop := (p.cells.drop 4).take 3 = [0x00, 0x00, 0x01]

instance (p : Packet) : Decidable (IsPes p) := inferInstanceAs (Decidable (_ = _))

/-- The packet is taken for the next one of the section in progress. -/
structure Follows (pkt : MumudvbTsPacket) (p : Packet) : Prop where
  next : (pkt.cc + 1) % 16 = continuityCounter p.cells
  other : pkt.cc ≠ continuityCounter p.cells
  pid : pkt.pid = TsHeader.pid p.cells

instance (pkt : MumudvbTsPacket) (p : Packet) : Decidable (Follows pkt p) :=
  decidable_of_iff
    ((pkt.cc + 1) % 16 = continuityCounter p.cells ∧ pkt.cc ≠ continuityCounter p.cells ∧
      pkt.pid = TsHeader.pid p.cells)
    ⟨fun h => ⟨h.1, h.2.1, h.2.2⟩, fun h => ⟨h.next, h.other, h.pid⟩⟩

/-- How many bytes of the section are there after a packet that follows. -/
def lenAfter (pkt : MumudvbTsPacket) : Nat :=
  min (min pkt.expectedLenPartial (pkt.lenPartial + 184)) maxTsSize

/-- The packet brings the bytes that the section in progress misses. -/
def Completes (pkt : MumudvbTsPacket) (p : Packet) : Prop :=
  ¬ IsPes p ∧ Follows pkt p ∧ pkt.expectedLenPartial ≤ lenAfter pkt

instance (pkt : MumudvbTsPacket) (p : Packet) : Decidable (Completes pkt p) :=
  inferInstanceAs (Decidable (_ ∧ _ ∧ _))

/-- The fields after a packet that does not complete the section. -/
def fieldsAfter (pkt : MumudvbTsPacket) (p : Packet) : PartialFields :=
  if IsPes p ∨ pkt.cc = continuityCounter p.cells then partialFields pkt
  else if Follows pkt p then
    ⟨.started, lenAfter pkt, pkt.expectedLenPartial, continuityCounter p.cells⟩
  else { partialFields pkt with status := .empty }

variable {pkt pkt' : MumudvbTsPacket} {p q : Packet}

theorem popFull_partial {avail : Bool} (h : popFull pkt = .ok (avail, pkt')) :
    partialFields pkt' = partialFields pkt ∧ pkt'.pid = pkt.pid := by
  rcases popFull_frame h with ⟨_, rfl⟩ | ⟨_, _, _, _, _, _, _, _, _, hpkt⟩
  · exact ⟨rfl, rfl⟩
  · rw [hpkt]
    exact ⟨rfl, rfl⟩

theorem follows_congr (hcc : pkt'.cc = pkt.cc) (hpid : pkt'.pid = pkt.pid) :
    Follows pkt' p ↔ Follows pkt p := by
  constructor
  · rintro ⟨hnext, hother, hsame⟩
    exact ⟨hcc ▸ hnext, hcc ▸ hother, hpid ▸ hsame⟩
  · rintro ⟨hnext, hother, hsame⟩
    exact ⟨hcc.symm ▸ hnext, hcc.symm ▸ hother, hpid.symm ▸ hsame⟩

/-- What `appendPart` does to the fields, for a payload of 184 bytes. -/
theorem appendPart_fields {cc : Nat} {outcome : AddOutcome} (hmax : pkt.lenPartial ≤ 4096)
    (hexp : pkt.lenPartial < pkt.expectedLenPartial)
    (h : appendPart p 4 pkt 184 cc = .ok outcome) :
    ∃ data n, outcome = .copied { pkt with
      dataPartial := data, lenPartial := lenAfter pkt, cc := cc } n 0 := by
  rw [appendPart] at h
  simp only [bind_eq_ok] at h
  obtain ⟨first, hfirst, second, hsecond, src, _, data, _, h⟩ := h
  cases h
  have hsub : ∀ a b c, subtract a b = .ok c → c = a - b := by
    intro a b c hc
    rw [subtract] at hc
    split at hc <;> cases hc
    rfl
  have hfirst' : first = min (pkt.expectedLenPartial - pkt.lenPartial) 184 := by
    split at hfirst
    · rw [hsub _ _ _ hfirst]
      omega
    · cases hfirst
      omega
  have hsecond' : second = min first (4096 - pkt.lenPartial) := by
    simp only [maxTsSize] at hsecond
    split at hsecond
    · rw [hsub _ _ _ hsecond]
      omega
    · cases hsecond
      omega
  have hlen : pkt.lenPartial + second = lenAfter pkt := by
    simp only [lenAfter, maxTsSize]
    omega
  exact ⟨data, second, by rw [hlen]⟩

/-- A packet that does not complete the section in progress: every branch of
`add_ts_packet_data`. -/
theorem addTsPacketData_fields (h : RepInvariant pkt) (hstarted : pkt.statusPartial = .started)
    (hpes : ¬ IsPes p) (hcompletes : ¬ Completes pkt p)
    (hadd : addTsPacketData addFuel p 4 pkt 184 .noStart (TsHeader.pid p.cells)
      (continuityCounter p.cells) = .ok pkt') :
    partialFields pkt' = fieldsAfter pkt p := by
  obtain ⟨hexp, _⟩ := h.started hstarted
  rw [show addFuel = 187 + 1 from rfl, addTsPacketData, bind_eq_ok] at hadd
  obtain ⟨outcome, hbranch, hadd⟩ := hadd
  rw [addBranch, if_pos rfl, continuePart, if_neg (by simp [hstarted])] at hbranch
  rw [fieldsAfter]
  by_cases hcc : pkt.cc = continuityCounter p.cells
  · rw [if_pos hcc] at hbranch
    cases hbranch
    cases hadd
    rw [if_pos (Or.inr hcc)]
  · rw [if_neg hcc] at hbranch
    rw [if_neg (not_or.mpr ⟨hpes, hcc⟩)]
    by_cases hnext : (pkt.cc + 1) % 16 = continuityCounter p.cells
    · rw [if_neg (not_not.mpr hnext)] at hbranch
      by_cases hpid : pkt.pid = TsHeader.pid p.cells
      · have hfollows : Follows pkt p := ⟨hnext, hcc, hpid⟩
        rw [if_neg (not_not.mpr hpid), completeHeader, if_neg (by simp [hstarted]), bind_ok]
          at hbranch
        obtain ⟨data, n, rfl⟩ := appendPart_fields h.lenPartial hexp hbranch
        have hshort : lenAfter pkt < pkt.expectedLenPartial := by
          by_contra hlong
          exact hcompletes ⟨hpes, hfollows, by omega⟩
        rw [if_pos hfollows]
        simp only [hstarted, finishPart, tsPartialFull, if_neg (Nat.not_le.mpr hshort)] at hadd
        cases hadd
        rfl
      · rw [if_pos hpid] at hbranch
        cases hbranch
        cases hadd
        rw [if_neg (fun hf => hpid hf.pid)]
        rfl
    · rw [if_pos hnext] at hbranch
      cases hbranch
      cases hadd
      rw [if_neg (fun hf => hnext hf.next)]
      rfl

/-- A call of `get_ts_packet` with a packet that neither starts nor completes a section. -/
theorem getTsPacket_fields {avail : Bool} (h : RepInvariant pkt)
    (hstarted : pkt.statusPartial = .started) (hp : Continuing p) (hcompletes : ¬ Completes pkt p)
    (hget : getTsPacket (some p) pkt = .ok (avail, pkt')) :
    partialFields pkt' = fieldsAfter pkt p := by
  obtain ⟨pkt₁, hpop, hinv₁, _⟩ := popFull_spec h
  obtain ⟨hsame, hpid⟩ := popFull_partial hpop
  have hfields := hsame
  simp only [partialFields, PartialFields.mk.injEq] at hfields
  obtain ⟨hstatus, hlen, hexpected, hcc⟩ := hfields
  have hlenAfter : lenAfter pkt₁ = lenAfter pkt := by rw [lenAfter, hlen, hexpected, lenAfter]
  have hcompletes₁ : ¬ Completes pkt₁ p := by
    rw [Completes, follows_congr hcc hpid, hlenAfter, hexpected]
    exact hcompletes
  have hafter : fieldsAfter pkt₁ p = fieldsAfter pkt p := by
    simp only [fieldsAfter, follows_congr hcc hpid, hlenAfter, hsame, hcc, hexpected]
  rw [getTsPacket, hpop, bind_ok] at hget
  simp only [payloadOffset, hp.noField] at hget
  by_cases hpes : IsPes p
  · rw [if_neg (by decide), if_pos ⟨by decide, hpes⟩, bind_ok] at hget
    cases hget
    rw [fieldsAfter, if_pos (Or.inl hpes), hsame]
  · rw [if_neg (by decide), if_neg (fun hc => hpes hc.2), bind_ok] at hget
    simp only [addPayload, hp.noStart, Bool.false_eq_true, if_false, bind_eq_ok] at hget
    obtain ⟨⟨added, pkt₂⟩, ⟨left, hleft, pkt₃, hadd, hpair⟩, hget⟩ := hget
    cases hleft
    cases hpair
    cases hget
    rw [← hafter]
    exact addTsPacketData_fields hinv₁ (hstatus.trans hstarted) hpes hcompletes₁ hadd

/-- Both packets leave the section in progress with the same fields. -/
def SameFields (pkt : MumudvbTsPacket) (p q : Packet) : Prop :=
  ∃ avail avail' pkt₁ pkt₂, getTsPacket (some p) pkt = .ok (avail, pkt₁) ∧
    getTsPacket (some q) pkt = .ok (avail', pkt₂) ∧ partialFields pkt₁ = partialFields pkt₂

/-- The first four bytes decide the fields of the header. -/
theorem header_fields (h : p.cells.take 4 = q.cells.take 4) :
    payloadUnitStartIndicator q.cells = payloadUnitStartIndicator p.cells ∧
      adaptationFieldControl q.cells = adaptationFieldControl p.cells ∧
      TsHeader.pid q.cells = TsHeader.pid p.cells ∧
      continuityCounter q.cells = continuityCounter p.cells := by
  have hbyte : ∀ i, i < 4 → byteAt q.cells i = byteAt p.cells i := by
    intro i hi
    rw [← byteAt_take hi, ← h, byteAt_take hi]
  simp only [payloadUnitStartIndicator, adaptationFieldControl, TsHeader.pid, continuityCounter,
    hbyte 1 (by decide), hbyte 2 (by decide), hbyte 3 (by decide), and_self]

/-- The fields change with every packet that is not passed over or repeated. -/
theorem fieldsAfter_ne (hstarted : pkt.statusPartial = .started) (hpes : ¬ IsPes p)
    (hcc : continuityCounter p.cells ≠ pkt.cc) : fieldsAfter pkt p ≠ partialFields pkt := by
  rw [fieldsAfter, if_neg (not_or.mpr ⟨hpes, Ne.symm hcc⟩)]
  split
  · intro h
    exact hcc (congrArg PartialFields.cc h)
  · intro h
    have hstatus := congrArg PartialFields.status h
    rw [partialFields, hstarted] at hstatus
    cases hstatus

/-- Two payloads behind one header, neither of which completes the section in progress, leave its
fields the same exactly when both or none begin with a PES start code, or the packet is a
repeated one. -/
theorem sameFields_iff (h : RepInvariant pkt) (hstarted : pkt.statusPartial = .started)
    (hp : Continuing p) (hheader : p.cells.take 4 = q.cells.take 4)
    (hcompletes : ¬ Completes pkt p) (hcompletes' : ¬ Completes pkt q) :
    SameFields pkt p q ↔ (IsPes p ↔ IsPes q) ∨ continuityCounter p.cells = pkt.cc := by
  obtain ⟨hstart, hfield, hpid, hcc⟩ := header_fields hheader
  have hq : Continuing q := ⟨hstart.trans hp.noStart, hfield.trans hp.noField⟩
  obtain ⟨pkt₁, hget, _⟩ := getTsPacket_spec h (some p)
  obtain ⟨pkt₂, hget', _⟩ := getTsPacket_spec h (some q)
  have hfields := getTsPacket_fields h hstarted hp hcompletes hget
  have hfields' := getTsPacket_fields h hstarted hq hcompletes' hget'
  have hsame : SameFields pkt p q ↔ fieldsAfter pkt p = fieldsAfter pkt q := by
    constructor
    · rintro ⟨_, _, _, _, hcall, hcall', heq⟩
      rw [hget] at hcall
      rw [hget'] at hcall'
      cases hcall
      cases hcall'
      rw [← hfields, ← hfields', heq]
    · intro heq
      exact ⟨_, _, pkt₁, pkt₂, hget, hget', by rw [hfields, hfields', heq]⟩
  have hpassed : ∀ r : Packet, IsPes r → fieldsAfter pkt r = partialFields pkt :=
    fun r hr => if_pos (Or.inl hr)
  rw [hsame]
  by_cases hrepeated : continuityCounter p.cells = pkt.cc
  · have hkept : ∀ r : Packet, continuityCounter r.cells = pkt.cc →
        fieldsAfter pkt r = partialFields pkt := fun r hr => if_pos (Or.inr hr.symm)
    rw [hkept p hrepeated, hkept q (hcc.trans hrepeated)]
    simp [hrepeated]
  · by_cases hpes : IsPes p <;> by_cases hpes' : IsPes q
    · simp [hpassed p hpes, hpassed q hpes', hpes, hpes']
    · have hne := fieldsAfter_ne hstarted hpes' (fun heq => hrepeated (hcc.symm.trans heq))
      simp [hpassed p hpes, hpes, hpes', hrepeated, hne.symm]
    · have hne := fieldsAfter_ne hstarted hpes hrepeated
      simp [hpassed q hpes', hpes, hpes', hrepeated, hne]
    · have hfollows : Follows pkt q ↔ Follows pkt p := by
        constructor
        · rintro ⟨hnext, hother, hsamePid⟩
          exact ⟨by rw [hnext, hcc], by rw [← hcc]; exact hother, by rw [hsamePid, hpid]⟩
        · rintro ⟨hnext, hother, hsamePid⟩
          exact ⟨by rw [hnext, hcc], by rw [hcc]; exact hother, by rw [hsamePid, hpid]⟩
      simp [fieldsAfter, hpes, hpes', hcc, hfollows]

/-- The start of a section of 387 bytes. -/
def longStart : Packet :=
  ⟨[0x47, 0x40, 0x10, 0x10, 0x00, 0x40, 0xf1, 0x80] ++ List.replicate 180 0, by
    rw [List.length_append, List.length_replicate]
    rfl⟩

/-- The next packet of the section, with these first bytes of the payload. -/
def nextPacket (a b c : UInt8) : Packet :=
  ⟨[0x47, 0x00, 0x10, 0x11, a, b, c] ++ List.replicate 181 0, by
    rw [List.length_append, List.length_replicate]
    rfl⟩

/-- After the start 183 bytes of the section are there. -/
theorem longStart_started : ∃ avail pkt, getTsPacket (some longStart) zeroed = .ok (avail, pkt) ∧
    RepInvariant pkt ∧ partialFields pkt = ⟨.started, 183, 387, 0⟩ := by
  have h : (getTsPacket (some longStart) zeroed).map (fun r => partialFields r.2) =
      .ok ⟨.started, 183, 387, 0⟩ := by decide +kernel
  obtain ⟨⟨avail, pkt⟩, hget, hvalues⟩ := map_eq_ok h
  obtain ⟨pkt', hget', hinv, _⟩ := getTsPacket_spec zeroed_repInvariant (some longStart)
  rw [hget] at hget'
  cases hget'
  exact ⟨_, pkt, hget, hinv, hvalues⟩

/-- The section of 387 bytes is not complete after another packet. -/
theorem not_completes_next {pkt : MumudvbTsPacket}
    (h : partialFields pkt = ⟨.started, 183, 387, 0⟩) (p : Packet) : ¬ Completes pkt p := by
  simp only [partialFields, PartialFields.mk.injEq] at h
  obtain ⟨_, hlen, hexpected, _⟩ := h
  rintro ⟨_, _, hlong⟩
  rw [lenAfter, hlen, hexpected] at hlong
  exact absurd hlong (by decide)

theorem sameFields_next : ∃ avail pkt, getTsPacket (some longStart) zeroed = .ok (avail, pkt) ∧
    SameFields pkt (nextPacket 0 0 0) (nextPacket 0 0 2) := by
  obtain ⟨avail, pkt, hget, hinv, hfields⟩ := longStart_started
  have hstarted : pkt.statusPartial = .started := congrArg PartialFields.status hfields
  refine ⟨avail, pkt, hget, (sameFields_iff hinv hstarted ⟨by decide, by decide⟩ (by decide)
    (not_completes_next hfields _) (not_completes_next hfields _)).mpr (Or.inl ?_)⟩
  exact iff_of_false (by decide) (by decide)

/-- The payload that begins 00 00 01 is passed over, the one of zeros is taken. -/
theorem not_sameFields_pes : ∃ avail pkt, getTsPacket (some longStart) zeroed = .ok (avail, pkt) ∧
    pkt.statusPartial = .started ∧ Continuing (nextPacket 0 0 0) ∧
    (nextPacket 0 0 0).cells.take 4 = (nextPacket 0 0 1).cells.take 4 ∧
    ¬ Completes pkt (nextPacket 0 0 0) ∧ ¬ Completes pkt (nextPacket 0 0 1) ∧
    ¬ SameFields pkt (nextPacket 0 0 0) (nextPacket 0 0 1) := by
  obtain ⟨avail, pkt, hget, hinv, hfields⟩ := longStart_started
  have hstarted : pkt.statusPartial = .started := congrArg PartialFields.status hfields
  have hcc : pkt.cc = 0 := congrArg PartialFields.cc hfields
  refine ⟨avail, pkt, hget, hstarted, ⟨by decide, by decide⟩, by decide,
    not_completes_next hfields _, not_completes_next hfields _, ?_⟩
  rintro ⟨_, _, pkt₁, pkt₂, hzero, hpes, hsame⟩
  have hzero' := getTsPacket_fields hinv hstarted ⟨by decide, by decide⟩
    (not_completes_next hfields _) hzero
  have hpes' := getTsPacket_fields hinv hstarted ⟨by decide, by decide⟩
    (not_completes_next hfields _) hpes
  have hcounter : continuityCounter (nextPacket 0 0 0).cells ≠ pkt.cc := by
    rw [hcc]
    decide
  refine fieldsAfter_ne hstarted (show ¬ IsPes (nextPacket 0 0 0) by decide) hcounter ?_
  rw [← hzero', hsame, hpes', fieldsAfter, if_pos (Or.inl (by decide))]

end MuMuDVB.TsOpaque
