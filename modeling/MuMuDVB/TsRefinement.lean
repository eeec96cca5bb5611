import MuMuDVB.TsAssembler

/-!
# get_ts_packet refines the list assembler

One lemma for each function of `ts.c`: under the representation invariant it
returns without a fault, keeps the invariant, and its result is viewed as the
result of the corresponding operation on lists.
-/
namespace MuMuDVB.TsRefinement

open CheckedMemory MuMuDVB.TsHeader MuMuDVB.Ts MuMuDVB.TsAssembler

variable {pkt : MumudvbTsPacket} {buf : Packet}

theorem complete_setPart (a : Assembler) (p : Progress) (s : List UInt8) :
    (a.setPart p).complete s = a.complete s := rfl

/-- The bytes of the section in progress. -/
def partBytes (pkt : MumudvbTsPacket) : List UInt8 := pkt.dataPartial.cells.take pkt.lenPartial

theorem length_partBytes (h : pkt.lenPartial ≤ 4096) : (partBytes pkt).length = pkt.lenPartial := by
  rw [partBytes, List.length_take, pkt.dataPartial.length_cells, Nat.min_eq_left h]

/-- A started section as `finishPart` meets it: its header is there, and no more than its size. -/
structure Growing (pkt : MumudvbTsPacket) : Prop extends StoreInvariant pkt where
  started : pkt.statusPartial = .started
  atLeast : 3 ≤ pkt.lenPartial
  atMost : pkt.lenPartial ≤ 4096
  expected : pkt.lenPartial ≤ pkt.expectedLenPartial
  size : pkt.expectedLenPartial = sectionSize (partBytes pkt)

/-- The CRC check of a section that has all its bytes. -/
theorem Growing.crc (h : Growing pkt) (hfull : pkt.expectedLenPartial ≤ pkt.lenPartial) :
    ∃ good, tsCheckRawCrc32 pkt.dataPartial = .ok good ∧
      (good = true ↔ Accepted (partBytes pkt)) := by
  have he := h.expected
  refine tsCheckRawCrc32_spec pkt.dataPartial h.atLeast (by simpa using h.atMost) ?_
  rw [← partBytes, ← h.size]
  omega

/-- A started section is completed exactly when it has all its bytes. -/
theorem finishPart_spec (h : Growing pkt) :
    ∃ pkt', finishPart pkt = .ok pkt' ∧ RepInvariant pkt' ∧
      pkt'.statusPartial ≠ .partialHeader ∧
      view pkt' = if pkt.expectedLenPartial ≤ pkt.lenPartial
        then (view pkt).complete (partBytes pkt) else view pkt := by
  have hexp := h.expected
  have hlen := h.atMost
  unfold finishPart tsPartialFull
  by_cases hfull : pkt.expectedLenPartial ≤ pkt.lenPartial
  · have he : pkt.expectedLenPartial = pkt.lenPartial := by omega
    obtain ⟨good, hcrc, hgood⟩ := h.crc hfull
    rw [if_pos hfull, if_pos hfull]
    simp only [tsCheckCrc32, hcrc, bind_ok]
    cases good with
    | true =>
      have hacc : Accepted (partBytes pkt) := hgood.mp rfl
      obtain ⟨pkt', hmove, hinv, hst, hview⟩ := tsMovePartToFull_spec
        { pkt with lenPartial := pkt.expectedLenPartial, statusPartial := .valid }
        ⟨h.fullNumber, h.fullBufferLen, h.fullBufferRoom, h.storedLength, h.lenFull⟩
        (by simp only [he]; exact h.atLeast) (by simp only [he]; exact hlen) rfl
        (by simp only [he]; exact hacc)
      refine ⟨pkt', ?_, hinv, hst, ?_⟩
      · simpa using hmove
      · rw [hview]
        simp only [he]
        rfl
    | false =>
      have hacc : ¬ Accepted (partBytes pkt) := fun hc => Bool.false_ne_true (hgood.mpr hc)
      refine ⟨{ pkt with lenPartial := 0, statusPartial := .empty }, by simp,
        ⟨⟨h.fullNumber, h.fullBufferLen, h.fullBufferRoom, h.storedLength, h.lenFull⟩,
          ?_, ?_, ?_, ?_⟩, ?_, ?_⟩
      · simp
      · simp
      · simp
      · simp
      · simp
      · rw [Assembler.complete, if_neg hacc]
        rfl
  · rw [if_neg hfull, if_neg hfull]
    have hle := sectionSize_le (partBytes pkt)
    have hsize := h.size
    exact ⟨pkt, rfl, ⟨h.toStoreInvariant, hlen, by simp [h.started],
      fun _ => ⟨by omega, by omega⟩, fun _ => ⟨h.atLeast, hsize⟩⟩, by simp [h.started], rfl⟩

theorem length_payload (buf : Packet) {off len : Nat} (h : off + len ≤ 188) : (payload buf off len).length = len := by
  rw [payload, List.length_take, List.length_drop, buf.length_cells]
  simp
  omega

theorem payload_slice {off len : Nat} (h : off + len ≤ 188) :
    buf.slice off len = .ok (payload buf off len) := Buffer.slice_ok buf h

theorem take_payload {off l k : Nat} (h : k ≤ l) :
    (payload buf off l).take k = payload buf off k := by
  rw [payload, List.take_take, Nat.min_eq_left h, payload]

theorem drop_payload {off len k : Nat} : 
    (payload buf off len).drop k = payload buf (off + k) (len - k) := by
  rw [payload, List.drop_take, List.drop_drop, payload]

/-- The start of a section with less than three bytes left. -/
theorem startPart_header (buf : Packet) (h : StoreInvariant pkt) {off left : Nat}
    (hoff : off + left ≤ 188) (h3 : left < 3) (pid cc : Nat) :
    ∃ pkt', startPart buf off pkt left pid cc = .ok (.copied pkt' 0 0) ∧ RepInvariant pkt' ∧
      pkt'.statusPartial = .partialHeader ∧
      view pkt' = (view pkt).setPart (.header (payload buf off left) pid cc) := by
  have hl := length_payload buf hoff
  obtain ⟨data, hw, hc⟩ := pkt.dataPartial.write_ok 0 (payload buf off left)
    (by simp; omega)
  refine ⟨{ pkt with
      cc := cc, pid := pid
      statusPartial := .partialHeader
      dataPartial := data
      lenPartial := left
      expectedLenPartial := 0 }, ?_,
    ⟨⟨h.fullNumber, h.fullBufferLen, h.fullBufferRoom, h.storedLength, h.lenFull⟩,
      ?_, ?_, ?_, ?_⟩, rfl, ?_⟩
  · rw [startPart, if_pos h3, payload_slice hoff]
    simp [hw]
  · simp only
    omega
  · simpa using h3
  · simp
  · simp
  · have : data.cells.take left = payload buf off left := by
      rw [hc, take_splice (Nat.zero_le _) (by rw [hl, Nat.zero_add])]
      simp
    simp [view, progress, Assembler.setPart, this, storedLengths]

/-- The start of a section with its length field in the packet. -/
theorem startPart_body (buf : Packet) (h : StoreInvariant pkt) {off left : Nat}
    (hoff : off + left ≤ 188) (h3 : 3 ≤ left) (pid cc : Nat) :
    let size := sectionSize (payload buf off left)
    ∃ pkt', startPart buf off pkt left pid cc =
        .ok (.copied pkt' (min size left) (left - min size left)) ∧
      Growing pkt' ∧ pkt'.lenPartial = min size left ∧ pkt'.expectedLenPartial = size ∧
      partBytes pkt' = (payload buf off left).take size ∧
      view pkt' = (view pkt).setPart (.body ((payload buf off left).take size) size pid cc) := by
  intro size
  have hl := length_payload buf hoff
  have hsize3 : 3 ≤ size := three_le_sectionSize _
  have htbl : sectionSize (payload buf off 3) = size := by
    rw [← take_payload (l := left) h3, sectionSize_take (Nat.le_refl 3)]
  have hcopy : (if size < left then size else left) = min size left := by
    split <;> omega
  have hsrc : payload buf off (min size left) = (payload buf off left).take size := by
    rw [← take_payload (Nat.min_le_right _ _), List.take_eq_take_min (i := size), hl]
  have hlsrc : (payload buf off (min size left)).length = min size left :=
    length_payload buf (by omega)
  obtain ⟨data, hw, hc⟩ := pkt.dataPartial.write_ok 0 (payload buf off (min size left)) (by simp; omega)
  have hdata : data.cells.take (min size left) = (payload buf off left).take size := by
    rw [hc, ← hsrc, take_splice (Nat.zero_le _) (by rw [hlsrc, Nat.zero_add])]
    simp
  refine ⟨{ pkt with
      cc := cc, pid := pid
      statusPartial := .started
      expectedLenPartial := size
      lenPartial := min size left
      dataPartial := data }, ?_,
    ⟨⟨h.fullNumber, h.fullBufferLen, h.fullBufferRoom, h.storedLength, h.lenFull⟩,
      rfl, ?_, ?_, ?_, ?_⟩, rfl, rfl, hdata, ?_⟩
  · rw [startPart, if_neg (by omega), payload_slice (by simp; omega)]
    simp only [bind_ok]
    have hs : sectionLength (payload buf off bytesBfrSecLen) + bytesBfrSecLen = size := htbl
    rw [hs, hcopy, payload_slice (by omega)]
    simp [hw, subtract_ok (Nat.min_le_right size left)]
  · show 3 ≤ min size left
    omega
  · show min size left ≤ 4096
    omega
  · exact Nat.min_le_left _ _
  · show size = sectionSize (data.cells.take (min size left))
    rw [hdata, sectionSize_take hsize3]
  · simp [view, progress, Assembler.setPart, hdata, storedLengths]

/-- Resetting the status loses the section in progress and nothing else. -/
theorem reset_spec (h : RepInvariant pkt) :
    RepInvariant { pkt with statusPartial := .empty } ∧
      view { pkt with statusPartial := .empty } = (view pkt).setPart .idle :=
  ⟨⟨⟨h.fullNumber, h.fullBufferLen, h.fullBufferRoom, h.storedLength, h.lenFull⟩,
    h.lenPartial, by simp, by simp, by simp⟩, rfl⟩

/-- A started section takes what it misses of the payload. -/
theorem appendPart_spec (buf : Packet) (h : StoreInvariant pkt)
    (hs : pkt.statusPartial = .started)
    (hlen : pkt.lenPartial ≤ 4096) (hexp : pkt.lenPartial < pkt.expectedLenPartial)
    {off left : Nat} (hoff : off + left ≤ 188) (h3 : 3 ≤ pkt.lenPartial + left)
    (hsize : pkt.expectedLenPartial = sectionSize (partBytes pkt ++ payload buf off left))
    (cc : Nat) :
    ∃ pkt₁ n, appendPart buf off pkt left cc = .ok (.copied pkt₁ n 0) ∧ Growing pkt₁ ∧
      pkt₁.expectedLenPartial = pkt.expectedLenPartial ∧
      partBytes pkt₁ = partBytes pkt ++ (payload buf off left).take
        (min (pkt.expectedLenPartial - (partBytes pkt).length)
          (maxTsSize - (partBytes pkt).length)) ∧
      view pkt₁ = (view pkt).setPart
        (.body (partBytes pkt₁) pkt.expectedLenPartial pkt.pid cc) := by
  let n := min (min (pkt.expectedLenPartial - pkt.lenPartial) (4096 - pkt.lenPartial)) left
  have hexp3 := three_le_sectionSize (partBytes pkt ++ payload buf off left)
  have hlp := length_partBytes hlen
  have hn : (payload buf off n).length = n := length_payload buf (by omega)
  obtain ⟨data, hw, hc⟩ := pkt.dataPartial.write_ok pkt.lenPartial (payload buf off n) (by simp only [maxTsSize]; omega)
  let pkt₁ := { pkt with dataPartial := data, lenPartial := pkt.lenPartial + n, cc := cc }
  have happend : appendPart buf off pkt left cc = .ok (.copied pkt₁ n 0) := by
    unfold appendPart
    have hfirst : (if pkt.expectedLenPartial < pkt.lenPartial + left
        then subtract pkt.expectedLenPartial pkt.lenPartial else .ok left) =
        .ok (min (pkt.expectedLenPartial - pkt.lenPartial) left) := by
      split
      · rw [subtract_ok (by omega)]
        congr 1
        omega
      · congr 1
        omega
    have hsecond : (if 4096 < pkt.lenPartial + min (pkt.expectedLenPartial - pkt.lenPartial) left
        then subtract 4096 pkt.lenPartial
        else .ok (min (pkt.expectedLenPartial - pkt.lenPartial) left)) = .ok n := by
      split
      · rw [subtract_ok hlen]
        congr 1
        omega
      · congr 1
        omega
    rw [hfirst, bind_ok, hsecond, bind_ok, payload_slice (by omega), bind_ok, hw]
    rfl
  have hbytes : partBytes pkt₁ = partBytes pkt ++ payload buf off n := by
    simp only [partBytes, pkt₁]
    rw [hc, take_splice (by rw [pkt.dataPartial.length_cells]; exact hlen) (by rw [hn])]
  have hsize₁ : pkt.expectedLenPartial = sectionSize (partBytes pkt ++ payload buf off n) := by
    rw [hsize]
    by_cases hall : n = left
    · rw [hall]
    · have htake : partBytes pkt ++ payload buf off n =
          (partBytes pkt ++ payload buf off left).take (pkt.lenPartial + n) := by
        rw [← hlp, List.take_length_add_append, take_payload (Nat.min_le_right _ _)]
      rw [htake, sectionSize_take (by omega)]
  have htake : (payload buf off left).take
      (min (pkt.expectedLenPartial - (partBytes pkt).length) (maxTsSize - (partBytes pkt).length)) =
      payload buf off n := by
    rw [List.take_eq_take_min, length_payload buf hoff, hlp, take_payload (Nat.min_le_right _ _)]
  refine ⟨pkt₁, n, happend,
    ⟨⟨h.fullNumber, h.fullBufferLen, h.fullBufferRoom, h.storedLength, h.lenFull⟩, hs, ?_, ?_, ?_,
      ?_⟩, rfl, ?_, ?_⟩
  · show 3 ≤ pkt.lenPartial + n
    omega
  · show pkt.lenPartial + n ≤ 4096
    omega
  · show pkt.lenPartial + n ≤ pkt.expectedLenPartial
    omega
  · rw [hbytes]
    exact hsize₁
  · rw [hbytes, htake]
  · simp only [pkt₁, view, progress, hs, Assembler.setPart, storedLengths, partBytes]

/-- A header cut by the end of the previous packet is completed, or the section is lost. -/
theorem completeHeader_spec (buf : Packet) (h : RepInvariant pkt)
    (hs : pkt.statusPartial = .partialHeader)
    {off left : Nat} (hoff : off + left ≤ 188) (h3 : 3 - pkt.lenPartial ≤ left) :
    ∃ pkt₁, completeHeader buf off pkt left = .ok (some pkt₁) ∧ StoreInvariant pkt₁ ∧
      pkt₁.statusPartial = .started ∧ pkt₁.lenPartial = pkt.lenPartial ∧
      partBytes pkt₁ = partBytes pkt ∧ pkt₁.pid = pkt.pid ∧ view pkt₁ = (view pkt).setPart
        (.body (partBytes pkt) pkt₁.expectedLenPartial pkt.pid pkt.cc) ∧
      pkt₁.expectedLenPartial = sectionSize (partBytes pkt ++ payload buf off left) := by
  have hlt := h.partialHeader hs
  have hlp := length_partBytes h.lenPartial
  have hm : (payload buf off (3 - pkt.lenPartial)).length = 3 - pkt.lenPartial :=
    length_payload buf (by omega)
  obtain ⟨data, hw, hc⟩ := pkt.dataPartial.write_ok pkt.lenPartial (payload buf off (3 - pkt.lenPartial)) (by simp only [maxTsSize]; omega)
  have hin : pkt.lenPartial ≤ pkt.dataPartial.cells.length := by
    rw [pkt.dataPartial.length_cells]
    exact h.lenPartial
  have hkeep : data.cells.take pkt.lenPartial = partBytes pkt := by
    rw [hc, take_splice_of_le (Nat.le_refl _) hin, partBytes]
  have hhead : sectionSize data.cells = sectionSize (partBytes pkt ++ payload buf off left) := by
    have h1 : data.cells.take 3 = partBytes pkt ++ payload buf off (3 - pkt.lenPartial) := by
      rw [hc, take_splice hin (by omega), partBytes]
    have h2 : (partBytes pkt ++ payload buf off left).take 3 =
        partBytes pkt ++ payload buf off (3 - pkt.lenPartial) := by
      have he : 3 = (partBytes pkt).length + (3 - pkt.lenPartial) := by omega
      conv_lhs => rw [he]
      rw [List.take_length_add_append, take_payload h3]
    rw [← sectionSize_take (Nat.le_refl 3), h1, ← h2, sectionSize_take (Nat.le_refl 3)]
  refine ⟨{ pkt with
      dataPartial := data
      expectedLenPartial := sectionSize data.cells
      statusPartial := .started }, ?_,
    ⟨h.fullNumber, h.fullBufferLen, h.fullBufferRoom, h.storedLength, h.lenFull⟩,
    rfl, rfl, hkeep, rfl, ?_, hhead⟩
  · rw [completeHeader, if_pos hs, if_neg (by omega), subtract_ok (by omega), bind_ok,
      if_neg (by omega), payload_slice (by omega), bind_ok, hw]
    rfl
  · simp only [view, progress, Assembler.setPart, storedLengths, hkeep]

/-- The payload continues the section in progress as `continuation` says. -/
theorem continuePart_spec (buf : Packet) (h : RepInvariant pkt) (off left : Nat)
    (hoff : off + left ≤ 188) (pid cc : Nat) :
    (∃ pkt', continuePart buf off pkt left pid cc = .ok (.returned pkt') ∧ RepInvariant pkt' ∧
      (continuation (view pkt).part (payload buf off left) pid cc = .kept ∧ view pkt' = view pkt ∨
        continuation (view pkt).part (payload buf off left) pid cc = .lost ∧
          view pkt' = (view pkt).setPart .idle)) ∨
    ∃ bytes pkt₁ n, continuePart buf off pkt left pid cc = .ok (.copied pkt₁ n 0) ∧ Growing pkt₁ ∧
      continuation (view pkt).part (payload buf off left) pid cc =
        .grown bytes pkt₁.expectedLenPartial ∧
      partBytes pkt₁ = bytes ++ (payload buf off left).take
        (min (pkt₁.expectedLenPartial - bytes.length) (maxTsSize - bytes.length)) ∧
      view pkt₁ = (view pkt).setPart (.body (partBytes pkt₁) pkt₁.expectedLenPartial pid cc) := by
  obtain ⟨hreset, hlost⟩ := reset_spec h
  by_cases hidle : pkt.statusPartial ≠ .started ∧ pkt.statusPartial ≠ .partialHeader
  · have hpart : (view pkt).part = .idle := by
      cases hst : pkt.statusPartial <;> simp_all [view, progress]
    refine .inl ⟨_, by rw [continuePart, if_pos hidle], hreset, .inl ⟨by rw [hpart]; rfl, ?_⟩⟩
    rw [hlost, ← hpart]
    rfl
  by_cases hdup : pkt.cc = cc
  · refine .inl ⟨pkt, by rw [continuePart, if_neg hidle, if_pos hdup], h, .inl ⟨?_, rfl⟩⟩
    cases hst : pkt.statusPartial <;> simp_all [view, progress, continuation]
  by_cases hcc : (pkt.cc + 1) % 16 ≠ cc
  · refine .inl ⟨_, by rw [continuePart, if_neg hidle, if_neg hdup, if_pos hcc], hreset,
      .inr ⟨?_, hlost⟩⟩
    cases hst : pkt.statusPartial <;> simp_all [view, progress, continuation]
  by_cases hpid : pkt.pid ≠ pid
  · refine .inl ⟨_, by rw [continuePart, if_neg hidle, if_neg hdup, if_neg hcc, if_pos hpid],
      hreset, .inr ⟨?_, hlost⟩⟩
    cases hst : pkt.statusPartial <;> simp_all [view, progress, continuation]
  have hshortened : completeHeader buf off pkt left = .ok none →
      continuePart buf off pkt left pid cc =
        .ok (.returned { pkt with statusPartial := .empty }) := fun hr => by
    simp only [continuePart, if_neg hidle, if_neg hdup, if_neg hcc, if_neg hpid, hr, bind_ok,
      pure_ok]
  have hcont : ∀ p, completeHeader buf off pkt left = .ok (some p) →
      continuePart buf off pkt left pid cc = appendPart buf off p left cc := fun p hr => by
    simp only [continuePart, if_neg hidle, if_neg hdup, if_neg hcc, if_neg hpid, hr, bind_ok]
  have hpe : pkt.pid = pid := by simpa using hpid
  have hce : (pkt.cc + 1) % 16 = cc := by simpa using hcc
  have hlp := length_partBytes h.lenPartial
  cases hst : pkt.statusPartial with
  | empty => simp [hst] at hidle
  | valid => simp [hst] at hidle
  | partialHeader =>
    have hlt := h.partialHeader hst
    have hv : (view pkt).part = .header (partBytes pkt) pkt.pid pkt.cc := by
      simp [view, progress, hst, partBytes]
    have hcontv : continuation (view pkt).part (payload buf off left) pid cc =
        if left < 3 - pkt.lenPartial then .lost
        else .grown (partBytes pkt) (sectionSize (partBytes pkt ++ payload buf off left)) := by
      simp [continuation, hv, hdup, hce, hpe, hlp, length_payload buf hoff]
    rw [hcontv]
    by_cases hshort : left < 3 - pkt.lenPartial
    · refine .inl ⟨_, hshortened ?_, hreset, .inr ⟨if_pos hshort, hlost⟩⟩
      simp only [completeHeader, if_pos hst, if_neg (show ¬ 3 ≤ pkt.lenPartial by omega),
        subtract_ok (show pkt.lenPartial ≤ 3 by omega), bind_ok, if_pos hshort, pure_ok]
    · obtain ⟨pkt₁, hhead, hinv₁, hst₁, hlen₁, hbytes₁, hpid₁, hview₁, hsize₁⟩ :=
        completeHeader_spec buf h hst hoff (by omega)
      have hlen4 := h.lenPartial
      have h3 := three_le_sectionSize (partBytes pkt ++ payload buf off left)
      obtain ⟨pkt₂, n, hap, hgrow, hexp, hbytes, hview⟩ := appendPart_spec buf hinv₁ hst₁
        (by omega) (by omega) hoff (by omega) (by rw [hbytes₁]; exact hsize₁) cc
      refine .inr ⟨partBytes pkt, pkt₂, n, by rw [hcont _ hhead]; exact hap, hgrow, ?_, ?_, ?_⟩
      · rw [if_neg hshort, hexp, hsize₁]
      · rw [hbytes, hbytes₁, hexp]
      · rw [hview, hview₁, hpid₁, hpe, hexp, Assembler.setPart_setPart]
  | started =>
    obtain ⟨hlt, _⟩ := h.started hst
    obtain ⟨h3, hsize⟩ := h.headerRead hst
    have hv : (view pkt).part = .body (partBytes pkt) pkt.expectedLenPartial pkt.pid pkt.cc := by
      simp [view, progress, hst, partBytes]
    obtain ⟨pkt₂, n, hap, hgrow, hexp, hbytes, hview⟩ := appendPart_spec buf
      h.toStoreInvariant hst
      h.lenPartial hlt hoff (by omega) (by rw [sectionSize_append (by omega)]; exact hsize) cc
    refine .inr ⟨partBytes pkt, pkt₂, n, ?_, hgrow, ?_, ?_, ?_⟩
    · rw [hcont pkt (if_neg (by simp [hst]))]
      exact hap
    · rw [hexp]
      simp [continuation, hv, hdup, hce, hpe]
    · rw [hbytes, hexp]
    · rw [hview, hpe, hexp]

/-- A payload without the start of a section. -/
theorem addContinue_spec (buf : Packet) (h : RepInvariant pkt) (off left : Nat)
    (hoff : off + left ≤ 188) (fuel pid cc : Nat) :
    ∃ pkt', addTsPacketData (fuel + 1) buf off pkt left .noStart pid cc = .ok pkt' ∧
      RepInvariant pkt' ∧ view pkt' = (view pkt).append (payload buf off left) pid cc := by
  rw [Assembler.append_eq]
  rcases continuePart_spec buf h off left hoff pid cc with
    ⟨pkt', hret, hinv, hkept⟩ | ⟨bytes, pkt₁, n, hcopied, hgrow, hcont, hbytes, hview₁⟩
  · refine ⟨pkt', by simp [addTsPacketData, addBranch, hret], hinv, ?_⟩
    rcases hkept with ⟨hcont, hview⟩ | ⟨hcont, hview⟩ <;> rw [hcont, hview] <;> rfl
  · obtain ⟨pkt', hfin, hinv, -, hview⟩ := finishPart_spec hgrow
    -- nothing is left for a further section
    refine ⟨pkt', by simp [addTsPacketData, addBranch, hcopied, hgrow.started, hfin], hinv, ?_⟩
    rw [hcont, Assembler.continueWith, Assembler.grow, ← hbytes, length_partBytes hgrow.atMost, hview,
      hview₁, complete_setPart]

theorem read_payload (off left : Nat) (hoff : off + left ≤ 188) (hl : 0 < left) :
    buf.read off = .ok (byteAt (payload buf off left) 0) := by
  have hlt : off < buf.cells.length := by
    rw [buf.length_cells]
    simp only [tsPacketSize]
    omega
  rw [buf.read_ok (List.getElem?_eq_getElem hlt)]
  simp [byteAt, payload, hl, List.getElem?_eq_getElem hlt]

/-- Without a stuffing byte a section starts. -/
theorem addBranch_start (buf : Packet) (off left : Nat) (flag : StartFlag) (hflag : flag ≠ .noStart)
    (hstuff : flag = .startSection → 0 < left ∧ byteAt (payload buf off left) 0 ≠ 0xff)
    (hoff : off + left ≤ 188) (pid cc : Nat) :
    addBranch buf off pkt left flag pid cc = startPart buf off pkt left pid cc := by
  have hnot : isStuffing buf off flag = .ok false := by
    cases flag with
    | noStart => exact absurd rfl hflag
    | startTs => rfl
    | startSection =>
      obtain ⟨hpos, hff⟩ := hstuff rfl
      simp [isStuffing, read_payload _ _ hoff hpos, hff]
  rw [addBranch, if_neg hflag, hnot]
  rfl

/-- A payload in which a section starts, and the sections that follow it there. -/
theorem addStart_spec (buf : Packet) (fuel : Nat) (h : RepInvariant pkt) (off left : Nat)
    (flag : StartFlag) (hflag : flag ≠ .noStart)
    (hstuff : flag = .startSection → 0 < left ∧ byteAt (payload buf off left) 0 ≠ 0xff)
    (hoff : off + left ≤ 188) (hfuel : left < fuel) (pid cc : Nat) :
    ∃ pkt', addTsPacketData fuel buf off pkt left flag pid cc = .ok pkt' ∧
      RepInvariant pkt' ∧ view pkt' = (view pkt).start (payload buf off left) pid cc := by
  induction fuel generalizing pkt off left flag with
  | zero => omega
  | succ fuel ih =>
    have hlen := length_payload buf hoff
    have hbranch := @addBranch_start pkt buf off left flag hflag hstuff hoff pid cc
    unfold addTsPacketData
    rw [hbranch, Assembler.start, hlen]
    by_cases h3 : left < 3
    · obtain ⟨pkt', hpart, hinv, hst, hview⟩ := startPart_header buf h.toStoreInvariant
        hoff h3 pid cc
      rw [hpart, if_pos h3]
      exact ⟨pkt', by simp [hst], hinv, hview⟩
    · obtain ⟨pkt₁, hpart, hgrow₁, hlen₁, hexp₁, hbytes₁, hview₁⟩ := startPart_body buf
        h.toStoreInvariant hoff (by omega) pid cc
      have hsz3 := three_le_sectionSize (payload buf off left)
      obtain ⟨pkt₂, hfin, hinv₂, hst₂, hview₂⟩ := finishPart_spec hgrow₁
      rw [hpart, if_neg h3]
      simp only [bind_ok, hgrow₁.started, ne_eq, reduceCtorEq, not_false_eq_true, if_true, hfin]
      rw [hexp₁, hlen₁, hview₁, hbytes₁] at hview₂
      by_cases hfit : sectionSize (payload buf off left) ≤ left
      · have hmin : min (sectionSize (payload buf off left)) left =
            sectionSize (payload buf off left) := Nat.min_eq_left hfit
        rw [if_pos (by omega), complete_setPart] at hview₂
        rw [if_pos hfit, hmin, ← hview₂, drop_payload]
        by_cases hend : left - sectionSize (payload buf off left) = 0
        · refine ⟨pkt₂, by rw [if_neg (by omega)]; rfl, hinv₂, ?_⟩
          rw [if_pos (Or.inl (by rw [hend, payload, List.take_zero]))]
        · have hpos : 0 < left - sectionSize (payload buf off left) := by omega
          have hoff' : off + sectionSize (payload buf off left) +
              (left - sectionSize (payload buf off left)) ≤ 188 := by omega
          rw [if_pos hend]
          by_cases hff : byteAt (payload buf (off + sectionSize (payload buf off left))
              (left - sectionSize (payload buf off left))) 0 = 0xff
          · refine ⟨pkt₂, ?_, hinv₂, by rw [if_pos (Or.inr hff)]⟩
            cases fuel with
            | zero => omega
            | succ fuel =>
              simp [addTsPacketData, addBranch, isStuffing, read_payload _ _ hoff' hpos, hff]
          · have hne : payload buf (off + sectionSize (payload buf off left))
                (left - sectionSize (payload buf off left)) ≠ [] := by
              intro hnil
              have := length_payload buf hoff'
              rw [hnil] at this
              simp only [List.length_nil] at this
              omega
            rw [if_neg (by simp [hne, hff])]
            exact ih hinv₂ _ _ _ (by simp) (fun _ => ⟨hpos, hff⟩) hoff' (by omega)
      · rw [if_neg (by omega)] at hview₂
        refine ⟨pkt₂, ?_, hinv₂, ?_⟩
        · rw [if_neg (by omega)]
          rfl
        · rw [hview₂, if_neg hfit, List.take_of_length_le (by omega)]

/-- The two `memmove`s of a pop drop the first length and its bytes. -/
theorem shiftFull_spec (pkt : MumudvbTsPacket) (len : Nat) (lens : List Nat) (hn : pkt.fullNumber < 15)
    (hlens : pkt.fullLengths.cells.take (pkt.fullNumber + 1) = len :: lens)
    (hlen : pkt.lenFull = len) (hsum : pkt.fullBufferLen = lens.sum) (hroom : len + lens.sum < 8192) :
    ∃ buf lenArr, shiftFull pkt = .ok { pkt with bufferFull := buf, fullLengths := lenArr } ∧
      lenArr.cells.take pkt.fullNumber = lens ∧
      cut lens buf.cells = cut lens (pkt.bufferFull.cells.drop len) := by
  have hcount : lens.length = pkt.fullNumber := by
    have := congrArg List.length hlens
    rw [List.length_take, pkt.fullLengths.length_cells, List.length_cons] at this
    simp only [maxFullPackets] at this
    omega
  unfold shiftFull
  by_cases hpos : 0 < pkt.fullNumber
  · have hrest : ((pkt.bufferFull.cells.drop len).take lens.sum).length = lens.sum := by
      rw [List.length_take, List.length_drop, pkt.bufferFull.length_cells]
      simp only [fullBufferSize]
      omega
    have hshift : ((pkt.fullLengths.cells.drop 1).take 14).length = 14 := by simp
    obtain ⟨buf, hbw, hbc⟩ := pkt.bufferFull.write_ok 0 ((pkt.bufferFull.cells.drop len).take lens.sum) (by rw [hrest]; simp only [fullBufferSize]; omega)
    obtain ⟨lenArr, hlw, hlc⟩ := pkt.fullLengths.write_ok 0 ((pkt.fullLengths.cells.drop 1).take 14) (by rw [hshift]; simp)
    refine ⟨buf, lenArr, ?_, ?_, ?_⟩
    · rw [if_pos hpos, hlen, hsum, Buffer.slice_ok _ (by simp only [fullBufferSize]; omega), bind_ok, hbw, bind_ok,
        Buffer.slice_ok _ (by simp), bind_ok, show maxFullPackets - 1 = 14 from rfl, hlw]
      rfl
    · have htail := congrArg List.tail hlens
      rw [List.tail_cons, ← List.drop_one, List.drop_take, Nat.add_sub_cancel] at htail
      have hmin : min pkt.fullNumber 14 = pkt.fullNumber := by omega
      rw [hlc, ← Nat.min_eq_left (a := pkt.fullNumber) (b := 14) (by omega), ← List.take_take,
        take_splice (Nat.zero_le _) (by rw [hshift]), List.take_zero, List.nil_append,
        List.take_take, hmin, htail]
    · rw [← cut_take buf.cells (Nat.le_refl _), hbc,
        take_splice (Nat.zero_le _) (by rw [hrest, Nat.zero_add]), List.take_zero, List.nil_append,
        cut_take _ (Nat.le_refl _)]
  · have hnil : lens = [] := List.length_eq_zero_iff.mp (by omega)
    exact ⟨pkt.bufferFull, pkt.fullLengths, if_neg hpos, by rw [hnil, show pkt.fullNumber = 0 by omega]; rfl,
      by rw [hnil]; rfl⟩

theorem shiftFull_frame {pkt' : MumudvbTsPacket} (h : shiftFull pkt = .ok pkt') :
    ∃ buf lengths, pkt' = { pkt with bufferFull := buf, fullLengths := lengths } := by
  rw [shiftFull] at h
  split at h
  · simp only [bind_eq_ok] at h
    obtain ⟨_, _, buf, _, _, _, lengths, _, h⟩ := h
    cases h
    exact ⟨buf, lengths, rfl⟩
  · cases h
    exact ⟨_, _, rfl⟩

/-- A pop copies a section over the start of `data_full` and does not touch the section in
progress. -/
theorem popFull_frame {avail : Bool} {pkt' : MumudvbTsPacket} (h : popFull pkt = .ok (avail, pkt')) :
    avail = false ∧ pkt' = pkt ∨
      avail = true ∧ ∃ src data buf n lengths len, src.length = pkt'.lenFull ∧
        data.cells = splice pkt.dataFull.cells 0 src ∧
        pkt' = { pkt with
          dataFull := data, lenFull := pkt'.lenFull, bufferFull := buf, fullNumber := n
          fullLengths := lengths, fullBufferLen := len } := by
  rw [popFull] at h
  split at h
  · right
    simp only [bind_eq_ok] at h
    obtain ⟨len, _, src, hsrc, data, hdata, left, _, pkt₁, hshift, h⟩ := h
    cases h
    obtain ⟨buf, lengths, rfl⟩ := shiftFull_frame hshift
    have hlen : src.length = len := by
      rw [Buffer.slice] at hsrc
      split at hsrc
      case isTrue hin =>
        cases hsrc
        rw [List.length_take, List.length_drop, pkt.bufferFull.length_cells]
        omega
      case isFalse => cases hsrc
    exact ⟨rfl, src, data, buf, _, lengths, left, hlen, Buffer.write_eq_ok hdata, rfl⟩
  · cases h
    exact Or.inl ⟨rfl, rfl⟩

/-- Popping hands out the oldest section and keeps the rest, in order. -/
theorem popFull_spec (h : RepInvariant pkt) :
    ∃ pkt', popFull pkt = .ok (decide ((view pkt).store ≠ []), pkt') ∧ RepInvariant pkt' ∧
      view pkt' = ⟨(view pkt).store.tail, (view pkt).part⟩ ∧
      ∀ s, (view pkt).store.head? = some s → pkt'.dataFull.cells.take pkt'.lenFull = s := by
  have hnum := length_store h.toStoreInvariant
  by_cases hpos : 0 < pkt.fullNumber
  · obtain ⟨len, lens, hstored⟩ : ∃ len lens, storedLengths pkt = len :: lens := by
      apply List.exists_cons_of_ne_nil
      intro hnil
      have := length_storedLengths h.toStoreInvariant
      rw [hnil, List.length_nil] at this
      omega
    have hstore : (view pkt).store = pkt.bufferFull.cells.take len ::
        cut lens (pkt.bufferFull.cells.drop len) := by rw [view, hstored, cut_cons]
    obtain ⟨hl3, hl⟩ := h.storedLength len (by rw [hstored]; exact List.mem_cons_self)
    have hsum : pkt.fullBufferLen = len + lens.sum := by
      rw [h.fullBufferLen, hstored, List.sum_cons]
    have hroom := h.fullBufferRoom
    have hmax := h.fullNumber
    have hread : pkt.fullLengths.read 0 = .ok len := by
      apply Buffer.read_ok
      have h0 : (storedLengths pkt)[0]? = some len := by rw [hstored]; rfl
      rwa [storedLengths, List.getElem?_take_of_lt hpos] at h0
    have hlen : (pkt.bufferFull.cells.take len).length = len := by
      rw [List.length_take, pkt.bufferFull.length_cells, Nat.min_eq_left (by simp only [fullBufferSize]; omega)]
    obtain ⟨data, hw, hc⟩ := pkt.dataFull.write_ok 0 (pkt.bufferFull.cells.take len)
      (by simp only [hlen, maxTsSize]; omega)
    have hdata : data.cells.take len = pkt.bufferFull.cells.take len := by
      rw [hc, take_splice (Nat.zero_le _) (by omega)]
      simp
    have hone : pkt.fullNumber - 1 + 1 = pkt.fullNumber := by omega
    have hleft : pkt.fullBufferLen - len = lens.sum := by omega
    obtain ⟨buf, lenArr, hshift, hlens', hcut⟩ := shiftFull_spec { pkt with
        lenFull := len
        dataFull := data
        fullNumber := pkt.fullNumber - 1
        fullBufferLen := lens.sum } len lens
      (by simp only; omega) (by simp only [hone]; exact hstored) rfl rfl (by omega)
    let pkt' := { pkt with
      lenFull := len
      dataFull := data
      fullNumber := pkt.fullNumber - 1
      fullBufferLen := lens.sum
      bufferFull := buf
      fullLengths := lenArr }
    have hstored' : storedLengths pkt' = lens := hlens'
    refine ⟨pkt', ?_, ⟨⟨?_, ?_, ?_, ?_, hl⟩, h.lenPartial, h.partialHeader, h.started, h.headerRead⟩,
      ?_, ?_⟩
    · rw [popFull, if_pos hpos, hread, bind_ok, Buffer.slice_ok _ (by simp only [fullBufferSize]; omega),
        bind_ok, List.drop_zero, hw, bind_ok, subtract_ok (by omega), bind_ok, hleft, hshift, hstore]
      rfl
    · simp only [pkt']
      omega
    · rw [hstored']
    · simp only [pkt']
      omega
    · intro l hmem
      rw [hstored'] at hmem
      exact h.storedLength l (by rw [hstored]; exact List.mem_cons_of_mem _ hmem)
    · rw [view, hstored', hstore, List.tail_cons]
      simp only [pkt', hcut]
      rfl
    · intro s hs
      rw [hstore, List.head?_cons, Option.some.injEq] at hs
      rw [← hs]
      exact hdata
  · have hnil : (view pkt).store = [] := List.length_eq_zero_iff.mp (by omega)
    refine ⟨pkt, ?_, h, ?_, ?_⟩
    · rw [popFull, if_neg hpos, hnil]
      rfl
    · rw [hnil, List.tail_nil, ← hnil]
    · simp [hnil]

/-- The section handed to the caller: only a pop changes it. -/
def SameOutput (p q : MumudvbTsPacket) : Prop := q.dataFull = p.dataFull ∧ q.lenFull = p.lenFull

theorem SameOutput.trans {p q r : MumudvbTsPacket} (h : SameOutput p q) (h' : SameOutput q r) :
    SameOutput p r := ⟨h'.1.trans h.1, h'.2.trans h.2⟩

theorem tsMovePartToFull_sameOutput {pkt' : MumudvbTsPacket} (h : tsMovePartToFull pkt = .ok pkt') :
    SameOutput pkt pkt' := by
  unfold tsMovePartToFull at h
  split at h
  · cases h
    exact ⟨rfl, rfl⟩
  · split at h
    · cases h
      exact ⟨rfl, rfl⟩
    · simp only [bind_eq_ok, pure_ok, Except.ok.injEq] at h
      obtain ⟨_, _, _, _, _, _, rfl⟩ := h
      exact ⟨rfl, rfl⟩

theorem finishPart_sameOutput {pkt' : MumudvbTsPacket} (h : finishPart pkt = .ok pkt') :
    SameOutput pkt pkt' := by
  unfold finishPart tsPartialFull at h
  split at h
  · next p hp =>
    split at hp
    · cases hp
      simp only [bind_eq_ok, tsCheckCrc32] at h
      obtain ⟨⟨good, q⟩, ⟨b, _, hq⟩, h⟩ := h
      cases b <;> cases hq
      · cases h
        exact ⟨rfl, rfl⟩
      · simp only [if_true] at h
        have hmove := tsMovePartToFull_sameOutput h
        exact ⟨hmove.1, hmove.2⟩
    · cases hp
  · next p hp =>
    cases h
    split at hp <;> cases hp
    exact ⟨rfl, rfl⟩

/-- The state a branch of `add_ts_packet_data` ends in. -/
def outcomeState : AddOutcome → MumudvbTsPacket
  | .returned p => p
  | .copied p _ _ => p

theorem startPart_sameOutput {off left pid cc : Nat} {outcome : AddOutcome}
    (h : startPart buf off pkt left pid cc = .ok outcome) :
    SameOutput pkt (outcomeState outcome) := by
  unfold startPart at h
  split at h
  · simp only [bind_eq_ok, pure_ok, Except.ok.injEq] at h
    obtain ⟨_, _, _, _, rfl⟩ := h
    exact ⟨rfl, rfl⟩
  · simp only [bind_eq_ok, pure_ok, Except.ok.injEq] at h
    obtain ⟨_, _, _, _, _, _, _, _, rfl⟩ := h
    exact ⟨rfl, rfl⟩

theorem completeHeader_sameOutput {off left : Nat} {pkt' : MumudvbTsPacket}
    (h : completeHeader buf off pkt left = .ok (some pkt')) : SameOutput pkt pkt' := by
  unfold completeHeader at h
  split at h
  · split at h
    · cases h
    · simp only [bind_eq_ok] at h
      obtain ⟨_, _, h⟩ := h
      split at h
      · cases h
      · simp only [bind_eq_ok, pure_ok, Except.ok.injEq, Option.some.injEq] at h
        obtain ⟨_, _, _, _, rfl⟩ := h
        exact ⟨rfl, rfl⟩
  · cases h
    exact ⟨rfl, rfl⟩

theorem continuePart_sameOutput {off left pid cc : Nat} {outcome : AddOutcome}
    (h : continuePart buf off pkt left pid cc = .ok outcome) :
    SameOutput pkt (outcomeState outcome) := by
  unfold continuePart at h
  split at h
  · cases h
    exact ⟨rfl, rfl⟩
  split at h
  · cases h
    exact ⟨rfl, rfl⟩
  split at h
  · cases h
    exact ⟨rfl, rfl⟩
  split at h
  · cases h
    exact ⟨rfl, rfl⟩
  rw [bind_eq_ok] at h
  obtain ⟨headed, hhead, h⟩ := h
  cases headed with
  | none =>
    cases h
    exact ⟨rfl, rfl⟩
  | some p =>
    have hp := completeHeader_sameOutput hhead
    simp only [appendPart, bind_eq_ok, pure_ok, Except.ok.injEq] at h
    obtain ⟨_, _, _, _, _, _, _, _, rfl⟩ := h
    exact hp

theorem addBranch_sameOutput {off left pid cc : Nat} {flag : StartFlag} {outcome : AddOutcome}
    (h : addBranch buf off pkt left flag pid cc = .ok outcome) :
    SameOutput pkt (outcomeState outcome) := by
  unfold addBranch at h
  split at h
  · exact continuePart_sameOutput h
  · rw [bind_eq_ok] at h
    obtain ⟨stuffing, _, h⟩ := h
    cases stuffing with
    | true =>
      cases h
      exact ⟨rfl, rfl⟩
    | false => exact startPart_sameOutput h

theorem addTsPacketData_sameOutput {fuel off left pid cc : Nat} {flag : StartFlag}
    {pkt' : MumudvbTsPacket}
    (h : addTsPacketData fuel buf off pkt left flag pid cc = .ok pkt') : SameOutput pkt pkt' := by
  induction fuel generalizing pkt off left flag with
  | zero => cases h
  | succ fuel ih =>
    simp only [addTsPacketData, bind_eq_ok] at h
    obtain ⟨outcome, hbranch, h⟩ := h
    have hsame := addBranch_sameOutput hbranch
    cases outcome with
    | returned p =>
      cases h
      exact hsame
    | copied p n left' =>
      simp only at h
      split at h
      · rw [bind_eq_ok] at h
        obtain ⟨q, hfin, h⟩ := h
        have hq := SameOutput.trans (q := p) hsame (finishPart_sameOutput hfin)
        split at h
        · exact hq.trans (ih h)
        · cases h
          exact hq
      · cases h
        exact hsame

theorem payloadOffset_spec (buf : Packet) :
    payloadOffset buf = .ok (payloadStart buf) ∧
      ∀ off, payloadStart buf = some off → 4 ≤ off ∧ off < 188 := by
  have hread : buf.read 4 = .ok (byteAt buf.cells 4) := by
    have hlt : 4 < buf.cells.length := by simp
    rw [buf.read_ok (List.getElem?_eq_getElem hlt)]
    simp [byteAt]
  constructor
  · unfold payloadOffset payloadStart
    simp only [tsHeaderLen, tsPacketSize, Nat.add_one_sub_one, hread, bind_ok]
    split
    · by_cases hbig : 188 ≤ 4 + (byteAt buf.cells 4).toNat + 1
      · rw [if_pos hbig, if_pos (Or.inl hbig)]
        rfl
      · by_cases h2 : adaptationFieldControl buf.cells = 2
        · rw [if_neg hbig, if_pos h2, if_pos (Or.inr h2)]
          rfl
        · rw [if_neg hbig, if_neg h2, if_neg (by simp [hbig, h2])]
          rfl
    · split <;> rfl
  · intro off h
    unfold payloadStart at h
    simp only at h
    split at h
    · split at h <;> cases h
      omega
    · split at h <;> cases h
      omega

theorem byteAt_payload {off : Nat} (h : off < 188) :
    byteAt (payload buf off (188 - off)) 0 = byteAt buf.cells off := by
  have hlt : off < buf.cells.length := by
    rw [buf.length_cells]
    exact h
  have hpos : 0 < 188 - off := by omega
  simp [byteAt, payload, hpos, List.getElem?_eq_getElem hlt]

/-- The payload of an accepted packet is added as `Assembler.add` says. -/
theorem addPayload_spec (buf : Packet) (h : RepInvariant pkt) {off : Nat} (hoff : off < 188) :
    ∃ pkt', addPayload buf off pkt = .ok (decide (¬ (payloadUnitStartIndicator buf.cells ∧
        PointerTooBig buf off)), pkt') ∧ RepInvariant pkt' ∧ SameOutput pkt pkt' ∧
      view pkt' = (view pkt).add buf off := by
  unfold addPayload Assembler.add
  cases hstart : payloadUnitStartIndicator buf.cells with
  | false =>
    obtain ⟨pkt', hadd, hinv, hview⟩ := addContinue_spec buf h off
      (188 - off) (by omega) 187 (TsHeader.pid buf.cells) (continuityCounter buf.cells)
    refine ⟨pkt', ?_, hinv, addTsPacketData_sameOutput hadd, by simpa using hview⟩
    rw [if_neg Bool.false_ne_true, subtract_ok (Nat.le_of_lt hoff), bind_ok]
    simp only [tsPacketSize, addFuel, hadd]
    simp
  | true =>
    have hread : buf.read off = .ok (byteAt buf.cells off) := by
      rw [read_payload off (188 - off) (by omega) (by omega), byteAt_payload hoff]
    rw [if_pos rfl, hread, bind_ok]
    by_cases hbig : PointerTooBig buf off
    · refine ⟨{ pkt with statusPartial := .empty }, ?_, (reset_spec h).1, ⟨rfl, rfl⟩, ?_⟩
      · rw [if_pos (by simpa [PointerTooBig] using hbig)]
        simp [hbig]
      · rw [if_pos rfl, if_pos hbig]
        exact (reset_spec h).2
    · have hroom : off + 1 + (byteAt buf.cells off).toNat ≤ 188 := by
        unfold PointerTooBig at hbig
        omega
      -- the end of the section in progress, when the pointer field announces one
      have hend : ∃ pkt₁, (if (byteAt buf.cells off).toNat ≠ 0
          then addTsPacketData 188 buf (off + 1) pkt (byteAt buf.cells off).toNat .noStart
            (TsHeader.pid buf.cells) (continuityCounter buf.cells)
          else .ok pkt) = .ok pkt₁ ∧ RepInvariant pkt₁ ∧ SameOutput pkt pkt₁ ∧
          view pkt₁ = if (byteAt buf.cells off).toNat ≠ 0
            then (view pkt).append (payload buf (off + 1) (byteAt buf.cells off).toNat)
              (TsHeader.pid buf.cells) (continuityCounter buf.cells)
            else view pkt := by
        by_cases hzero : (byteAt buf.cells off).toNat ≠ 0
        · obtain ⟨pkt₁, hadd, hinv, hview⟩ := addContinue_spec buf h _ _ hroom 187
            (TsHeader.pid buf.cells) (continuityCounter buf.cells)
          exact ⟨pkt₁, by rw [if_pos hzero]; exact hadd, hinv, addTsPacketData_sameOutput hadd,
            by rw [if_pos hzero]; exact hview⟩
        · exact ⟨pkt, if_neg hzero, h, ⟨rfl, rfl⟩, by rw [if_neg hzero]⟩
      obtain ⟨pkt₁, hadd₁, hinv₁, hsame₁, hview₁⟩ := hend
      obtain ⟨pkt', hadd, hinv, hview⟩ := addStart_spec buf 188 hinv₁
        (off + 1 + (byteAt buf.cells off).toNat)
        (188 - (off + 1 + (byteAt buf.cells off).toNat)) .startTs
        (by simp) (by simp) (by omega) (by omega)
        (TsHeader.pid buf.cells) (continuityCounter buf.cells)
      refine ⟨pkt', ?_, hinv, hsame₁.trans (addTsPacketData_sameOutput hadd), ?_⟩
      · rw [if_neg (by simpa [PointerTooBig] using hbig)]
        simp only [tsPacketSize, addFuel]
        rw [hadd₁, bind_ok, subtract_ok hroom, bind_ok, hadd]
        simp [hbig]
      · rw [hview, hview₁, if_pos rfl, if_neg hbig]

theorem decide_stored (h : RepInvariant pkt) :
    decide (0 < pkt.fullNumber) = decide ((view pkt).store ≠ []) := by
  rw [← length_store h.toStoreInvariant]
  simp [List.length_pos_iff]

/-- A call of `get_ts_packet` makes no access outside its arrays, keeps the invariant, and
does what the list assembler does; a section that is popped is in `data_full`. -/
theorem getTsPacket_spec (h : RepInvariant pkt) (input : Option Packet) :
    ∃ pkt', getTsPacket input pkt = .ok (((view pkt).call input).1, pkt') ∧ RepInvariant pkt' ∧
      view pkt' = ((view pkt).call input).2 ∧
      ∀ s, (view pkt).store.head? = some s → pkt'.dataFull.cells.take pkt'.lenFull = s := by
  obtain ⟨pkt₁, hpop, hinv₁, hview₁, hfull₁⟩ := popFull_spec h
  have hpopView : view pkt₁ = (view pkt).pop := hview₁
  have hstored : decide (0 < pkt₁.fullNumber) = decide ((view pkt).pop.store ≠ []) := by
    rw [decide_stored hinv₁, hpopView]
  unfold getTsPacket
  rw [hpop, bind_ok]
  cases input with
  | none => exact ⟨pkt₁, rfl, hinv₁, hpopView, hfull₁⟩
  | some buf =>
    obtain ⟨hoffset, hbound⟩ := payloadOffset_spec buf
    simp only [hoffset, bind_ok, Assembler.call]
    cases hstart : payloadStart buf with
    | none => exact ⟨pkt₁, by rw [hstored]; rfl, hinv₁, hpopView, hfull₁⟩
    | some off =>
      obtain ⟨pkt', hadd, hinv, hsame, hview⟩ := addPayload_spec buf hinv₁
        (hbound off hstart).2
      rw [hpopView] at hview
      refine ⟨pkt', ?_, hinv, ?_, ?_⟩
      · simp only [hadd, bind_ok]
        by_cases hbig : payloadUnitStartIndicator buf.cells ∧ PointerTooBig buf off
        · have hkept : (view pkt').store = (view pkt).pop.store := by
            rw [hview, Assembler.add, if_pos hbig.1, if_pos hbig.2, Assembler.setPart_store]
          rw [decide_stored hinv, hkept]
          simp [hbig]
        · simp [hbig]
      · simp only
        split <;> exact hview
      · intro s hs
        rw [hsame.1, hsame.2]
        exact hfull₁ s hs

/-- After the pop a call leaves `data_full` as it is. -/
theorem getTsPacket_output (h : RepInvariant pkt) {input : Option Packet} {avail : Bool}
    {pkt' : MumudvbTsPacket} (hget : getTsPacket input pkt = .ok (avail, pkt')) :
    ∃ popped pkt₁, popFull pkt = .ok (popped, pkt₁) ∧ SameOutput pkt₁ pkt' := by
  obtain ⟨pkt₁, hpop, hinv₁, _⟩ := popFull_spec h
  refine ⟨_, pkt₁, hpop, ?_⟩
  rw [getTsPacket, hpop, bind_ok] at hget
  cases input with
  | none =>
    cases hget
    exact ⟨rfl, rfl⟩
  | some buf =>
    obtain ⟨hoffset, hbound⟩ := payloadOffset_spec buf
    simp only [hoffset, bind_ok] at hget
    cases hstart : payloadStart buf with
    | none =>
      rw [hstart] at hget
      cases hget
      exact ⟨rfl, rfl⟩
    | some off =>
      obtain ⟨pkt₂, hadd, _, hsame, _⟩ := addPayload_spec buf hinv₁ (hbound off hstart).2
      simp only [hstart, hadd, bind_ok] at hget
      cases hget
      exact hsame

/-- A section that is handed out is copied over the start of `data_full`. -/
theorem getTsPacket_dataFull (h : RepInvariant pkt) {input : Option Packet} {avail : Bool}
    {pkt' : MumudvbTsPacket} (hget : getTsPacket input pkt = .ok (avail, pkt')) {s : List UInt8}
    (hs : (view pkt).store.head? = some s) :
    pkt'.dataFull.cells = splice pkt.dataFull.cells 0 s ∧ pkt'.lenFull = s.length := by
  obtain ⟨popped, pkt₁, hpop, hdata, hlen⟩ := getTsPacket_output h hget
  obtain ⟨pkt₂, hpop₂, _, _, hfull⟩ := popFull_spec h
  rw [hpop, Except.ok.injEq, Prod.mk.injEq] at hpop₂
  obtain ⟨hpopped, rfl⟩ := hpop₂
  rcases popFull_frame hpop with ⟨hfalse, _⟩ | ⟨_, src, data, _, _, _, _, hsrc, hcells, hpkt⟩
  · rw [hfalse] at hpopped
    have hnil : (view pkt).store = [] := by simpa using hpopped.symm
    rw [hnil] at hs
    cases hs
  · have hdata₁ : pkt₁.dataFull = data := by rw [hpkt]
    have hsame := hfull s hs
    rw [hdata₁, hcells, ← hsrc, take_splice_zero] at hsame
    rw [hdata, hlen, hdata₁, hcells, ← hsrc, hsame]
    exact ⟨rfl, rfl⟩

/-- What a call that reports a section has done: the section is the oldest one of the store. -/
theorem getTsPacket_handed (h : RepInvariant pkt) {input : Option Packet} {pkt' : MumudvbTsPacket}
    (hget : getTsPacket input pkt = .ok (true, pkt')) :
    RepInvariant pkt' ∧ view pkt' = ((view pkt).call input).2 ∧
      ∃ s, (view pkt).store.head? = some s ∧ pkt'.dataFull.cells.take pkt'.lenFull = s ∧
        pkt'.dataFull.cells = splice pkt.dataFull.cells 0 s ∧ pkt'.lenFull = s.length := by
  obtain ⟨pkt₁, hspec, hinv, hview, hfull⟩ := getTsPacket_spec h input
  rw [hget, Except.ok.injEq, Prod.mk.injEq] at hspec
  obtain ⟨havail, rfl⟩ := hspec
  obtain ⟨s, later, hstore⟩ := List.exists_cons_of_ne_nil (call_avail havail.symm)
  have hs : (view pkt).store.head? = some s := by rw [hstore, List.head?_cons]
  exact ⟨hinv, hview, s, hs, hfull s hs, getTsPacket_dataFull h hget hs⟩

/-- The representation invariant, with what is known of the stored sections. -/
structure Healthy (pkt : MumudvbTsPacket) : Prop extends RepInvariant pkt where
  sound : Sound (view pkt)

theorem healthy_zeroed : Healthy zeroed := ⟨zeroed_repInvariant, sound_empty⟩

/-- A call keeps the structure healthy; what it hands out is a section that passed the CRC check,
of the length that its header announces. -/
theorem Healthy.get (h : Healthy pkt) {input : Option Packet} {avail : Bool}
    {pkt' : MumudvbTsPacket} (hget : getTsPacket input pkt = .ok (avail, pkt')) :
    Healthy pkt' ∧ view pkt' = ((view pkt).call input).2 ∧
      (avail = true → (view pkt).store ≠ [] ∧
        Accepted (pkt'.dataFull.cells.take pkt'.lenFull) ∧
        pkt'.lenFull = sectionSize (pkt'.dataFull.cells.take pkt'.lenFull)) := by
  obtain ⟨pkt₁, hspec, hinv, hview, -⟩ := getTsPacket_spec h.toRepInvariant input
  rw [hget, Except.ok.injEq, Prod.mk.injEq] at hspec
  obtain ⟨-, rfl⟩ := hspec
  refine ⟨⟨hinv, by rw [hview]; exact h.sound.call input⟩, hview, ?_⟩
  rintro rfl
  obtain ⟨-, -, s, hs, htake, -, hlen⟩ := getTsPacket_handed h.toRepInvariant hget
  obtain ⟨later, hstore⟩ := List.head?_eq_some_iff.mp hs
  obtain ⟨hacc, hsize⟩ := h.sound.stored s (by rw [hstore]; exact List.mem_cons_self)
  exact ⟨by rw [hstore]; exact List.cons_ne_nil _ _, by rw [htake]; exact hacc,
    by rw [htake, hlen, hsize]⟩

/-- The invariant of one call carries a whole sequence of calls. -/
theorem getTsPackets_spec (h : RepInvariant pkt) (bufs : List (Option Packet)) :
    ∃ pkt', getTsPackets bufs pkt = .ok pkt' ∧ RepInvariant pkt' := by
  induction bufs generalizing pkt with
  | nil => exact ⟨pkt, rfl, h⟩
  | cons buf bufs ih =>
    obtain ⟨pkt₁, hcall, hinv₁, _⟩ := getTsPacket_spec h buf
    obtain ⟨pkt', hcalls, hinv⟩ := ih hinv₁
    exact ⟨pkt', by rw [getTsPackets, hcall]; exact hcalls, hinv⟩

/-- Whatever the packets hold, from the zeroed structure every call returns without an
access outside its arrays and the representation invariant holds. -/
theorem getTsPackets_zeroed_repInvariant (bufs : List (Option Packet)) :
    ∃ pkt, getTsPackets bufs zeroed = .ok pkt ∧ RepInvariant pkt :=
  getTsPackets_spec zeroed_repInvariant bufs

/-- Along a sequence of calls the structure stays healthy. -/
theorem Healthy.gets (h : Healthy pkt) {bufs : List (Option Packet)} {pkt' : MumudvbTsPacket}
    (hgets : getTsPackets bufs pkt = .ok pkt') : Healthy pkt' := by
  induction bufs generalizing pkt with
  | nil =>
    cases hgets
    exact h
  | cons buf bufs ih =>
    obtain ⟨pkt₁, hcall, -⟩ := getTsPacket_spec h.toRepInvariant buf
    rw [getTsPackets, hcall, bind_ok] at hgets
    exact ih (h.get hcall).1 hgets

/-- A section that is handed out has the length of its header, also read from the whole buffer,
and passed the CRC check over that length. -/
theorem Healthy.checked (h : Healthy pkt) {input : Option Packet} {pkt' : MumudvbTsPacket}
    (hget : getTsPacket input pkt = .ok (true, pkt')) :
    pkt'.lenFull = sectionLength pkt'.dataFull.cells + 3 ∧ pkt'.lenFull ≤ 4096 ∧
      (crc32 (pkt'.dataFull.cells.take pkt'.lenFull) = 0 ∨
        tableId pkt'.dataFull.cells = 0x72) := by
  obtain ⟨hhealthy, -, hout⟩ := h.get hget
  obtain ⟨-, haccepted, hsize⟩ := hout rfl
  have hthree : 3 ≤ pkt'.lenFull := by
    rw [hsize]
    exact three_le_sectionSize _
  refine ⟨?_, hhealthy.lenFull, ?_⟩
  · rw [sectionSize_take hthree] at hsize
    exact hsize
  · rcases haccepted with htable | hcrc
    · rw [tableId, byteAt_take (by omega)] at htable
      exact Or.inr htable
    · exact Or.inl hcrc

/-- After any calls from the zeroed structure a call returns, and when it reports a section,
`data_full` has one that was checked. -/
theorem getTsPacket_delivers_checked (bufs : List (Option Packet)) (input : Option Packet) :
    ∃ pkt avail pkt', getTsPackets bufs zeroed = .ok pkt ∧
      getTsPacket input pkt = .ok (avail, pkt') ∧
      (avail = true → pkt'.lenFull = sectionLength pkt'.dataFull.cells + 3 ∧
        pkt'.lenFull ≤ 4096 ∧
        (crc32 (pkt'.dataFull.cells.take pkt'.lenFull) = 0 ∨
          tableId pkt'.dataFull.cells = 0x72)) := by
  obtain ⟨pkt, hgets, hinv⟩ := getTsPackets_zeroed_repInvariant bufs
  obtain ⟨pkt', hget, -⟩ := getTsPacket_spec hinv input
  refine ⟨pkt, _, pkt', hgets, hget, fun havail => ?_⟩
  rw [havail] at hget
  exact (healthy_zeroed.gets hgets).checked hget

end MuMuDVB.TsRefinement
