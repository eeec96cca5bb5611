import MuMuDVB.TsReassembly
import MuMuDVB.TsSections

/-!
# When the store of the assembler is too small

`ts_move_part_to_full` drops a section when fifteen wait, or when their bytes
do not fit. The sections of a packet are handed out one packet later, so that
the store meets those of two packets; the bytes always fit.
-/
namespace MuMuDVB.TsCapacity

open CheckedMemory MuMuDVB.TsHeader MuMuDVB.Ts MuMuDVB.TsAssembler MuMuDVB.TsRefinement
  MuMuDVB.TsReassembly MuMuDVB.TsSections

set_option maxRecDepth 20000

/-- `ts_move_part_to_full` takes the branch "too many full packets" or "too much data". -/
def moveDrops (pkt : MumudvbTsPacket) : Bool :=
  decide (maxFullPackets ≤ pkt.fullNumber) ||
    decide (fullBufferSize ≤ pkt.fullBufferLen + pkt.lenPartial)

/-- Whether `finishPart` calls it so. -/
def finishDrops (pkt : MumudvbTsPacket) : Checked Bool :=
  match tsPartialFull pkt with
  | (true, pkt) => do
    let (good, pkt) ← tsCheckCrc32 pkt
    return good && moveDrops pkt
  | (false, _) => .ok false

/-- Whether `add_ts_packet_data` does, in the call or in those that it makes of itself. -/
def addDrops (fuel : Nat) (buf : Packet) (off : Nat) (pkt : MumudvbTsPacket) (dataLeft : Nat)
    (startFlag : StartFlag) (pid cc : Nat) : Checked Bool :=
  match fuel with
  | 0 => .error .endless
  | fuel + 1 => do
    match ← addBranch buf off pkt dataLeft startFlag pid cc with
    | .returned _ => return false
    | .copied pkt copyLen left =>
      if pkt.statusPartial ≠ .partialHeader then
        let now ← finishDrops pkt
        let pkt ← finishPart pkt
        if left ≠ 0 then
          let later ← addDrops fuel buf (off + copyLen) pkt left .startSection pid cc
          return now || later
        else return now
      else return false

/-- Whether the last part of `get_ts_packet` does. -/
def payloadDrops (buf : Packet) (offset : Nat) (pkt : MumudvbTsPacket) : Checked Bool :=
  let bufPid := TsHeader.pid buf.cells
  let cc := continuityCounter buf.cells
  if payloadUnitStartIndicator buf.cells then do
    let pointerField ← buf.read offset
    let pointerField := pointerField.toNat
    let offset := offset + 1
    if pointerField ≠ 0 ∧ tsPacketSize < offset + pointerField then return false
    else
      let first ← (if pointerField ≠ 0
        then addDrops addFuel buf offset pkt pointerField .noStart bufPid cc
        else .ok false : Checked Bool)
      let pkt ← (if pointerField ≠ 0
        then addTsPacketData addFuel buf offset pkt pointerField .noStart bufPid cc
        else .ok pkt : Checked MumudvbTsPacket)
      let offset := offset + pointerField
      let left ← subtract tsPacketSize offset
      let later ← addDrops addFuel buf offset pkt left .startTs bufPid cc
      return first || later
  else do
    let left ← subtract tsPacketSize offset
    addDrops addFuel buf offset pkt left .noStart bufPid cc

/-- Whether the call `get_ts_packet(buf, pkt)` does. -/
def packetDrops (buf : Packet) (pkt : MumudvbTsPacket) : Checked Bool := do
  let (_, pkt) ← popFull pkt
  match ← payloadOffset buf with
  | none => return false
  | some offset => payloadDrops buf offset pkt

/-- Whether one of the calls with a packet of the stream does, where each packet is followed by
calls with NULL while they return 1. -/
def streamDrops : List Packet → MumudvbTsPacket → Checked Bool
  | [], _ => .ok false
  | buf :: bufs, pkt => do
    let now ← packetDrops buf pkt
    let (_, pkt) ← takeSections takeFuel (some buf) pkt
    let later ← streamDrops bufs pkt
    return now || later

/-- No section of the stream is dropped for capacity. -/
def NeverDrops (packets : List Packet) : Prop := streamDrops packets zeroed = .ok false

/-- How many sections end in each packet of a stream, for an assembler without a store. -/
def endings : Progress → List Packet → List Nat
  | _, [] => []
  | part, buf :: bufs =>
    (received part buf).sections.length :: endings (received part buf).part bufs

/-- There is room, when `waiting` sections are in the store: a packet that comes then finds one
less, and drains the store; else its own sections wait for the next packet. -/
def HasRoom : Nat → List Nat → Prop
  | _, [] => True
  | waiting, count :: counts =>
    waiting - 1 + count ≤ maxFullPackets ∧ HasRoom (if waiting = 0 then count else 0) counts

instance : (waiting : Nat) → (counts : List Nat) → Decidable (HasRoom waiting counts)
  | _, [] => inferInstanceAs (Decidable True)
  | waiting, count :: counts =>
    have := instDecidableHasRoom (if waiting = 0 then count else 0) counts
    inferInstanceAs (Decidable (_ ∧ _))

variable {pkt : MumudvbTsPacket} {buf : Packet} {a : Assembler}

theorem drops_setPart (a : Assembler) (q : Progress) (sections : List (List UInt8)) :
    drops (a.setPart q) sections = drops a sections := by
  cases sections <;> rfl

theorem drops_append (a : Assembler) (q : Progress) (xs ys : List (List UInt8)) :
    drops a (xs ++ ys) = (drops a xs || drops (store a ⟨q, xs⟩) ys) := by
  induction xs generalizing a with
  | nil => rw [List.nil_append, drops, Bool.false_or, store, List.foldl_nil, drops_setPart]
  | cons x xs ih =>
    rw [List.cons_append, drops, drops, ih, Bool.or_assoc]
    rfl

theorem drops_completed (a : Assembler) (s : List UInt8) :
    drops a (completed s) = (decide (Accepted s) && decide (Full a s)) := by
  rw [completed]
  split
  case isTrue h => rw [drops, drops, Bool.or_false, decide_eq_true h, Bool.true_and]
  case isFalse h => rw [drops, decide_eq_false h, Bool.false_and]

section branches

/-- The branches are those of a store that is full. -/
theorem moveDrops_spec (h : TsAssembler.StoreInvariant pkt) {s : List UInt8}
    (hlen : s.length = pkt.lenPartial) : moveDrops pkt = decide (Full (view pkt) s) := by
  have hfull : Full (view pkt) s ↔ maxFullPackets ≤ pkt.fullNumber ∨
      fullBufferSize ≤ pkt.fullBufferLen + pkt.lenPartial := by
    rw [Full, length_store h, length_flatten_store h, hlen]
  rw [moveDrops, ← Bool.decide_or, decide_eq_decide.mpr hfull]

theorem finishDrops_spec (h : Growing pkt) :
    finishDrops pkt = .ok (decide (pkt.expectedLenPartial ≤ pkt.lenPartial) &&
      drops (view pkt) (completed (partBytes pkt))) := by
  have hexp := h.expected
  rw [finishDrops, tsPartialFull]
  by_cases hfull : pkt.expectedLenPartial ≤ pkt.lenPartial
  · have he : pkt.expectedLenPartial = pkt.lenPartial := by omega
    obtain ⟨good, hcrc, hgood⟩ := h.crc hfull
    rw [if_pos hfull, decide_eq_true hfull, Bool.true_and, drops_completed]
    simp only [tsCheckCrc32, hcrc, bind_ok]
    cases good with
    | true =>
      have hmove := @moveDrops_spec
        { pkt with lenPartial := pkt.expectedLenPartial, statusPartial := .valid }
        ⟨h.fullNumber, h.fullBufferLen, h.fullBufferRoom, h.storedLength, h.lenFull⟩ _
        ((length_partBytes h.atMost).trans he.symm)
      rw [decide_eq_true (hgood.mp rfl), Bool.true_and]
      simp only [if_true, pure_ok, bind_ok, Bool.true_and, hmove]
      rfl
    | false =>
      rw [decide_eq_false fun hacc => Bool.false_ne_true (hgood.mpr hacc), Bool.false_and]
      rfl
  · rw [if_neg hfull, decide_eq_false hfull, Bool.false_and]

/-- A payload without the start of a section. -/
theorem addDrops_continue (buf : Packet) (h : RepInvariant pkt) (off left : Nat)
    (hoff : off + left ≤ 188) (fuel pid cc : Nat) :
    addDrops (fuel + 1) buf off pkt left .noStart pid cc = .ok (drops (view pkt)
      (continued (view pkt).part (payload buf off left) pid cc).sections) := by
  rcases continuePart_spec buf h off left hoff pid cc with
    ⟨pkt', hret, hinv, hkept⟩ | ⟨bytes, pkt₁, n, hcopied, hgrow, hcont, hbytes, hview₁⟩
  · have hnone : (continued (view pkt).part (payload buf off left) pid cc).sections = [] := by
      rcases hkept with ⟨hcont, -⟩ | ⟨hcont, -⟩ <;> rw [continued, hcont]
    rw [hnone]
    simp [addDrops, addBranch, hret, drops]
  · obtain ⟨pkt', hfin, -, -, -⟩ := finishPart_spec hgrow
    have hsections : (continued (view pkt).part (payload buf off left) pid cc).sections =
        if pkt₁.expectedLenPartial ≤ pkt₁.lenPartial then completed (partBytes pkt₁) else [] := by
      rw [continued, hcont]
      dsimp only
      rw [grown, ← hbytes, length_partBytes hgrow.atMost]
      split <;> rfl
    have hdrops : finishDrops pkt₁ = .ok (drops (view pkt)
        (if pkt₁.expectedLenPartial ≤ pkt₁.lenPartial then completed (partBytes pkt₁) else [])) := by
      rw [finishDrops_spec hgrow, hview₁, drops_setPart]
      by_cases hfull : pkt₁.expectedLenPartial ≤ pkt₁.lenPartial
      · rw [if_pos hfull, decide_eq_true hfull, Bool.true_and]
      · rw [if_neg hfull, decide_eq_false hfull, Bool.false_and, drops]
    rw [hsections, ← hdrops]
    simp [addDrops, addBranch, hcopied, hgrow.started, hfin, hdrops]

/-- A payload in which a section starts, and the sections that follow it there. -/
theorem addDrops_start (buf : Packet) (fuel : Nat) (h : RepInvariant pkt) (off left : Nat)
    (flag : StartFlag) (hflag : flag ≠ .noStart)
    (hstuff : flag = .startSection → 0 < left ∧ byteAt (payload buf off left) 0 ≠ 0xff)
    (hoff : off + left ≤ 188) (hfuel : left < fuel) (pid cc : Nat) :
    addDrops fuel buf off pkt left flag pid cc =
      .ok (drops (view pkt) (started (payload buf off left) pid cc).sections) := by
  induction fuel generalizing pkt off left flag with
  | zero => omega
  | succ fuel ih =>
    have hlen := length_payload buf hoff
    have hsz3 := three_le_sectionSize (payload buf off left)
    rw [addDrops, addBranch_start buf off left flag hflag hstuff hoff pid cc, started, hlen]
    by_cases h3 : left < 3
    · obtain ⟨pkt', hpart, -, hst, -⟩ := startPart_header buf h.toStoreInvariant hoff h3 pid cc
      rw [hpart, if_pos h3]
      simp [hst, drops]
    · obtain ⟨pkt₁, hpart, hgrow, hlen₁, hexp₁, hbytes₁, hview₁⟩ := startPart_body buf
        h.toStoreInvariant hoff (by omega) pid cc
      obtain ⟨pkt₂, hfin, hinv₂, -, hview₂⟩ := finishPart_spec hgrow
      have hdrops := finishDrops_spec hgrow
      rw [hexp₁, hlen₁, hbytes₁, hview₁, drops_setPart] at hdrops
      rw [hexp₁, hlen₁, hbytes₁, hview₁, complete_setPart] at hview₂
      rw [hpart, if_neg h3]
      simp only [bind_ok, hgrow.started, ne_eq, reduceCtorEq, not_false_eq_true, if_true, hfin,
        hdrops]
      by_cases hfit : sectionSize (payload buf off left) ≤ left
      · have hmin : min (sectionSize (payload buf off left)) left =
            sectionSize (payload buf off left) := Nat.min_eq_left hfit
        rw [if_pos (by omega)] at hview₂
        rw [if_pos hfit, hmin, decide_eq_true (Nat.le_refl _), Bool.true_and, drop_payload]
        generalize hs : (payload buf off left).take (sectionSize (payload buf off left)) = s at *
        by_cases hend : left - sectionSize (payload buf off left) = 0
        · have hnil : payload buf (off + sectionSize (payload buf off left))
              (left - sectionSize (payload buf off left)) = [] := by
            rw [hend, payload, List.take_zero]
          rw [if_neg (not_not.mpr hend), if_pos (.inl hnil)]
          rfl
        · have hpos : 0 < left - sectionSize (payload buf off left) := by omega
          have hoff' : off + sectionSize (payload buf off left) +
              (left - sectionSize (payload buf off left)) ≤ 188 := by omega
          rw [if_pos hend]
          by_cases hff : byteAt (payload buf (off + sectionSize (payload buf off left))
              (left - sectionSize (payload buf off left))) 0 = 0xff
          · rw [if_pos (.inr hff)]
            cases fuel with
            | zero => omega
            | succ fuel => simp [addDrops, addBranch, isStuffing, read_payload _ _ hoff' hpos, hff]
          · have hne : payload buf (off + sectionSize (payload buf off left))
                (left - sectionSize (payload buf off left)) ≠ [] := by
              rw [← List.length_pos_iff, length_payload buf hoff']
              exact hpos
            have hlater := ih hinv₂ _ _ .startSection (by simp) (fun _ => ⟨hpos, hff⟩) hoff'
              (by omega)
            rw [if_neg (not_or.mpr ⟨hne, hff⟩), hlater, bind_ok, hview₂, pure_ok]
            dsimp only
            rw [drops_append _ .idle, store_completed, drops_setPart]
      · rw [if_neg hfit, if_neg (by omega), decide_eq_false (by omega), Bool.false_and, drops]
        rfl

/-- The end of the section in progress, when the pointer field announces one: the section that it
completes, and the state after it. -/
theorem pointerDrops_spec (buf : Packet) (h : RepInvariant pkt) {off pointer : Nat}
    (hroom : off + pointer ≤ 188) (pid cc : Nat) :
    let first := if pointer ≠ 0 then continued (view pkt).part (payload buf off pointer) pid cc
      else ⟨(view pkt).part, []⟩
    (if pointer ≠ 0 then addDrops 188 buf off pkt pointer .noStart pid cc else .ok false) =
        .ok (drops (view pkt) first.sections) ∧
      ∃ pkt₁, (if pointer ≠ 0 then addTsPacketData 188 buf off pkt pointer .noStart pid cc
          else .ok pkt) = .ok pkt₁ ∧ RepInvariant pkt₁ ∧ view pkt₁ = store (view pkt) first := by
  intro first
  by_cases hzero : pointer ≠ 0
  · obtain ⟨pkt₁, hadd, hinv, hview⟩ := addContinue_spec buf h off pointer hroom 187 pid cc
    have hfirst : first = continued (view pkt).part (payload buf off pointer) pid cc := if_pos hzero
    rw [if_pos hzero, if_pos hzero, hfirst]
    exact ⟨addDrops_continue buf h off pointer hroom 187 pid cc, pkt₁, hadd, hinv,
      hview.trans (append_eq _ _ _ _)⟩
  · have hfirst : first = ⟨(view pkt).part, []⟩ := if_neg hzero
    rw [if_neg hzero, if_neg hzero, hfirst]
    exact ⟨rfl, pkt, rfl, h, rfl⟩

theorem payloadDrops_spec (buf : Packet) (h : RepInvariant pkt) {off : Nat} (hoff : off < 188) :
    payloadDrops buf off pkt = .ok (drops (view pkt) (added (view pkt).part buf off).sections) := by
  rw [payloadDrops, added]
  cases hstart : payloadUnitStartIndicator buf.cells with
  | false =>
    have hdrops := addDrops_continue buf h off (188 - off) (by omega) 187
      (TsHeader.pid buf.cells) (continuityCounter buf.cells)
    rw [if_neg Bool.false_ne_true, if_neg Bool.false_ne_true, subtract_ok (Nat.le_of_lt hoff), bind_ok]
    exact hdrops
  | true =>
    have hread : buf.read off = .ok (byteAt buf.cells off) := by
      rw [read_payload off (188 - off) (by omega) (by omega), byteAt_payload hoff]
    rw [if_pos rfl, if_pos rfl, hread, bind_ok]
    by_cases hbig : PointerTooBig buf off
    · rw [if_pos (by simpa [PointerTooBig] using hbig), if_pos hbig]
      rfl
    · have hroom : off + 1 + (byteAt buf.cells off).toNat ≤ 188 := by
        unfold PointerTooBig at hbig
        omega
      obtain ⟨hfirst, pkt₁, hadd, hinv₁, hview₁⟩ := pointerDrops_spec buf h hroom
        (TsHeader.pid buf.cells) (continuityCounter buf.cells)
      have hlater := addDrops_start buf 188 hinv₁ (off + 1 + (byteAt buf.cells off).toNat)
        (188 - (off + 1 + (byteAt buf.cells off).toNat)) .startTs (by simp) (by simp) (by omega)
        (by omega) (TsHeader.pid buf.cells) (continuityCounter buf.cells)
      rw [if_neg (by simpa [PointerTooBig] using hbig), if_neg hbig]
      simp only [tsPacketSize, addFuel]
      rw [hfirst, bind_ok, hadd, bind_ok, subtract_ok hroom, bind_ok, hlater, bind_ok, pure_ok,
        hview₁]
      exact congrArg _ (drops_append _ _ _ _).symm

theorem packetDrops_spec (h : RepInvariant pkt) (buf : Packet) :
    packetDrops buf pkt =
      .ok (drops (view pkt).pop (received (view pkt).part buf).sections) := by
  obtain ⟨pkt₁, hpop, hinv₁, hview₁, -⟩ := popFull_spec h
  obtain ⟨hoffset, hbound⟩ := payloadOffset_spec buf
  have hpopView : view pkt₁ = (view pkt).pop := hview₁
  rw [packetDrops, hpop, bind_ok, received]
  dsimp only
  rw [hoffset, bind_ok]
  cases hstart : payloadStart buf with
  | none => rfl
  | some off =>
    dsimp only
    rw [payloadDrops_spec buf hinv₁ (hbound off hstart).2, hpopView]
    rfl

end branches

/-- The loop of a caller leaves the sections of the packet in the store exactly when it was empty. -/
theorem takeSections_waiting (h : RepInvariant pkt) (hb : Bounded (view pkt)) (buf : Packet) :
    ∃ out pkt', takeSections takeFuel (some buf) pkt = .ok (out, pkt') ∧ RepInvariant pkt' ∧
      Bounded (view pkt') ∧ (view pkt').part = (received (view pkt).part buf).part ∧
      (view pkt').store.length = if (view pkt).store.length = 0
        then min maxFullPackets (received (view pkt).part buf).sections.length else 0 := by
  obtain ⟨pkt₁, hget, hinv₁, hview₁, -⟩ := getTsPacket_spec h (some buf)
  obtain ⟨hcall, hcalled, -⟩ := hb.packet buf
  rw [takeFuel, takeSections, hget, bind_ok]
  cases havail : ((view pkt).call (some buf)).1 with
  | true =>
    have hmax := hinv₁.fullNumber
    obtain ⟨pkt', hdrain, hinv, hview⟩ := takeSections_drain hinv₁ (maxFullPackets + 1) (by
      rw [length_store hinv₁.toStoreInvariant]
      simp only [maxFullPackets]
      omega)
    have hstored := List.length_pos_iff.mpr (call_avail havail)
    dsimp only
    rw [if_pos rfl, hdrain, bind_ok]
    refine ⟨_, pkt', rfl, hinv, ?_, ?_, ?_⟩
    · rw [hview]
      refine ⟨Nat.zero_le _, by simp, ?_, fun i hi => absurd hi (Nat.not_lt_zero i)⟩
      rw [hview₁]
      exact hcalled.part
    · rw [hview, hview₁, hcall]
    · rw [hview, if_neg (by omega)]
      rfl
  | false =>
    dsimp only
    rw [if_neg Bool.false_ne_true]
    refine ⟨_, pkt₁, rfl, hinv₁, by rw [hview₁]; exact hcalled, by rw [hview₁, hcall], ?_⟩
    rw [hview₁, hcall]
    dsimp only
    rw [List.length_take, List.length_append, List.length_tail]
    by_cases hempty : (view pkt).store.length = 0
    · rw [if_pos hempty]
      omega
    · obtain ⟨htail, hnone⟩ := call_silent havail (fun hnil => hempty (by rw [hnil]; rfl))
      have := congrArg List.length htail
      rw [List.length_tail, List.length_nil] at this
      rw [if_neg hempty, hnone, List.length_nil]
      omega

theorem streamDrops_spec (h : RepInvariant pkt) (hb : Bounded (view pkt)) (packets : List Packet) :
    streamDrops packets pkt =
      .ok (decide (¬ HasRoom (view pkt).store.length (endings (view pkt).part packets))) := by
  induction packets generalizing pkt with
  | nil => simp [streamDrops, endings, HasRoom]
  | cons buf bufs ih =>
    obtain ⟨out, pkt', htake, hinv, hbounded, hpart, hwaiting⟩ := takeSections_waiting h hb buf
    have hdrops := (hb.packet buf).2.2
    rw [streamDrops, packetDrops_spec h, bind_ok, htake, bind_ok]
    dsimp only
    rw [ih hinv hbounded, bind_ok, pure_ok, hdrops, endings, hpart, hwaiting, ← Bool.decide_or,
      List.length_tail]
    congr 1
    rw [decide_eq_decide, HasRoom, not_and_or]
    by_cases hroom : (view pkt).store.length - 1 +
        (received (view pkt).part buf).sections.length ≤ maxFullPackets
    · have hmin : min maxFullPackets (received (view pkt).part buf).sections.length =
          (received (view pkt).part buf).sections.length := by omega
      rw [hmin]
      exact or_congr (by omega) Iff.rfl
    · exact iff_of_true (.inl (by omega)) (.inl hroom)

theorem neverDrops_of_stream (packets : List Packet) :
    NeverDrops packets ↔ HasRoom 0 (endings .idle packets) := by
  rw [NeverDrops, streamDrops_spec zeroed_repInvariant (by rw [view_zeroed]; exact bounded_empty),
    view_zeroed, Except.ok.injEq, decide_eq_false_iff_not, not_not]
  rfl

/-- `packets` carry `rest`, the end of a section, and then the sections `todo` on one PID, cut
anywhere; `counts` are the numbers of sections that end in each packet. -/
inductive Standard (pid : Nat) :
    Nat → List UInt8 → List (List UInt8) → List Packet → List Nat → Prop where
  | done (cc : Nat) : Standard pid cc [] [] [] []
  | packet {cc : Nat} {rest : List UInt8} {starts todo : List (List UInt8)} {p : Packet}
      {packets : List Packet} {counts : List Nat} (cuts : Cuts p pid cc rest starts)
      (later : Standard pid ((cc + 1) % 16) (leftOver rest starts) todo packets counts) :
      Standard pid cc rest (starts ++ todo) (p :: packets) (completions rest starts :: counts)

/-- A section with a right CRC and at least one descriptor. -/
structure LongSection (s : List UInt8) : Prop extends IsSection s where
  atLeast15 : 15 ≤ s.length

/-- No packet of the stream is taken for a PES packet. -/
def NoPes (packets : List Packet) : Prop :=
  ∀ p ∈ packets, (p.cells.drop 4).take 3 ≠ [0x00, 0x00, 0x01]

section standard

variable {part : Progress} {sent rest : List UInt8} {starts todo : List (List UInt8)}
  {pid cc c : Nat} {p : Packet}

theorem length_flatten_long {xs : List (List UInt8)} (h : ∀ s ∈ xs, 15 ≤ s.length) :
    15 * xs.length ≤ xs.flatten.length := by
  induction xs with
  | nil => exact Nat.le_refl _
  | cons x xs ih =>
    have hx := h x List.mem_cons_self
    have := ih fun s hs => h s (List.mem_cons_of_mem _ hs)
    rw [List.flatten_cons, List.length_append, List.length_cons]
    omega

/-- At most thirteen such sections end in a packet, and they fit into the store. -/
theorem fits_long {done : List (List UInt8)} (h : ∀ s ∈ done, LongSection s)
    (htail : done.tail.flatten.length ≤ 184) : done.length ≤ 13 ∧ Fits done := by
  have hlong := length_flatten_long fun s hs => (h s (List.mem_of_mem_tail hs)).atLeast15
  rw [List.length_tail] at hlong
  refine ⟨by omega, by omega, ?_⟩
  cases done with
  | nil => decide
  | cons s done =>
    have := (h s List.mem_cons_self).atMost
    rw [List.tail_cons] at htail
    rw [List.flatten_cons, List.length_append]
    omega

/-- What the assembler without a store makes of one packet. -/
theorem received_cuts (h : Cuts p pid cc rest starts)
    (hpes : (p.cells.drop 4).take 3 ≠ [0x00, 0x00, 0x01]) (hmax : partLength part ≤ maxTsSize)
    (hpart : part = inProgress sent rest pid c) (hcc : (c + 1) % 16 = cc)
    (hs : rest ≠ [] → LongSection (sent ++ rest)) (hss : ∀ s ∈ starts, LongSection s) :
    ∃ sent', (received part p).sections.length = completions rest starts ∧
      (received part p).part = inProgress sent' (leftOver rest starts) pid cc ∧
      (leftOver rest starts ≠ [] → LongSection (sent' ++ leftOver rest starts)) := by
  obtain ⟨done, sent', hsplit, hlen, htail, hadd⟩ := ends_cuts (a := ⟨[], part⟩) h hpart hcc
    (fun hne => (hs hne).toIsSection) (fun s hmem => (hss s hmem).toIsSection)
  have hlong : ∀ s ∈ done ++ pending sent' (leftOver rest starts), LongSection s := by
    intro s hmem
    rw [← hsplit] at hmem
    rcases List.mem_append.mp hmem with hmem | hmem
    · rw [pending] at hmem
      split at hmem
      · cases hmem
      · next hne =>
        rw [List.mem_singleton.mp hmem]
        exact hs hne
    · exact hss s hmem
  obtain ⟨h13, hfits⟩ := fits_long (fun s hmem => hlong s (List.mem_append_left _ hmem)) htail
  have hbounded : Bounded ⟨[], part⟩ :=
    ⟨Nat.zero_le _, by simp, hmax, fun i hi => absurd hi (Nat.not_lt_zero i)⟩
  -- the bounded store takes all of them, so that its contents are the sections
  have hstored : (⟨(received part p).sections.take maxFullPackets, (received part p).part⟩ :
      Assembler) = ⟨done, inProgress sent' (leftOver rest starts) pid cc⟩ := by
    have hadded : received part p = added part p 4 := by
      rw [received, payloadStart_cuts h hpes]
    have hcall := (hbounded.packet p).1
    rw [call_eq] at hcall
    refine hcall.symm.trans (Eq.trans ?_ (hadd hfits))
    rw [add_eq, hadded]
    rfl
  have hsections := congrArg (fun a => a.store.length) hstored
  simp only [List.length_take, maxFullPackets] at hsections
  refine ⟨sent', by omega, congrArg Assembler.part hstored, fun hne => ?_⟩
  exact hlong _ (List.mem_append_right _ (by simp [pending, hne]))

theorem endings_standard {packets : List Packet} {counts : List Nat}
    (hp : Standard pid cc rest todo packets counts) (hpes : NoPes packets)
    (hmax : partLength part ≤ maxTsSize) (hpart : part = inProgress sent rest pid c)
    (hcc : cc < 16 → (c + 1) % 16 = cc) (hs : rest ≠ [] → LongSection (sent ++ rest))
    (htodo : ∀ s ∈ todo, LongSection s) : endings part packets = counts := by
  induction hp generalizing part sent c with
  | done cc => rfl
  | @packet cc rest starts todo p packets counts hcuts _ ih =>
    have hcc16 : cc < 16 := by
      rw [← hcuts.counter]
      exact Nat.mod_lt _ (by decide)
    obtain ⟨sent', hcount, hpart', hs'⟩ := received_cuts hcuts
      (hpes p List.mem_cons_self) hmax hpart (hcc hcc16) hs
      (fun s hmem => htodo s (List.mem_append_left _ hmem))
    rw [endings, hcount, ih (fun q hq => hpes q (List.mem_cons_of_mem _ hq))
      (received_within hmax p).partAtMost hpart' (fun _ => rfl) hs'
      (fun s hmem => htodo s (List.mem_append_right _ hmem))]

end standard

/-- Whether sections are dropped for capacity depends on how many end in each packet. In a
standard packetisation without a payload that looks like a PES packet, these are the sections
whose last byte is in the packet. -/
theorem neverDrops_iff (packets : List Packet) :
    (NeverDrops packets ↔ HasRoom 0 (endings .idle packets)) ∧
      ∀ pid cc sections counts, (∀ s ∈ sections, LongSection s) →
        Standard pid cc [] sections packets counts → NoPes packets →
        endings .idle packets = counts := by
  refine ⟨neverDrops_of_stream packets, fun pid cc sections counts hs hp hpes => ?_⟩
  exact endings_standard (c := (cc + 15) % 16) hp hpes (Nat.zero_le _)
    (show Progress.idle = inProgress [] [] pid _ from rfl) (fun _ => by omega)
    (fun hne => absurd rfl hne) hs

/-- A section of fifteen bytes. -/
def shortSection : List UInt8 :=
  [0x42, 0xb0, 0x0c, 0x00, 0x01, 0xc1, 0x00, 0x00, 0x48, 0x01, 0x00, 0x71, 0x63, 0x01, 0xaf]

/-- Twelve of them fill a packet. -/
def twelveSections : List (List UInt8) := List.replicate 12 shortSection

def twelvePacket (cc : UInt8) : Packet :=
  ⟨[0x47, 0x40, 0x11, 0x10 + cc, 0x00] ++ pad 183 twelveSections.flatten, by simp⟩

theorem shortSection_long : LongSection shortSection :=
  ⟨⟨by decide, by decide, by decide, by decide, by decide +kernel⟩, by decide⟩

theorem twelvePackets_standard :
    Standard 17 0 [] (twelveSections ++ (twelveSections ++ [])) [twelvePacket 0, twelvePacket 1]
      [12, 12] := by
  have hleft : leftOver [] twelveSections = [] := by decide
  refine @Standard.packet 17 0 [] twelveSections _ (twelvePacket 0) _ [12]
    ⟨by decide, by decide, by decide, by decide, rfl, by decide⟩ ?_
  rw [hleft]
  refine @Standard.packet 17 1 [] twelveSections [] (twelvePacket 1) [] []
    ⟨by decide, by decide, by decide, by decide, rfl, by decide⟩ ?_
  rw [hleft]
  exact .done 2

theorem twelvePackets_noPes : NoPes [twelvePacket 0, twelvePacket 1] := by
  intro p hp
  rcases List.mem_cons.mp hp with rfl | hp
  · decide
  · rw [List.mem_singleton.mp hp]
    decide

theorem twelveSections_long :
    ∀ s ∈ twelveSections ++ (twelveSections ++ []), LongSection s := by
  intro s hs
  simp only [twelveSections, List.append_nil, List.mem_append, List.mem_replicate] at hs
  rcases hs with ⟨-, rfl⟩ | ⟨-, rfl⟩ <;> exact shortSection_long

theorem neverDrops_twelvePackets :
    (NeverDrops [twelvePacket 0, twelvePacket 1] ↔
        HasRoom 0 (endings .idle [twelvePacket 0, twelvePacket 1])) ∧
      endings .idle [twelvePacket 0, twelvePacket 1] = [12, 12] :=
  ⟨(neverDrops_iff _).1, (neverDrops_iff _).2 17 0 _ _ twelveSections_long twelvePackets_standard
    twelvePackets_noPes⟩

/-- Two packets with twelve sections each: only fifteen of the last twenty-three find room. -/
theorem drops_twelvePackets :
    (∀ s ∈ twelveSections ++ (twelveSections ++ []), LongSection s) ∧
      Standard 17 0 [] (twelveSections ++ (twelveSections ++ []))
        [twelvePacket 0, twelvePacket 1] [12, 12] ∧
      ¬ NeverDrops [twelvePacket 0, twelvePacket 1] := by
  refine ⟨twelveSections_long, twelvePackets_standard, fun h => ?_⟩
  have hends : endings .idle [twelvePacket 0, twelvePacket 1] = [12, 12] :=
    endings_standard (c := 15) twelvePackets_standard twelvePackets_noPes (Nat.zero_le _)
      (show Progress.idle = inProgress [] [] 17 15 from rfl) (fun _ => by decide)
      (fun hne => absurd rfl hne) twelveSections_long
  rw [neverDrops_of_stream, hends] at h
  exact absurd h (by decide)

end MuMuDVB.TsCapacity
