import MuMuDVB.TsReassembly
import MuMuDVB.TsSections

/-!
# A packet that comes twice

ISO 13818-1 lets a broadcaster repeat a packet. The continuing branch of
`add_ts_packet_data` recognises the repetition by the continuity counter; the
branch that starts a section and the early returns of `get_ts_packet` do not.
-/
namespace MuMuDVB.TsDuplicates

open CheckedMemory MuMuDVB.TsHeader MuMuDVB.Ts MuMuDVB.TsAssembler MuMuDVB.TsRefinement
  MuMuDVB.TsReassembly MuMuDVB.TsSections

set_option maxRecDepth 20000

/-- Calls of `get_ts_packet`, with what `data_full` holds after each that returned 1. -/
def delivered : List (Option Packet) → MumudvbTsPacket →
    Checked (List (List UInt8) × MumudvbTsPacket)
  | [], pkt => .ok ([], pkt)
  | buf :: bufs, pkt => do
    let (avail, pkt) ← getTsPacket buf pkt
    let (later, pkt') ← delivered bufs pkt
    return (if avail then pkt.dataFull.cells.take pkt.lenFull :: later else later, pkt')

/-- Packets, then calls with NULL while they return 1, then any further calls. -/
def deliveredAll (bufs : List Packet) (continuation : List (Option Packet))
    (pkt : MumudvbTsPacket) : Checked (List (List UInt8)) := do
  let (now, pkt) ← delivered (bufs.map some) pkt
  let (drained, pkt) ← takeSections takeFuel none pkt
  let (later, _) ← delivered continuation pkt
  return now ++ drained ++ later

/-- Repeating packet `p` makes no difference, however the stream goes on. -/
def Harmless (pkt : MumudvbTsPacket) (p : Packet) : Prop :=
  ∀ continuation, deliveredAll [p, p] continuation pkt = deliveredAll [p] continuation pkt

/-- The sections with a right CRC that start and end in the packet, back to back from the first
start on. -/
def wholeSections (p : Packet) : List (List UInt8) :=
  match payloadStart p with
  | none => []
  | some off =>
    if payloadUnitStartIndicator p.cells then
      let first := off + 1 + (byteAt p.cells off).toNat
      (started (payload p first (188 - first)) (TsHeader.pid p.cells)
        (continuityCounter p.cells)).sections
    else []

/-- What a call of the list assembler hands out. -/
def handed (a : Assembler) (input : Option Packet) : List (List UInt8) :=
  if (a.call input).1 then a.store.take 1 else []

def handedAll : List (Option Packet) → Assembler → List (List UInt8) × Assembler
  | [], a => ([], a)
  | input :: inputs, a =>
    let later := handedAll inputs (a.call input).2
    (handed a input ++ later.1, later.2)

variable {a : Assembler} {pkt : MumudvbTsPacket} {p : Packet} {part : Progress}
  {data : List UInt8} {pid cc : Nat}

theorem delivered_spec (h : RepInvariant pkt) (bufs : List (Option Packet)) :
    ∃ pkt', delivered bufs pkt = .ok ((handedAll bufs (view pkt)).1, pkt') ∧ RepInvariant pkt' ∧
      view pkt' = (handedAll bufs (view pkt)).2 := by
  induction bufs generalizing pkt with
  | nil => exact ⟨pkt, rfl, h, rfl⟩
  | cons buf bufs ih =>
    obtain ⟨pkt₁, hget, hinv₁, hview₁, hfull₁⟩ := getTsPacket_spec h buf
    obtain ⟨pkt', hrest, hinv, hview⟩ := ih hinv₁
    rw [hview₁] at hrest hview
    refine ⟨pkt', ?_, hinv, hview⟩
    rw [delivered, hget, bind_ok]
    dsimp only
    rw [hrest, bind_ok, handedAll, handed, pure_ok]
    cases havail : ((view pkt).call buf).1 with
    | false => rfl
    | true =>
      obtain ⟨s, later, hcons⟩ := List.exists_cons_of_ne_nil (call_avail havail)
      rw [hfull₁ s (by rw [hcons, List.head?_cons]), hcons]
      rfl

/-- The deliveries as the list assembler has them. -/
theorem deliveredAll_spec (h : RepInvariant pkt) (bufs : List Packet)
    (continuation : List (Option Packet)) :
    let fed := handedAll (bufs.map some) (view pkt)
    deliveredAll bufs continuation pkt =
      .ok (fed.1 ++ fed.2.store ++ (handedAll continuation ⟨[], fed.2.part⟩).1) := by
  intro fed
  obtain ⟨pkt₁, hfed, hinv₁, hview₁⟩ := delivered_spec h (bufs.map some)
  have hnumber := hinv₁.fullNumber
  obtain ⟨pkt₂, hdrain, hinv₂, hview₂⟩ := takeSections_drain hinv₁ takeFuel (by
    rw [length_store hinv₁.toStoreInvariant]
    simp only [takeFuel, maxFullPackets]
    omega)
  obtain ⟨pkt₃, hlater, -, -⟩ := delivered_spec hinv₂ continuation
  rw [hview₁] at hdrain hview₂
  rw [hview₂] at hlater
  simp only [deliveredAll, hfed, bind_ok, hdrain, hlater, pure_ok]
  rfl

section again

/-- The section in progress has the counter of the packet, if there is one. -/
def Stamped (part : Progress) (cc : Nat) : Prop :=
  match part with
  | .idle => True
  | .header _ _ c => c = cc
  | .body _ _ _ c => c = cc

/-- What has the counter of the packet is not continued by it, and nothing else is kept. -/
theorem continuation_kept : continuation part data pid cc = .kept ↔ Stamped part cc := by
  cases part with
  | idle => exact ⟨fun _ => trivial, fun _ => rfl⟩
  | header bytes p c =>
    rw [continuation, Stamped]
    constructor
    · intro h
      split at h
      · assumption
      · split at h
        · cases h
        · split at h <;> cases h
    · exact fun h => if_pos h
  | body bytes size p c =>
    rw [continuation, Stamped]
    constructor
    · intro h
      split at h
      · assumption
      · split at h <;> cases h
    · exact fun h => if_pos h

theorem continued_stamped (h : Stamped part cc) : continued part data pid cc = ⟨part, []⟩ := by
  rw [continued, continuation_kept.mpr h]

theorem continued_isStamped (part : Progress) (data : List UInt8) (pid cc : Nat) :
    Stamped (continued part data pid cc).part cc := by
  rw [continued]
  split
  case h_1 hkept => exact continuation_kept.mp hkept
  case h_2 => trivial
  case h_3 bytes size _ =>
    rw [grown]
    split
    · trivial
    · rfl

theorem started_isStamped (data : List UInt8) (pid cc : Nat) :
    Stamped (started data pid cc).part cc := by
  fun_induction started data pid cc with
  | case1 => rfl
  | case2 => trivial
  | case3 data h3 hfit s rest hgo later ih => exact ih
  | case4 => rfl

/-- The packet again: only the sections that it holds whole come again. -/
theorem received_again (part : Progress) (p : Packet) :
    received (received part p).part p = ⟨(received part p).part, wholeSections p⟩ ∧
      ∃ first, (received part p).sections = first ++ wholeSections p := by
  rw [received, received, wholeSections]
  cases payloadStart p with
  | none => exact ⟨rfl, [], rfl⟩
  | some off =>
    dsimp only
    rw [added, added]
    dsimp only
    split
    case isTrue =>
      split
      case isTrue hbig =>
        have hnone : 188 - (off + 1 + (byteAt p.cells off).toNat) = 0 := by
          have := hbig.2
          omega
        rw [hnone, payload, List.take_zero, started, if_pos (by decide)]
        exact ⟨rfl, [], rfl⟩
      case isFalse =>
        generalize hlater : started (payload p (off + 1 + (byteAt p.cells off).toNat)
          (188 - (off + 1 + (byteAt p.cells off).toNat))) (TsHeader.pid p.cells)
          (continuityCounter p.cells) = later
        have hstamped : Stamped later.part (continuityCounter p.cells) := by
          rw [← hlater]
          exact started_isStamped _ _ _
        refine ⟨?_, _, rfl⟩
        -- what is in progress now is what the packet started, and not continued by it
        by_cases hpointer : (byteAt p.cells off).toNat ≠ 0
        · rw [if_pos hpointer, continued_stamped hstamped, List.nil_append]
        · rw [if_neg hpointer, List.nil_append]
    case isFalse =>
      have hstamped := continued_isStamped part (payload p off (188 - off)) (TsHeader.pid p.cells)
        (continuityCounter p.cells)
      exact ⟨continued_stamped hstamped, _, (List.append_nil _).symm⟩

/-- A refused packet takes one section from the store each time, and reports it only when another
one is left. -/
theorem handed_refused (h : Bounded a) (hp : Refused p) :
    let b := (a.call (some p)).2
    handed b (some p) ++ (b.call (some p)).2.store = b.store ↔ a.store.length ≠ 2 := by
  intro b
  have hpopped : ∀ a : Assembler, Bounded a → (a.call (some p)).2.store = a.store.tail := by
    intro a h
    have hnumber : a.store.length ≤ 15 := h.number
    rw [(h.packet p).1, (call_refused hp).2, List.append_nil]
    exact List.take_of_length_le (by rw [List.length_tail, maxFullPackets]; omega)
  have hstore : b.store = a.store.tail := hpopped a h
  rw [hpopped b (h.packet p).2.1, handed, (call_refused hp).1, hstore]
  rcases a.store with _ | ⟨_, _ | ⟨_, _ | ⟨_, _⟩⟩⟩ <;> simp

/-- An accepted packet is repeated without harm when it holds no section whole. -/
theorem handed_accepted (h : Bounded a) (hp : ¬ Refused p) :
    let b := (a.call (some p)).2
    handed b (some p) ++ (b.call (some p)).2.store = b.store ↔ wholeSections p = [] := by
  intro b
  obtain ⟨hcall, hb, -⟩ := h.packet p
  obtain ⟨hagain, first, hfirst⟩ := received_again a.part p
  have hpart : b.part = (received a.part p).part := congrArg Assembler.part hcall
  have hstore : b.store = (a.store.tail ++ (received a.part p).sections).take 15 :=
    congrArg Assembler.store hcall
  have hnext : (b.call (some p)).2.store = (b.store.tail ++ wholeSections p).take 15 := by
    rw [(hb.packet p).1, hpart, hagain]
  have hnumber : b.store.length ≤ 15 := hb.number
  have hhanded : handed b (some p) = b.store.take 1 := by
    rw [handed, call_accepted hp]
    by_cases hnil : b.store = []
    · rw [hnil]
      rfl
    · rw [decide_eq_true hnil, if_pos rfl]
  rw [hhanded, hnext]
  constructor
  · intro heq
    by_contra hwhole
    have hpos := List.length_pos_iff.mpr hwhole
    have hlen := congrArg List.length heq
    have hne : 0 < b.store.length := by
      rw [hstore, hfirst, List.length_take, List.length_append, List.length_append]
      omega
    simp only [List.length_append, List.length_take, List.length_tail] at hlen
    omega
  · intro hwhole
    have htail : b.store.tail.take 15 = b.store.tail :=
      List.take_of_length_le (by rw [List.length_tail]; omega)
    rw [hwhole, List.append_nil, htail, ← List.drop_one, List.take_append_drop]

end again

theorem harmless_iff_of_invariant (h : RepInvariant pkt) (hb : Bounded (view pkt)) (p : Packet) :
    Harmless pkt p ↔
      (Refused p → pkt.fullNumber ≠ 2) ∧ (¬ Refused p → wholeSections p = []) := by
  obtain ⟨hcall, hcalled, -⟩ := hb.packet p
  generalize hfirst : ((view pkt).call (some p)).2 = b at hcall hcalled
  have hpart : (b.call (some p)).2.part = b.part := by
    rw [(hcalled.packet p).1, hcall, (received_again _ p).1]
  have honce : Harmless pkt p ↔ handed b (some p) ++ (b.call (some p)).2.store = b.store := by
    have hall : ∀ continuation, deliveredAll [p, p] continuation pkt =
        deliveredAll [p] continuation pkt ↔
          handed b (some p) ++ (b.call (some p)).2.store = b.store := by
      intro continuation
      rw [deliveredAll_spec h, deliveredAll_spec h, Except.ok.injEq]
      simp only [List.map_cons, List.map_nil, handedAll, hfirst, hpart, List.append_nil,
        List.append_assoc, List.append_cancel_left_eq]
      rw [← List.append_assoc, List.append_left_inj]
    exact ⟨fun hharmless => (hall []).mp (hharmless []), fun heq c => (hall c).mpr heq⟩
  rw [honce, ← length_store h.toStoreInvariant]
  subst hfirst
  by_cases hp : Refused p
  · refine (handed_refused hb hp).trans ?_
    exact ⟨fun hne => ⟨fun _ => hne, fun hnot => absurd hp hnot⟩, fun hcond => hcond.1 hp⟩
  · refine (handed_accepted hb hp).trans ?_
    exact ⟨fun hnil => ⟨fun hyes => absurd hyes hp, fun _ => hnil⟩, fun hcond => hcond.2 hp⟩

/-- A state that calls of `get_ts_packet` can lead to. -/
def Reachable (pkt : MumudvbTsPacket) : Prop := ∃ bufs, getTsPackets bufs zeroed = .ok pkt

theorem getTsPackets_invariant (h : RepInvariant pkt) (hb : Bounded (view pkt))
    (bufs : List (Option Packet)) {pkt' : MumudvbTsPacket}
    (hcalls : getTsPackets bufs pkt = .ok pkt') : RepInvariant pkt' ∧ Bounded (view pkt') := by
  induction bufs generalizing pkt with
  | nil =>
    cases hcalls
    exact ⟨h, hb⟩
  | cons buf bufs ih =>
    obtain ⟨pkt₁, hget, hinv₁, hview₁, -⟩ := getTsPacket_spec h buf
    rw [getTsPackets, hget, bind_ok] at hcalls
    exact ih hinv₁ (by rw [hview₁]; exact hb.call buf) hcalls

theorem Reachable.invariant (h : Reachable pkt) : RepInvariant pkt ∧ Bounded (view pkt) := by
  obtain ⟨bufs, hcalls⟩ := h
  exact getTsPackets_invariant zeroed_repInvariant (by rw [view_zeroed]; exact bounded_empty) bufs
    hcalls

/-- Exactly when it makes no difference that packet `p` comes twice. -/
theorem harmless_iff (h : Reachable pkt) (p : Packet) :
    Harmless pkt p ↔
      (Refused p → pkt.fullNumber ≠ 2) ∧ (¬ Refused p → wholeSections p = []) :=
  harmless_iff_of_invariant h.invariant.1 h.invariant.2 p

theorem harmless_emptyPatPacket :
    Reachable zeroed ∧ (Harmless zeroed emptyPatPacket ↔
      (Refused emptyPatPacket → zeroed.fullNumber ≠ 2) ∧
        (¬ Refused emptyPatPacket → wholeSections emptyPatPacket = [])) :=
  ⟨⟨[], rfl⟩, harmless_iff ⟨[], rfl⟩ emptyPatPacket⟩

theorem emptyPatPacket_accepted : ¬ Refused emptyPatPacket :=
  fun h => absurd (h 4 rfl).2 (by decide)

/-- A section that is complete at the start of a payload is passed on. -/
theorem started_ne_nil (h3 : 3 ≤ data.length) (hfit : sectionSize data ≤ data.length)
    (hacc : Accepted (data.take (sectionSize data))) : (started data pid cc).sections ≠ [] := by
  have hfirst : completed (data.take (sectionSize data)) = [data.take (sectionSize data)] :=
    if_pos hacc
  rw [started, if_neg (by omega), if_pos hfit]
  dsimp only
  rw [hfirst]
  split <;> exact List.cons_ne_nil _ _

theorem wholeSections_emptyPatPacket : wholeSections emptyPatPacket ≠ [] := by
  have hwhole : wholeSections emptyPatPacket =
      (started (payload emptyPatPacket 5 183) 0 3).sections := rfl
  rw [hwhole]
  exact started_ne_nil (by decide) (by decide) (by decide)

/-- A packet with two complete PATs: both are delivered again. -/
theorem not_harmless_emptyPatPacket : Reachable zeroed ∧ ¬ Harmless zeroed emptyPatPacket := by
  refine ⟨⟨[], rfl⟩, fun h => wholeSections_emptyPatPacket ?_⟩
  exact ((harmless_iff_of_invariant zeroed_repInvariant (by rw [view_zeroed]; exact bounded_empty)
    emptyPatPacket).mp h).2 emptyPatPacket_accepted

end MuMuDVB.TsDuplicates
