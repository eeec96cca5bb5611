import MuMuDVB.TsDuplicates

/-!
# What get_ts_packet reports

Every call takes the oldest section from the store first. Where the packet is
given up by an early return, the value returned says whether the store still
holds a section, and not whether one was taken.
-/
namespace MuMuDVB.TsReports

open CheckedMemory MuMuDVB.TsHeader MuMuDVB.Ts MuMuDVB.TsAssembler MuMuDVB.TsRefinement
  MuMuDVB.TsReassembly MuMuDVB.TsSections MuMuDVB.TsDuplicates

set_option maxRecDepth 20000

/-- The sections that end in the argument. -/
def ended (part : Progress) : Option Packet → List (List UInt8)
  | none => []
  | some p => (received part p).sections

/-- The call removed the oldest section from the store and copied it over the start of
`data_full`. -/
def TookSection (pkt : MumudvbTsPacket) (input : Option Packet) (pkt' : MumudvbTsPacket) : Prop :=
  ∃ s later, (view pkt).store = s :: later ∧
    (view pkt').store = (later ++ ended (view pkt).part input).take maxFullPackets ∧
    pkt'.dataFull.cells = splice pkt.dataFull.cells 0 s ∧ pkt'.lenFull = s.length

/-- The call returns 1 exactly when it took a section. -/
def Reported (pkt : MumudvbTsPacket) (input : Option Packet) : Prop :=
  ∃ avail pkt', getTsPacket input pkt = .ok (avail, pkt') ∧
    (avail = true ↔ TookSection pkt input pkt')

variable {pkt pkt' : MumudvbTsPacket} {input : Option Packet} {avail : Bool} {a : Assembler}

/-- What a call does to the store. -/
theorem call_store (h : Bounded a) (input : Option Packet) :
    (a.call input).2.store = (a.store.tail ++ ended a.part input).take maxFullPackets := by
  cases input with
  | none =>
    have hnumber := h.number
    rw [ended, List.append_nil, List.take_of_length_le (by rw [List.length_tail]; omega)]
    rfl
  | some p => rw [(h.packet p).1, ended]

/-- The section is taken whenever there is one, whatever the packet. -/
theorem tookSection_iff (h : RepInvariant pkt) (hb : Bounded (view pkt))
    (hget : getTsPacket input pkt = .ok (avail, pkt')) :
    TookSection pkt input pkt' ↔ 0 < pkt.fullNumber := by
  rw [← length_store h.toStoreInvariant]
  constructor
  · rintro ⟨s, later, hstore, -⟩
    rw [hstore, List.length_cons]
    exact Nat.succ_pos _
  · intro hpos
    obtain ⟨s, later, hstore⟩ := List.exists_cons_of_ne_nil (List.length_pos_iff.mp hpos)
    obtain ⟨pkt₁, hspec, -, hview, -⟩ := getTsPacket_spec h input
    rw [hget, Except.ok.injEq, Prod.mk.injEq] at hspec
    obtain ⟨-, rfl⟩ := hspec
    refine ⟨s, later, hstore, ?_, getTsPacket_dataFull h hget (by rw [hstore, List.head?_cons])⟩
    rw [hview, call_store hb, hstore, List.tail_cons]

/-- The value that a call returns, by what the store held before. -/
theorem call_reports (a : Assembler) (input : Option Packet) :
    ((a.call input).1 = true ↔ 0 < a.store.length) ↔
      ¬(a.store.length = 1 ∧ ∃ p, input = some p ∧ Refused p) := by
  cases input with
  | none =>
    have hcall : (a.call none).1 = decide (a.store ≠ []) := rfl
    rw [hcall, decide_eq_true_iff, ← List.length_pos_iff]
    simp
  | some p =>
    by_cases hp : Refused p
    · rw [(call_refused hp).1, decide_eq_true_iff, ← List.length_pos_iff, List.length_tail]
      simp only [Option.some.injEq, exists_eq_left', hp, and_true]
      omega
    · rw [call_accepted hp, decide_eq_true_iff, ← List.length_pos_iff]
      simp [hp]

/-- A packet that has an adaptation field and nothing else. -/
def adaptationOnly : Packet := ⟨[0x47, 0x00, 0x00, 0x20, 183] ++ List.replicate 183 0xff, rfl⟩

/-- The calls that leave one of the two sections of a packet in the store. -/
theorem emptyPatPacket_leaves_one :
    (getTsPackets [some emptyPatPacket, none] zeroed).map (·.fullNumber) = .ok 1 := by
  decide +kernel

end MuMuDVB.TsReports
