import MuMuDVB.T2mi
import MuMuDVB.RecordedRun

/-!
# What processt2 reads and collects

A T2-MI packet may go on over any number of TS packets, and the pointer field
and the adaptation field are taken from the stream. Which of them keep the
copies inside `t2packet` and the reads inside the TS packet.
-/
namespace MuMuDVB.T2miInput

open CheckedMemory RecordedRun MuMuDVB.TsHeader MuMuDVB.T2mi

inductive Event where
  /-- a call for the packet at the start of `input` -/
  | packet (input : Nat → UInt8) (outputBufOffset outputBufSize : Nat) (plpId : UInt8)
  /-- the main loop found too many errors or a damaged output -/
  | reset

/-- The decapsulator with the resets of the main loop. -/
def t2System : System T2State Event where
  Initial s := s = initial
  Step s e s' :=
    match e with
    | .packet input outputBufOffset outputBufSize plpId =>
      ∃ r, processt2 input outputBufOffset outputBufSize plpId s = .ok r ∧ s' = r.state
    | .reset => s' = { s with active := false, first := true }

/-- Everything it reads is in the packet. -/
def ReadsPacket (reads : List (Nat × Nat)) : Prop := ∀ access ∈ reads, access.1 + access.2 ≤ 188

/-- A call makes no copy beyond `t2packet` and reads no byte behind the packet. -/
def Inside (input : Nat → UInt8) (outputBufOffset outputBufSize : Nat) (plpId : UInt8)
    (s : T2State) : Prop :=
  ∃ r, processt2 input outputBufOffset outputBufSize plpId s = .ok r ∧ ReadsPacket r.reads

/-- With a start indicator, the pointer is refused or points into the payload and what is before
it fits behind `t2packetpos`; without one the payload does. -/
def Fits (input : Nat → UInt8) (s : T2State) : Prop :=
  ∀ payloadStart, payloadStartOffset input = some payloadStart →
    if payloadUnitStart input then
      (s.active ∧ 184 ≤ 1 + (input (4 + payloadStart)).toNat) ∨
        (1 + (input (4 + payloadStart)).toNat < 184 - payloadStart ∧
          (s.active → s.t2packetpos + (input (4 + payloadStart)).toNat ≤ t2packetSize))
    else s.active → s.t2packetpos + (184 - payloadStart) ≤ t2packetSize

def FitsEvent (s : T2State) : Event → Prop
  | .packet input _ _ _ => Fits input s
  | .reset => True

section call

variable {input : Nat → UInt8} {outputBufOffset outputBufSize : Nat} {plpId : UInt8} {s : T2State}

@[simp] theorem length_block (i len : Nat) : (block input i len).length = len := by
  simp [block]

@[simp] theorem readsPacket_nil : ReadsPacket [] := nofun

@[simp] theorem readsPacket_cons {access : Nat × Nat} {reads : List (Nat × Nat)} :
    ReadsPacket (access :: reads) ↔ access.1 + access.2 ≤ 188 ∧ ReadsPacket reads :=
  List.forall_mem_cons

@[simp] theorem readsPacket_append {reads more : List (Nat × Nat)} :
    ReadsPacket (reads ++ more) ↔ ReadsPacket reads ∧ ReadsPacket more :=
  List.forall_mem_append

@[simp] theorem readsPacket_adaptation : ReadsPacket (adaptationReads input) := by
  rw [adaptationReads]
  split <;> simp

theorem payloadStart_le {payloadStart : Nat} (h : payloadStartOffset input = some payloadStart) :
    payloadStart ≤ 183 := by
  rw [payloadStartOffset] at h
  split at h
  · split at h
    · cases h
    · cases h
      omega
  · split at h
    · cases h
    · cases h
      omega

/-- The start of a T2-MI packet fits; to look for it reads `buf[offset]`. -/
theorem startPacket_spec (input : Nat → UInt8) (s : T2State) (buf len offset : Nat)
    (hlen : len ≤ 184) :
    ∃ s' more, startPacket input buf len offset s = .ok (s', more) ∧
      (buf + len = 188 → (ReadsPacket more ↔ offset < len)) ∧
      (s.t2packetpos ≤ t2packetSize → s'.t2packetpos ≤ t2packetSize) := by
  rw [startPacket]
  split
  case isTrue hframe =>
    obtain ⟨t, ht, -⟩ := s.t2packet.write_ok 0 (block input (buf + offset) (len - offset))
      (by simp; omega)
    rw [ht]
    refine ⟨_, _, rfl, fun hbuf => ?_, fun _ => ?_⟩
    · simp
      omega
    · simp only [t2packetSize]
      omega
  case isFalse hframe =>
    refine ⟨_, _, rfl, fun hbuf => ?_, id⟩
    simp
    omega

theorem collectEnd_ok_iff {buf offset : Nat} :
    (∃ t, collectEnd input buf offset s = .ok t) ↔
      (1 < offset → s.t2packetpos + (offset - 1) ≤ t2packetSize) := by
  rw [collectEnd]
  split
  case isFalse hoffset => simp [hoffset]
  case isTrue hoffset =>
    rw [Buffer.write_ok_iff, length_block, forall_prop_of_true hoffset]

theorem extractPlp_ok (t : Buffer UInt8 t2packetSize) (first : Bool) :
    ∃ out, extractPlp t outputBufOffset outputBufSize plpId first = .ok out := by
  rw [extractPlp]
  split
  · exact extract_ok first
  · exact ⟨_, rfl⟩

/-- Only the copy to `t2packet` can go wrong. -/
theorem endPacket_ok {buf offset : Nat}
    (h : 1 < offset → s.t2packetpos + (offset - 1) ≤ t2packetSize) :
    ∃ first out, endPacket input outputBufOffset outputBufSize plpId buf offset s =
      .ok (⟨Buffer.fill _ 0, s.t2packetpos, false, first⟩, out) := by
  obtain ⟨t, ht⟩ : ∃ t, collectEnd input buf offset s = .ok t := collectEnd_ok_iff.mpr h
  obtain ⟨⟨out, first⟩, hextract⟩ : ∃ out, extractPlp t outputBufOffset outputBufSize plpId
    s.first = .ok out := extractPlp_ok t s.first
  refine ⟨first, out, ?_⟩
  rw [endPacket, ht, bind_ok, hextract]
  rfl

section payload

variable {payloadStart : Nat}

theorem inside_starts (hstart : payloadStartOffset input = some payloadStart)
    (hunit : payloadUnitStart input = true) (hactive : s.active = false) :
    Inside input outputBufOffset outputBufSize plpId s ↔
      1 + (input (4 + payloadStart)).toNat < 184 - payloadStart := by
  have hle := payloadStart_le hstart
  obtain ⟨s', more, hmore, hreads, -⟩ := startPacket_spec input s (4 + payloadStart)
    (184 - payloadStart) (1 + (input (4 + payloadStart)).toNat) (by omega)
  rw [Inside, processt2]
  simp only [hstart, hunit, hactive, ↓reduceIte, Bool.false_eq_true, hmore, bind_ok,
    Except.ok.injEq, exists_eq_left', readsPacket_append, readsPacket_adaptation,
    readsPacket_cons, readsPacket_nil, hreads (by omega), true_and, and_true]
  omega

theorem inside_ends (hstart : payloadStartOffset input = some payloadStart)
    (hunit : payloadUnitStart input = true) (hactive : s.active = true)
    (hpos : s.t2packetpos ≤ t2packetSize) :
    Inside input outputBufOffset outputBufSize plpId s ↔
      184 ≤ 1 + (input (4 + payloadStart)).toNat ∨
        (1 + (input (4 + payloadStart)).toNat < 184 - payloadStart ∧
          s.t2packetpos + (input (4 + payloadStart)).toNat ≤ t2packetSize) := by
  have hle := payloadStart_le hstart
  rw [Inside, processt2]
  simp only [hstart, hunit, hactive, ↓reduceIte]
  by_cases hpointer : 184 ≤ 1 + (input (4 + payloadStart)).toNat
  case pos =>
    simp only [↓reduceIte, Except.ok.injEq, exists_eq_left', readsPacket_append,
      readsPacket_adaptation, readsPacket_cons, readsPacket_nil, true_and, and_true, hpointer,
      true_or, iff_true]
    omega
  case neg =>
    simp only [hpointer, ↓reduceIte, false_or]
    by_cases hfits : s.t2packetpos + (input (4 + payloadStart)).toNat ≤ t2packetSize
    case pos =>
      obtain ⟨first, out, hs'⟩ : ∃ first out, endPacket input outputBufOffset outputBufSize plpId
          (4 + payloadStart) (1 + (input (4 + payloadStart)).toNat) s =
            .ok (⟨Buffer.fill _ 0, s.t2packetpos, false, first⟩, out) := endPacket_ok (by omega)
      obtain ⟨s'', more, hmore, hreads, -⟩ := startPacket_spec input
        ⟨Buffer.fill _ 0, s.t2packetpos, false, first⟩ (4 + payloadStart) (184 - payloadStart)
        (1 + (input (4 + payloadStart)).toNat) (by omega)
      simp only [hs', bind_ok, hmore, Except.ok.injEq, exists_eq_left', readsPacket_append,
        readsPacket_adaptation, readsPacket_cons, readsPacket_nil, hreads (by omega), true_and,
        and_true, hfits]
      omega
    case neg =>
      simp only [hfits, and_false, iff_false]
      rintro ⟨r, hr, -⟩
      obtain ⟨x, hs', -⟩ := bind_eq_ok.mp hr
      obtain ⟨t, ht, -⟩ := bind_eq_ok.mp hs'
      have hcollect := collectEnd_ok_iff.mp ⟨t, ht⟩
      omega

theorem inside_continues (hstart : payloadStartOffset input = some payloadStart)
    (hunit : payloadUnitStart input = false) :
    Inside input outputBufOffset outputBufSize plpId s ↔
      (s.active = true → s.t2packetpos + (184 - payloadStart) ≤ t2packetSize) := by
  have hle := payloadStart_le hstart
  have hwrite := s.t2packet.write_ok_iff s.t2packetpos
    (block input (4 + payloadStart) (184 - payloadStart))
  rw [length_block] at hwrite
  rw [Inside, processt2]
  simp only [hstart, hunit, Bool.false_eq_true, ↓reduceIte]
  cases hactive : s.active with
  | false => simp
  | true =>
    simp only [↓reduceIte, forall_const, ← hwrite]
    constructor
    · rintro ⟨r, hr, -⟩
      obtain ⟨t, ht, -⟩ := bind_eq_ok.mp hr
      exact ⟨t, ht⟩
    · rintro ⟨t, ht⟩
      rw [ht]
      refine ⟨_, rfl, ?_⟩
      simp only [readsPacket_append, readsPacket_adaptation, readsPacket_cons, readsPacket_nil,
        true_and, and_true]
      omega

end payload

/-- A call stays inside exactly when the packet fits. -/
theorem inside_iff (hpos : s.t2packetpos ≤ t2packetSize) :
    Inside input outputBufOffset outputBufSize plpId s ↔ Fits input s := by
  rw [Fits]
  cases hstart : payloadStartOffset input with
  | none => simp [Inside, processt2, hstart]
  | some payloadStart =>
    simp only [Option.some.injEq, forall_eq']
    cases hunit : payloadUnitStart input with
    | false => exact inside_continues hstart hunit
    | true =>
      cases hactive : s.active with
      | false => simpa using inside_starts hstart hunit hactive
      | true => simpa using inside_ends hstart hunit hactive hpos

/-- A copy that stays inside leaves `t2packetpos` inside. -/
theorem position_call {r : Call} (hpos : s.t2packetpos ≤ t2packetSize)
    (h : processt2 input outputBufOffset outputBufSize plpId s = .ok r) :
    r.state.t2packetpos ≤ t2packetSize := by
  have hstarts : ∀ {s s' : T2State} {payloadStart more},
      startPacket input (4 + payloadStart) (188 - 4 - payloadStart)
        (1 + (input (4 + payloadStart)).toNat) s = .ok (s', more) →
      s.t2packetpos ≤ t2packetSize → s'.t2packetpos ≤ t2packetSize := by
    intro s s' payloadStart more hstart hs
    obtain ⟨s'', more', hs'', -, hposition⟩ := startPacket_spec input s (4 + payloadStart)
      (188 - 4 - payloadStart) (1 + (input (4 + payloadStart)).toNat) (by omega)
    rw [hstart] at hs''
    cases hs''
    exact hposition hs
  cases processt2_returns h with
  | aside _ => exact hpos
  | starts _ _ hstart => exact hstarts hstart hpos
  | ends _ _ _ _ hend hstart =>
    obtain ⟨t, -, hend⟩ := bind_eq_ok.mp hend
    obtain ⟨⟨out, first⟩, -, ⟨⟩⟩ := bind_eq_ok.mp hend
    exact hstarts hstart hpos
  | continues _ _ _ hwrite =>
    have hfits := (s.t2packet.write_ok_iff _ _).mp ⟨_, hwrite⟩
    rwa [length_block] at hfits

end call

/-- Every run, until a copy leaves `t2packet`: `t2packetpos` is inside it, and the next call stays
inside exactly when its packet fits. -/
theorem processt2_inside_iff {past : List Event} {s : T2State} (hrun : Run t2System past s) :
    s.t2packetpos ≤ t2packetSize ∧
      ∀ input outputBufOffset outputBufSize plpId,
        Inside input outputBufOffset outputBufSize plpId s ↔ Fits input s := by
  have hstart : ∀ s, t2System.Initial s → s.t2packetpos ≤ t2packetSize := by
    rintro s rfl
    exact Nat.zero_le _
  have hpos : s.t2packetpos ≤ t2packetSize := by
    refine Run.invariant (P := fun _ s => s.t2packetpos ≤ t2packetSize) hstart ?_ hrun
    intro past s e s' hs hstep
    cases e with
    | packet input outputBufOffset outputBufSize plpId =>
      obtain ⟨r, hr, rfl⟩ := hstep
      exact position_call hs hr
    | reset =>
      cases hstep
      exact hs
  exact ⟨hpos, fun input outputBufOffset outputBufSize plpId => inside_iff hpos⟩

/-! A T2-MI packet without an end, and a pointer field that points behind the TS packet. -/

/-- A T2-MI packet starts at once. -/
def frameStarts : Nat → UInt8 := fun i =>
  if i = 0 then 0x47 else if i = 1 then 0x40 else if i = 3 then 0x10 else 0

def frameGoesOn : Nat → UInt8 := fun i => if i = 0 then 0x47 else if i = 3 then 0x10 else 0

/-- The end of a T2-MI packet of which nothing was received, with a pointer field of 183. -/
def frameEnds : Nat → UInt8 := fun i => if i = 4 then 183 else frameStarts i

theorem inside_frameStarts : Inside frameStarts 0 65612 0 initial := by
  refine ((processt2_inside_iff (.start rfl)).2 frameStarts 0 65612 0).mpr ?_
  rintro payloadStart ⟨⟩
  exact .inr (by decide)

theorem run_packet {past : List Event} {input : Nat → UInt8} {outputBufOffset outputBufSize : Nat}
    {plpId : UInt8} {s : T2State} {r : Call} (hrun : Run t2System past s)
    (hcall : processt2 input outputBufOffset outputBufSize plpId s = .ok r) :
    Run t2System (.packet input outputBufOffset outputBufSize plpId :: past) r.state :=
  hrun.next ⟨r, hcall, rfl⟩

theorem goesOn_run (k : Nat) (hk : k ≤ 355) :
    ∃ past s, Run t2System past s ∧ s.active = true ∧ s.t2packetpos = 183 + 184 * k := by
  induction k with
  | zero =>
    obtain ⟨t, ht, -⟩ := initial.t2packet.write_ok 0 (block frameStarts 5 183)
      (by rw [length_block]; decide)
    have hstart : startPacket frameStarts 4 184 1 initial =
        .ok (⟨t, 183, true, true⟩, [(5, 1), (5, 183)]) := by
      rw [startPacket, if_pos ⟨rfl, by decide⟩]
      simp only [ht, bind_ok]
      rfl
    obtain ⟨reads, hcall⟩ : ∃ reads, processt2 frameStarts 0 65612 0 initial =
      .ok ⟨⟨t, 183, true, true⟩, reads, .none⟩ := processt2_starts rfl rfl rfl hstart
    exact ⟨_, _, run_packet (.start rfl) hcall, rfl, rfl⟩
  | succ k ih =>
    obtain ⟨past, s, hrun, hactive, hpos⟩ := ih (by omega)
    obtain ⟨t, ht⟩ := (s.t2packet.write_ok_iff s.t2packetpos (block frameGoesOn 4 184)).mpr
      (by rw [length_block]; simp only [t2packetSize]; omega)
    obtain ⟨reads, hcall⟩ : ∃ reads, processt2 frameGoesOn 0 65612 0 s =
      .ok ⟨{ s with t2packet := t, t2packetpos := s.t2packetpos + 184 }, reads, .none⟩ :=
      processt2_continues (show payloadStartOffset frameGoesOn = some 0 from rfl) rfl hactive ht
    refine ⟨_, _, run_packet hrun hcall, hactive, ?_⟩
    change s.t2packetpos + 184 = _
    omega

/-- A T2-MI packet over 356 more TS packets leaves `t2packet`. -/
theorem not_inside_goesOn : (∃ past s, Run t2System past s ∧ ¬ Inside frameGoesOn 0 65612 0 s) ∧
    ¬ Inside frameEnds 0 65612 0 initial := by
  constructor
  · obtain ⟨past, s, hrun, hactive, hpos⟩ := goesOn_run 355 (Nat.le_refl _)
    refine ⟨past, s, hrun, fun hinside => ?_⟩
    have hfits := (inside_iff (by rw [hpos]; decide)).mp hinside 0 rfl hactive
    rw [hpos] at hfits
    exact absurd hfits (by decide)
  · intro hinside
    have hfits := (inside_iff (by decide)).mp hinside 0 rfl
    revert hfits
    decide

end MuMuDVB.T2miInput
