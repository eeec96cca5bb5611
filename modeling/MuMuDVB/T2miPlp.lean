import MuMuDVB.T2miFrames

/-!
# Which PLP comes out

T2-MI packets of several PLPs follow each other in one stream and are collected
in the same buffer. Which of them is looked at is decided when it ends, on its
byte 7. That byte is a `char` of the platform, which is signed, and is compared
with an unsigned parameter.
-/
namespace MuMuDVB.T2miPlp

open CheckedMemory RecordedRun MuMuDVB.TsHeader MuMuDVB.T2mi MuMuDVB.T2miInput
  MuMuDVB.T2miCollect MuMuDVB.T2miFrames

/-- The call ends the open T2-MI packet, and `t` holds what was collected of it. -/
def Ends (input : Nat → UInt8) (s : T2State) (t : Buffer UInt8 t2packetSize) : Prop :=
  ∃ payloadStart, payloadStartOffset input = some payloadStart ∧ payloadUnitStart input = true ∧
    s.active = true ∧ 1 + (input (4 + payloadStart)).toNat < 184 ∧
    collectEnd input (4 + payloadStart) (1 + (input (4 + payloadStart)).toNat) s = .ok t

/-- A T2-MI packet of the PLP that ends gives its user packets; without one nothing is written and
`t2mi_first` stays. -/
def Selects (input : Nat → UInt8) (outputBufOffset outputBufSize : Nat) (plpId : UInt8)
    (s : T2State) : Prop :=
  ∀ r, processt2 input outputBufOffset outputBufSize plpId s = .ok r →
    (∀ t, Ends input s t → byteAt t.cells 7 = plpId →
      extract t outputBufOffset outputBufSize s.first = .ok (r.output, r.state.first)) ∧
    ((∀ t, Ends input s t → byteAt t.cells 7 ≠ plpId) →
      r.output = .none ∧ r.state.first = s.first)

def UsesPlp (plpId : UInt8) : Event → Prop
  | .packet _ _ _ plp => plp = plpId
  | .reset => True

/-- The decapsulator as it is called: always with the same PLP. -/
def plpSystem (plpId : UInt8) : System T2State Event :=
  t2System.restrict fun _ e => UsesPlp plpId e

section call

variable {input : Nat → UInt8} {outputBufOffset outputBufSize : Nat} {plpId : UInt8}
  {s s' : T2State} {r : Call} {t : Buffer UInt8 t2packetSize}

theorem startPacket_first {buf len offset : Nat} {more : List (Nat × Nat)}
    (h : startPacket input buf len offset s = .ok (s', more)) : s'.first = s.first := by
  rw [startPacket] at h
  split at h
  · obtain ⟨t, -, ⟨⟩⟩ := bind_eq_ok.mp h
    rfl
  · cases h
    rfl

/-- The selection is made when a T2-MI packet ends. -/
theorem processt2_of_ends (hends : Ends input s t)
    (hcall : processt2 input outputBufOffset outputBufSize plpId s = .ok r) :
    extractPlp t outputBufOffset outputBufSize plpId s.first =
      .ok (r.output, r.state.first) := by
  obtain ⟨payloadStart, hpayload, hunit, hactive, hpointer, ht⟩ := hends
  cases processt2_returns hcall with
  | aside haside =>
    exact absurd (haside payloadStart hpayload hunit hactive) (Nat.not_le.mpr hpointer)
  | starts _ hinactive _ => exact absurd (hinactive.symm.trans hactive) Bool.false_ne_true
  | continues _ hnostart _ _ => exact absurd (hnostart.symm.trans hunit) Bool.false_ne_true
  | ends hpayload' _ _ _ hend hstart =>
    cases hpayload.symm.trans hpayload'
    obtain ⟨t', ht', hend⟩ := bind_eq_ok.mp hend
    obtain ⟨⟨out, first⟩, hextract, ⟨⟩⟩ := bind_eq_ok.mp hend
    cases ht.symm.trans ht'
    rw [startPacket_first hstart]
    exact hextract

/-- While no T2-MI packet ends nothing is written. -/
theorem processt2_of_not_ends (hends : ∀ t, ¬Ends input s t)
    (hcall : processt2 input outputBufOffset outputBufSize plpId s = .ok r) :
    r.output = .none ∧ r.state.first = s.first := by
  cases processt2_returns hcall with
  | aside _ => exact ⟨rfl, rfl⟩
  | starts _ _ hstart => exact ⟨rfl, startPacket_first hstart⟩
  | continues _ _ _ _ => exact ⟨rfl, rfl⟩
  | ends hpayload hunit hactive hpointer hend _ =>
    obtain ⟨t, ht, -⟩ := bind_eq_ok.mp hend
    exact absurd ⟨_, hpayload, hunit, hactive, hpointer, ht⟩ (hends t)

/-- A call selects as it should unless a T2-MI packet of a PLP from 128 on ends. -/
theorem selects_of (h : plpId < 128 ∨ ∀ t, Ends input s t → byteAt t.cells 7 ≠ plpId) :
    Selects input outputBufOffset outputBufSize plpId s := by
  intro r hcall
  refine ⟨fun t hends hbyte => ?_, fun hother => ?_⟩
  · have hplp : plpId < 128 := h.resolve_right fun hother => hother t hends hbyte
    have hextract := processt2_of_ends hends hcall
    rwa [extractPlp, if_pos (by rw [samePlp, hbyte]; simpa using hplp)] at hextract
  · by_cases hends : ∃ t, Ends input s t
    · obtain ⟨t, hends⟩ := hends
      have hextract := processt2_of_ends hends hcall
      have hbyte := hother t hends
      rw [extractPlp, if_neg (by rw [samePlp]; simp [hbyte])] at hextract
      have hpair := Prod.mk.inj (Except.ok.inj hextract)
      exact ⟨hpair.1.symm, hpair.2.symm⟩
    · exact processt2_of_not_ends (not_exists.mp hends) hcall

/-- What ends is what was collected. -/
theorem collected_ends {sent rest head payload : List UInt8} (h : Collected s sent)
    (hpayload : Payload input payload) (hunit : payloadUnitStart input = true)
    (hbytes : payload = UInt8.ofNat rest.length :: (rest ++ head)) (hhead : head ≠ [])
    (hroom : (sent ++ rest).length ≤ t2packetSize) :
    ∃ t, Ends input s t ∧ t.cells.take (sent ++ rest).length = sent ++ rest := by
  obtain ⟨payloadStart, hstart, hblock⟩ := hpayload.offset
  obtain ⟨hpointer, hrest, -, hlen⟩ := pointer_payload (hblock.symm.trans hbytes)
  have hne := List.length_pos_iff.mpr hhead
  obtain ⟨t, ht, hcells⟩ := h.collectEnd hrest hroom
  rw [← hpointer] at ht
  exact ⟨t, ⟨payloadStart, hstart, hunit, h.active, by omega, ht⟩, hcells⟩

/-- A first T2-MI packet of a PLP from 128 on, in which a user packet starts, is not looked at. -/
theorem not_selects_of_ends (hends : Ends input s t) (hbyte : byteAt t.cells 7 = plpId)
    (hplp : ¬plpId < 128) (hfirst : s.first = true) (hsyncd : syncd t.cells ≠ 0x1fff)
    (hO : outputBufOffset ≤ outputBufSize) (hS : outputBufSize < 4294967296)
    (hcall : processt2 input outputBufOffset outputBufSize plpId s = .ok r) :
    ¬Selects input outputBufOffset outputBufSize plpId s := by
  intro hselects
  have hgiven := (hselects r hcall).1 t hends hbyte
  have hnot := processt2_of_ends hends hcall
  have hfits : ¬outputBufSize < uadd outputBufOffset (restLength true t.cells) := by
    have hrest : restLength true t.cells = 0 := if_neg (by simp)
    rw [hrest, uadd_of_lt (by omega)]
    omega
  rw [hfirst] at hgiven hnot
  rw [extract_eq true hsyncd hO hS, if_neg hfits] at hgiven
  rw [extractPlp, if_neg (by rw [samePlp, hbyte]; simp [hplp])] at hnot
  -- the T2-MI packet would have ended the search for the first one
  have hfound := (Prod.mk.inj (Except.ok.inj hgiven)).2
  have hkept := (Prod.mk.inj (Except.ok.inj hnot)).2
  rw [← hkept] at hfound
  cases hfound

end call

/-! A frame of 188 bytes for any PLP, in two TS packets. -/

section plpFrame

variable (plpId : UInt8)

def plpFrame : List UInt8 := (nullFrame 0 0).set 7 plpId

/-- The TS packet in which the frame starts. -/
def plpStart : Nat → UInt8 := tsPacket true (0 :: (plpFrame plpId).take 183)

/-- The TS packet in which it ends and the next one starts. -/
def plpEnd : Nat → UInt8 :=
  tsPacket true (24 :: ((plpFrame plpId).drop 183 ++ (plpFrame plpId).take 159))

theorem length_plpFrame : (plpFrame plpId).length = 207 := by
  rw [plpFrame, List.length_set, length_nullFrame]

/-- The two calls, from the start on: the second one ends the frame. -/
theorem plpEnd_ends : ∃ past s t r, Run (plpSystem plpId) past s ∧ s.first = true ∧
    Ends (plpEnd plpId) s t ∧ t.cells.take 207 = plpFrame plpId ∧
    processt2 (plpEnd plpId) 0 65612 plpId s = .ok r := by
  have hlen := length_plpFrame plpId
  have hstart : (0 :: (plpFrame plpId).take 183).length = 184 := by
    simp [hlen]
  have hend : (24 :: ((plpFrame plpId).drop 183 ++ (plpFrame plpId).take 159)).length = 184 := by
    simp [hlen]
  have hrest : ((plpFrame plpId).drop 183).length = 24 := by simp [hlen]
  obtain ⟨s, reads, hcall, hcollected, hfirst⟩ : ∃ s reads,
      processt2 (plpStart plpId) 0 65612 plpId initial = .ok ⟨s, reads, .none⟩ ∧
        Collected s ((plpFrame plpId).take 183) ∧ s.first = initial.first :=
    starts_collected rfl (payload_tsPacket true hstart) (payloadUnitStart_tsPacket _ _)
      (show _ = UInt8.ofNat ([] : List UInt8).length :: ([] ++ _) from rfl) rfl
  have hbytes : 24 :: ((plpFrame plpId).drop 183 ++ (plpFrame plpId).take 159) =
      UInt8.ofNat ((plpFrame plpId).drop 183).length ::
        ((plpFrame plpId).drop 183 ++ (plpFrame plpId).take 159) := by
    rw [hrest]
    rfl
  have hroom : ((plpFrame plpId).take 183 ++ (plpFrame plpId).drop 183).length ≤ t2packetSize := by
    rw [List.take_append_drop, hlen]
    decide
  obtain ⟨t, hends, ht⟩ := collected_ends hcollected (payload_tsPacket true hend)
    (payloadUnitStart_tsPacket _ _) hbytes (fun hnil => by cases hnil) hroom
  obtain ⟨t', -, hreturns⟩ := hcollected.ends (payload_tsPacket true hend)
    (payloadUnitStart_tsPacket _ _) hbytes rfl hroom
  obtain ⟨⟨out, first⟩, hextract⟩ : ∃ out, extractPlp t' 0 65612 plpId s.first = .ok out :=
    extractPlp_ok t' s.first
  obtain ⟨s', reads', hcall', -⟩ := hreturns out first hextract
  rw [List.take_append_drop, hlen] at ht
  exact ⟨_, s, t, _, .next (.start rfl) ⟨show UsesPlp plpId (.packet (plpStart plpId) 0 65612 plpId)
    from rfl, _, hcall, rfl⟩, hfirst, hends, ht, hcall'⟩

theorem not_selects_plpEnd (hplp : ¬plpId < 128) :
    ∃ past s, Run (plpSystem plpId) past s ∧ ¬Selects (plpEnd plpId) 0 65612 plpId s := by
  obtain ⟨past, s, t, r, hrun, hfirst, hends, ht, hcall⟩ := plpEnd_ends plpId
  have hbyte : ∀ i, i < 207 → byteAt t.cells i = byteAt (plpFrame plpId) i := fun i hi => by
    rw [← ht, byteAt_take hi]
  have hsyncd : syncd t.cells ≠ 0x1fff := by
    have hhigh : byteAt (plpFrame plpId) 16 = 0 := rfl
    have hlow : byteAt (plpFrame plpId) 17 = 0 := rfl
    rw [syncd, hbyte 16 (by decide), hbyte 17 (by decide), hhigh, hlow]
    decide
  exact ⟨past, s, hrun, not_selects_of_ends hends (hbyte 7 (by decide)) hplp hfirst hsyncd
    (by decide) (by decide) hcall⟩

end plpFrame

/-- The PLPs for which every call of every run selects as it should: those that a signed `char` can
be equal to. -/
theorem selection_iff (plpId : UInt8) :
    (∀ past s, Run (plpSystem plpId) past s → ∀ input outputBufOffset outputBufSize,
      Selects input outputBufOffset outputBufSize plpId s) ↔ plpId < 128 := by
  constructor
  · intro hselects
    by_contra hplp
    obtain ⟨past, s, hrun, hnot⟩ := not_selects_plpEnd plpId hplp
    exact hnot (hselects past s hrun _ _ _)
  · exact fun hplp past s _ input outputBufOffset outputBufSize => selects_of (.inl hplp)

/-- A frame of PLP 200. -/
theorem not_selects_twoHundred :
    ∃ past s, Run (plpSystem 200) past s ∧ ¬Selects (plpEnd 200) 0 65612 200 s :=
  not_selects_plpEnd 200 (by decide)

end MuMuDVB.T2miPlp
