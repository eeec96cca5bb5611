import MuMuDVB.SatelliteChain

/-!
# Tuning through switches

What `do_diseqc` leaves on the cable, wherever a request fails, and what the
calls of `tune_it` leave one after the other. The first call for switches of
both types goes on with the type of the second message, so the calls after it
no longer tell the uncommitted switch.
-/
namespace MuMuDVB.SwitchTuning

open RequestScripts CString MuMuDVB.SatelliteSwitch MuMuDVB.SatelliteChain

/-! ## Switches -/

section switches

variable {pins : Nat → Option UInt8} {m : Machine} {c : Chain} {F : UInt8 × UInt8 → Prop}
  {satNo : UInt8} {switchNo : Int} {switchType : SwitchType}
  {polVR hiLo lnbVoltageOff diseqcRepeat : Bool}

/-- The ports after a message for a type of switch. -/
def addressed (switchType : SwitchType) (value : UInt8) (ports : UInt8 × UInt8) : UInt8 × UInt8 :=
  match switchType with
  | .uncommitted => (ports.1, value)
  | .committed | .both => (value, ports.2)
  | _ => ports

/-- `((sat_no) % 2) ? SEC_MINI_B : SEC_MINI_A` -/
def miniCmd (satNo : UInt8) : MiniCmd := if satNo.toNat % 2 = 1 then .miniB else .miniA

/-- What the requests of `do_diseqc` leave. -/
structure Sent (switchType : SwitchType) (value : UInt8) (voltage : Voltage) (hiLo : Bool)
    (burst : MiniCmd) (c : Chain) : Prop where
  voltage : c.voltage = voltage
  tone : c.tone = hiLo
  burst : switchType ≠ .other → c.burst = some burst
  ports : addressed switchType value c.ports = c.ports

theorem mustBeZero_sound (r : Request) : (mustBeZero r).Sound := by
  intro answer
  by_cases h : answer = 0
  · simp [mustBeZero, h]
  · simp [mustBeZero, h]

theorem mustNotFail_sound (r : Request) : (mustNotFail r).Sound := by
  intro answer
  by_cases h : answer < 0
  · simp [mustNotFail, h]
  · simp only [mustNotFail, h, decide_false, Bool.false_eq_true, if_false]
    omega

theorem writes_port {framing : UInt8} (hframing : framing = 0xe0 ∨ framing = 0xe1)
    (htype : switchType = .both ∨ switchType = .uncommitted ∨ switchType = .committed) :
    obey pins c [framing, 0x10, if switchType = .uncommitted then 0x39 else 0x38,
        portByte satNo switchNo polVR hiLo] =
      let ports := addressed switchType (portValue satNo switchNo polVR hiLo) c.ports
      { c with committed := ports.1, uncommitted := ports.2 } := by
  have hnone : framing ≠ 0x70 := by
    rcases hframing with rfl | rfl <;> decide
  rcases htype with rfl | rfl | rfl
  · rw [obey, if_neg hnone, if_pos ⟨⟨hframing, rfl⟩, rfl⟩, writePort_portByte]
    rfl
  · rw [obey, if_neg hnone, if_neg (fun h => absurd h.2 (by decide)),
      if_pos ⟨⟨hframing, rfl⟩, rfl⟩, writePort_portByte]
    rfl
  · rw [obey, if_neg hnone, if_pos ⟨⟨hframing, rfl⟩, rfl⟩, writePort_portByte]
    rfl

theorem addressed_addressed (value : UInt8) (ports : UInt8 × UInt8) :
    addressed switchType value (addressed switchType value ports) =
      addressed switchType value ports := by
  cases switchType <;> rfl

/-- One transmission of the message. -/
theorem diseqcSendMsg_leaves {framing : UInt8} {voltage : Voltage} {burst : MiniCmd}
    (hframing : framing = 0xe0 ∨ framing = 0xe1)
    (htype : switchType = .both ∨ switchType = .uncommitted ∨ switchType = .committed)
    (hkept : ∀ ports, F ports →
      F (addressed switchType (portValue satNo switchNo polVR hiLo) ports)) :
    Leaves (respond pins) (fun c => F c.ports)
      (diseqcSendMsg voltage [[framing, 0x10, if switchType = .uncommitted then 0x39 else 0x38,
        portByte satNo switchNo polVR hiLo]] hiLo burst)
      (fun c => F c.ports ∧
        Sent switchType (portValue satNo switchNo polVR hiLo) voltage hiLo burst c)
      (fun c => F c.ports) := by
  refine leaves_perform ?_ ?_ (fun _ h => h) ?_
  · intro step hstep
    simp only [List.map_cons, List.map_nil, List.mem_append, List.mem_cons, List.not_mem_nil,
      or_false] at hstep
    rcases hstep with (rfl | rfl | rfl) | rfl | rfl
    · exact mustBeZero_sound _
    · exact mustBeZero_sound _
    · exact mustBeZero_sound _
    · intro answer
      by_cases h : answer = 0
      · simp [h]
      · simp [h]
    · exact mustNotFail_sound _
  · intro step hstep c hc
    simp only [List.map_cons, List.map_nil, List.mem_append, List.mem_cons, List.not_mem_nil,
      or_false] at hstep
    rcases hstep with (rfl | rfl | rfl) | rfl | rfl
    · exact hc
    · exact hc
    · rw [mustBeZero, respond, writes_port hframing htype]
      exact hkept _ hc
    · exact hc
    · exact hc
  · intro c hc
    show F (Chain.ports { obey pins { c with tone := false, voltage := voltage } _ with
      burst := some burst, tone := hiLo }) ∧ Sent _ _ _ _ _ { obey pins
        { c with tone := false, voltage := voltage } _ with burst := some burst, tone := hiLo }
    rw [writes_port hframing htype]
    exact ⟨hkept _ hc, rfl, rfl, fun _ => rfl, addressed_addressed _ _⟩

/-- However often the message is sent, and wherever the transmission breaks off. -/
theorem doDiseqc_leaves
    (hkept : ∀ ports, F ports →
      F (addressed switchType (portValue satNo switchNo polVR hiLo) ports)) :
    Leaves (respond pins) (fun c => F c.ports)
      (doDiseqc m satNo switchNo switchType polVR hiLo lnbVoltageOff diseqcRepeat)
      (fun c => F c.ports ∧ Sent switchType (portValue satNo switchNo polVR hiLo)
        (lnbVoltage lnbVoltageOff polVR) hiLo (miniCmd satNo) c)
      (fun c => F c.ports) := by
  intro s line hline
  rw [doDiseqc]
  by_cases hscr : switchType = .unicable ∨ switchType = .jess
  · rw [if_pos hscr]
    exact ⟨fun h => absurd (show (-1 : Int) = 0 from h) (by decide), fun _ => hline⟩
  rw [if_neg hscr]
  by_cases htype : switchType = .both ∨ switchType = .uncommitted ∨ switchType = .committed
  · rw [if_pos htype]
    by_cases hgranted : m.granted line.calls.length = false
    · rw [if_pos hgranted]
      exact ⟨fun h => absurd (show (-1 : Int) = 0 from h) (by decide), fun _ => hline⟩
    · rw [if_neg hgranted]
      have hfirst := @diseqcSendMsg_leaves pins F satNo switchNo switchType polVR hiLo 0xe0
        (lnbVoltage lnbVoltageOff polVR) (miniCmd satNo) (Or.inl rfl) htype hkept
      cases diseqcRepeat with
      | false => exact hfirst s line hline
      | true =>
        have hsecond := @diseqcSendMsg_leaves pins F satNo switchNo switchType polVR hiLo 0xe1
          (lnbVoltage lnbVoltageOff polVR) (miniCmd satNo) (Or.inr rfl) htype hkept
        exact (hfirst.again (hsecond.consequence (fun _ h => h.1) (fun _ h => h) fun _ h => h)
          hsecond) s line hline
  · rw [if_neg htype]
    have hother : switchType = .other := by
      cases switchType <;> simp_all
    subst hother
    have hplain : Leaves (respond pins) (fun c => F c.ports)
        (perform [mustNotFail (.setVoltage (lnbVoltage lnbVoltageOff polVR)),
          mustNotFail (.setTone hiLo)])
        (fun c => F c.ports ∧ Sent .other (portValue satNo switchNo polVR hiLo)
          (lnbVoltage lnbVoltageOff polVR) hiLo (miniCmd satNo) c)
        (fun c => F c.ports) := by
      refine leaves_perform ?_ ?_ (fun _ h => h)
        fun c hc => ⟨hc, rfl, rfl, fun h => absurd rfl h, rfl⟩
      · intro step hstep
        rcases List.mem_cons.mp hstep with rfl | hstep
        · exact mustNotFail_sound _
        · rw [List.mem_singleton.mp hstep]
          exact mustNotFail_sound _
      · intro step hstep c hc
        rcases List.mem_cons.mp hstep with rfl | hstep
        · exact hc
        · rw [List.mem_singleton.mp hstep]
          exact hc
    exact hplain s line hline

/-- The tuning of the front end at the end. -/
theorem setFrontend_leaves {p : TuneParameters} {f : Nat} {E S : Chain → Prop}
    (hE : ∀ c, E c → E { c with tuned := some f }) (hS : ∀ c, S c → S { c with tuned := some f }) :
    Leaves (respond pins) (fun c => E c ∧ S c) (setFrontend p f)
      (fun c => (E c ∧ S c) ∧ c.tuned = some f) E := by
  rw [setFrontend]
  split
  · refine leaves_perform ?_ ?_ (fun _ h => h.1) fun c hc => ⟨⟨hE c hc.1, hS c hc.2⟩, rfl⟩
    · intro step hstep answer
      rcases List.mem_cons.mp hstep with rfl | hstep
      · by_cases h : answer = -1 <;> simp [h]
      · rw [List.mem_singleton.mp hstep]
        by_cases h : answer = -1 <;> simp [h]
    · intro step hstep c hc
      rcases List.mem_cons.mp hstep with rfl | hstep
      · exact hc
      · rw [List.mem_singleton.mp hstep]
        exact hE c hc
  · refine leaves_perform ?_ ?_ (fun _ h => h.1) fun c hc => ⟨⟨hE c hc.1, hS c hc.2⟩, rfl⟩
    · intro step hstep
      rw [List.mem_singleton.mp hstep]
      exact mustNotFail_sound _
    · intro step hstep c hc
      rw [List.mem_singleton.mp hstep]
      exact hE c hc

end switches

/-! ## Tuning through the switches -/

section tuning

variable {pins : Nat → Option UInt8} {m : Machine} {p : TuneParameters} {c : Chain}
  {line : Line Request} {F : UInt8 × UInt8 → Prop}

/-- The inputs that the parameters ask for. -/
def inputs (p : TuneParameters) : UInt8 := portValue p.satNumber p.switchNo p.polVR p.hiLo

/-- The oscillator of the LNB that a tone chooses. -/
def oscillator (p : TuneParameters) (tone : Bool) : Nat :=
  match p.lnbType with
  | .universal => if tone then p.lnbLofHigh else p.lnbLofLow
  | .standard => p.lnbLofStandard

/-- The switches of a type stand at the inputs that are asked for. -/
def Positions (listening : SwitchType) (p : TuneParameters) (ports : UInt8 × UInt8) : Prop :=
  (listening = .both ∨ listening = .committed → ports.1 = inputs p) ∧
  (listening = .both ∨ listening = .uncommitted → ports.2 = inputs p)

/-- The transponder arrives where the front end is tuned to. -/
structure Wired (listening : SwitchType) (p : TuneParameters) (c : Chain) : Prop where
  positions : Positions listening p c.ports
  voltage : c.voltage = lnbVoltage p.lnbVoltageOff p.polVR
  band : c.tone = p.hiLo
  burst : listening ≠ .other → c.burst = some (miniCmd p.satNumber)
  tuned : c.tuned = some (p.freq - oscillator p c.tone).natAbs

/-- The numbers that the code casts to `int` are ones. -/
structure Fits (p : TuneParameters) : Prop where
  low : -2 ^ 31 ≤ p.freq
  high : p.freq < 2 ^ 31
  oscillators : p.lnbLofStandard < 2 ^ 31 ∧ p.lnbLofLow < 2 ^ 31 ∧ p.lnbLofHigh < 2 ^ 31

theorem frequency_eq (h : Fits p) : p.frequency = (p.freq - oscillator p p.hiLo).natAbs := by
  have hchosen : p.loFrequency = oscillator p p.hiLo := by
    rw [TuneParameters.loFrequency, oscillator, TuneParameters.hiLo]
    cases p.lnbType with
    | universal =>
      dsimp only
      split <;> rfl
    | standard => rfl
  have hlo : oscillator p p.hiLo < 2 ^ 31 := by
    rw [oscillator]
    split
    · split
      · exact h.oscillators.2.2
      · exact h.oscillators.2.1
    · exact h.oscillators.1
  rw [TuneParameters.frequency, hchosen, int_of_fits h.low h.high,
    int_of_fits (by omega) (by omega)]

/-- `tune_it` without the parameters that it leaves. -/
def tuneLine (m : Machine) (p : TuneParameters) (line : Line Request) : Int × Line Request :=
  ((tuneIt m p line).1, (tuneIt m p line).2.2)

/-- One message, for a switch that is not of both types. -/
theorem tuneLine_leaves (huni : p.uniFreq = 0) (htype : p.switchType ≠ .both)
    (hkept : ∀ ports, F ports → F (addressed p.switchType (inputs p) ports)) :
    Leaves (respond pins) (fun c => F c.ports) (tuneLine m p)
      (fun c => (F c.ports ∧ Sent p.switchType (inputs p) (lnbVoltage p.lnbVoltageOff p.polVR)
        p.hiLo (miniCmd p.satNumber) c) ∧ c.tuned = some p.frequency)
      (fun c => F c.ports) ∧
    ∀ line, (tuneIt m p line).2.1 = p := by
  have heq : tuneLine m p = fun line => if (p.diseqc m line).1 = 0
      then setFrontend p p.frequency (p.diseqc m line).2 else (-1, (p.diseqc m line).2) := by
    funext line
    rw [tuneLine, tuneIt, if_neg (by omega), if_neg htype]
    dsimp only
    split <;> rfl
  refine ⟨?_, fun line => ?_⟩
  · rw [heq]
    exact (doDiseqc_leaves hkept).andThen
      (setFrontend_leaves (fun _ h => h) fun c h => ⟨h.1, h.2, h.3, h.4⟩)
  · rw [tuneIt, if_neg (by omega), if_neg htype]
    dsimp only
    split <;> rfl

/-- Both messages: the parameters go on with the type of the second. -/
theorem tuneLine_both (huni : p.uniFreq = 0) (htype : p.switchType = .both) :
    Leaves (respond pins) (fun _ => True) (tuneLine m p)
      (fun c => (Positions .both p c.ports ∧ Sent .committed (inputs p)
        (lnbVoltage p.lnbVoltageOff p.polVR) p.hiLo (miniCmd p.satNumber) c) ∧
        c.tuned = some p.frequency)
      (fun _ => True) ∧
    ∀ line, (tuneIt m p line).1 = 0 →
      (tuneIt m p line).2.1 = { p with switchType := .committed } := by
  have heq : tuneLine m p = fun line =>
      if (TuneParameters.diseqc m { p with switchType := .uncommitted } line).1 = 0
      then (fun line => if (TuneParameters.diseqc m { p with switchType := .committed } line).1 = 0
          then setFrontend { p with switchType := .committed } p.frequency
            (TuneParameters.diseqc m { p with switchType := .committed } line).2
          else (-1, (TuneParameters.diseqc m { p with switchType := .committed } line).2))
        (TuneParameters.diseqc m { p with switchType := .uncommitted } line).2
      else (-1, (TuneParameters.diseqc m { p with switchType := .uncommitted } line).2) := by
    funext line
    rw [tuneLine, tuneIt, if_neg (by omega), if_pos htype]
    dsimp only
    split
    · split <;> rfl
    · rfl
  refine ⟨?_, fun line hzero => ?_⟩
  · rw [heq]
    have hfirst := @doDiseqc_leaves pins m (fun _ => True) p.satNumber p.switchNo .uncommitted
      p.polVR p.hiLo p.lnbVoltageOff p.diseqcRepeat fun _ _ => trivial
    have hsecond := @doDiseqc_leaves pins m (fun ports => ports.2 = inputs p) p.satNumber p.switchNo
      .committed p.polVR p.hiLo p.lnbVoltageOff p.diseqcRepeat fun _ h => h
    have htuned := @setFrontend_leaves pins { p with switchType := .committed } p.frequency
      (fun c => c.ports.2 = inputs p) (Sent .committed (inputs p)
        (lnbVoltage p.lnbVoltageOff p.polVR) p.hiLo (miniCmd p.satNumber))
      (fun _ h => h) fun c h => ⟨h.1, h.2, h.3, h.4⟩
    have hboth : ∀ c : Chain, c.ports.2 = inputs p →
        addressed .committed (inputs p) c.ports = c.ports → Positions .both p c.ports :=
      fun c huncommitted hcommitted =>
        ⟨fun _ => congrArg Prod.fst hcommitted.symm, fun _ => huncommitted⟩
    have hrest := (hsecond.andThen htuned).consequence (fun _ h => h)
      (fun c h => And.intro (And.intro (hboth c h.1.1 h.1.2.ports) h.1.2) h.2) fun _ _ => trivial
    exact (hfirst.consequence (fun _ _ => trivial)
      (fun c h => congrArg Prod.snd h.2.ports.symm) fun _ h => h).andThen hrest
  · rw [tuneIt, if_neg (by omega), if_pos htype] at hzero ⊢
    dsimp only at hzero ⊢
    split
    case isTrue hsent => split <;> rfl
    case isFalse hfailed =>
      rw [if_neg hfailed] at hzero
      exact absurd (show (-1 : Int) = 0 from hzero) (by decide)

/-- The parameters with which the calls after the first one go on. -/
def settled (p : TuneParameters) : TuneParameters :=
  if p.switchType = .both then { p with switchType := .committed } else p

/-- What holds between the calls. -/
structure Between (pins : Nat → Option UInt8) (p : TuneParameters) (c : Chain)
    (last : Int × TuneParameters × Line Request) : Prop where
  parameters : last.2.1 = settled p
  positions : Positions p.switchType p (after (respond pins) c last.2.2.calls).ports
  wired : last.1 = 0 → Wired p.switchType p (after (respond pins) c last.2.2.calls)

theorem settled_fields (p : TuneParameters) : (settled p).uniFreq = p.uniFreq ∧
    (settled p).switchType ≠ .both ∧ inputs (settled p) = inputs p ∧
    (settled p).lnbVoltageOff = p.lnbVoltageOff ∧ (settled p).polVR = p.polVR ∧
    (settled p).hiLo = p.hiLo ∧ (settled p).satNumber = p.satNumber ∧
    (settled p).frequency = p.frequency := by
  rw [settled]
  split
  · exact ⟨rfl, nofun, rfl, rfl, rfl, rfl, rfl, rfl⟩
  case isFalse h => exact ⟨rfl, h, rfl, rfl, rfl, rfl, rfl, rfl⟩

/-- A message for the type that goes on leaves the switches where they are. -/
theorem positions_addressed {ports : UInt8 × UInt8} (h : Positions p.switchType p ports) :
    Positions p.switchType p (addressed (settled p).switchType (inputs p) ports) := by
  rw [settled]
  split
  case isTrue htype => exact ⟨fun _ => rfl, fun h' => h.2 h'⟩
  case isFalse htype =>
    cases hp : p.switchType with
    | uncommitted => exact ⟨fun h' => h.1 (hp ▸ h'), fun _ => rfl⟩
    | committed => exact ⟨fun _ => rfl, fun h' => h.2 (hp ▸ h')⟩
    | both => exact absurd hp htype
    | _ => exact ⟨fun h' => h.1 (hp ▸ h'), fun h' => h.2 (hp ▸ h')⟩

theorem wired_of_sent (hfits : Fits p) (hpositions : Positions p.switchType p c.ports)
    {listening : SwitchType} (hobeying : p.switchType ≠ .other → listening ≠ .other)
    (hsent : Sent listening (inputs p) (lnbVoltage p.lnbVoltageOff p.polVR) p.hiLo
      (miniCmd p.satNumber) c)
    (htuned : c.tuned = some p.frequency) : Wired p.switchType p c where
  positions := hpositions
  voltage := hsent.voltage
  band := hsent.tone
  burst h := hsent.burst (hobeying h)
  tuned := by rw [htuned, hsent.tone, frequency_eq hfits]

/-- The first call, when it succeeds. -/
theorem tuneIt_first (hfits : Fits p) (huni : p.uniFreq = 0) (hzero : (tuneIt m p line).1 = 0) :
    Between pins p c (tuneIt m p line) := by
  by_cases htype : p.switchType = .both
  · obtain ⟨hleaves, hparameters⟩ := @tuneLine_both pins m p huni htype
    obtain ⟨⟨hpositions, hsent⟩, htuned⟩ := (hleaves c line trivial).1 hzero
    rw [← htype] at hpositions
    exact ⟨by rw [hparameters line hzero, settled, if_pos htype], hpositions,
      fun _ => wired_of_sent hfits hpositions
        (fun _ (h : SwitchType.committed = .other) => by cases h) hsent htuned⟩
  · obtain ⟨hleaves, hparameters⟩ := @tuneLine_leaves pins m p (fun _ => True) huni htype
      fun _ _ => trivial
    obtain ⟨⟨-, hsent⟩, htuned⟩ := (hleaves c line trivial).1 hzero
    have hpositions : Positions p.switchType p
        (after (respond pins) c (tuneLine m p line).2.calls).ports := by
      have hports := hsent.ports
      cases hp : p.switchType with
      | uncommitted =>
        rw [hp] at hports
        exact ⟨fun h => by simp at h, fun _ => congrArg Prod.snd hports.symm⟩
      | committed =>
        rw [hp] at hports
        exact ⟨fun _ => congrArg Prod.fst hports.symm, fun h => by simp at h⟩
      | both => exact absurd hp htype
      | _ => exact ⟨fun h => by simp at h, fun h => by simp at h⟩
    exact ⟨by rw [hparameters line, settled, if_neg htype], hpositions,
      fun _ => wired_of_sent hfits hpositions (fun h => h) hsent htuned⟩

/-- A later call, whether it succeeds or not. -/
theorem tuneIt_again (hfits : Fits p) (huni : p.uniFreq = 0)
    (hpositions : Positions p.switchType p (after (respond pins) c line.calls).ports) :
    Between pins p c (tuneIt m (settled p) line) := by
  obtain ⟨hsame, htype, hinputs, hoff, hpol, hband, hsat, hfrequency⟩ := settled_fields p
  obtain ⟨hleaves, hparameters⟩ := @tuneLine_leaves pins m (settled p) (Positions p.switchType p)
    (hsame.trans huni) htype fun ports h => by rw [hinputs]; exact positions_addressed h
  rw [hinputs, hoff, hpol, hband, hsat, hfrequency] at hleaves
  obtain ⟨hgood, hbad⟩ := hleaves c line hpositions
  refine ⟨hparameters line, ?_, fun hzero => ?_⟩
  · by_cases hzero : (tuneIt m (settled p) line).1 = 0
    · exact (hgood hzero).1.1
    · exact hbad hzero
  · obtain ⟨⟨hports, hsent⟩, htuned⟩ := hgood hzero
    refine wired_of_sent hfits hports (fun h => ?_) hsent htuned
    rw [settled]
    split
    · exact nofun
    · exact h

theorem tunes_between (hfits : Fits p) (huni : p.uniFreq = 0) (hzero : (tuneIt m p line).1 = 0)
    (n : Nat) : Between pins p c (tunes m n (tuneIt m p line)) := by
  have hrun : ∀ n last, Between pins p c last → Between pins p c (tunes m n last) := by
    intro n
    induction n with
    | zero => exact fun _ h => h
    | succ n ih =>
      intro last h
      rw [tunes, h.parameters]
      exact ih _ (tuneIt_again hfits huni h.positions)
  exact hrun n _ (tuneIt_first hfits huni hzero)

/-- A transponder of the second satellite, behind two switches. -/
def twoSwitches : TuneParameters where
  freq := 11836500
  pol := .horizontal
  lnbType := .universal
  lnbLofStandard := 10750000
  lnbSlof := 11700000
  lnbLofLow := 9750000
  lnbLofHigh := 10600000
  lnbVoltageOff := false
  satNumber := 2
  switchNo := -1
  pinNo := -1
  switchType := .both
  diseqcRepeat := true
  uniFreq := 0
  deliverySystemDefined := true

/-- A system with memory, and a driver that carries out what it is asked for. -/
def machine : Machine := ⟨fun _ => true, [], fun _ => 0⟩

def freshLine : Line Request := ⟨[], fun _ => 0⟩

def freshChain : Chain := ⟨false, .off, none, 0, 0, fun _ => none, fun _ => none, none⟩

end tuning

end MuMuDVB.SwitchTuning
