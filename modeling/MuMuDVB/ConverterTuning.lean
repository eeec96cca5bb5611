import Mathlib.Algebra.Order.Group.Unbundled.Int
import MuMuDVB.SwitchTuning

/-!
# Tuning through a converter

What `do_unicable` tells the converter at the other end of the cable, wherever a
request fails, and where the front end is tuned to afterwards.
-/
namespace MuMuDVB.ConverterTuning

open RequestScripts CString MuMuDVB.SatelliteSwitch MuMuDVB.SatelliteChain MuMuDVB.SwitchTuning

section converters

variable {pins : Nat → Option UInt8} {m : Machine} {p : TuneParameters} {c c₀ : Chain}
  {line : Line Request}

/-- The user bands of the converter of a kind, and those of the other kind. -/
def bands (switchType : SwitchType) (c : Chain) : Nat → Option UserBand :=
  if switchType = .jess then c.scr2 else c.scr

def otherBands (switchType : SwitchType) (c : Chain) : Nat → Option UserBand :=
  if switchType = .jess then c.scr else c.scr2

def setBand (switchType : SwitchType) (n : Nat) (band : UserBand) (c : Chain) : Chain :=
  if switchType = .jess then { c with scr2 := fun i => if i = n then some band else c.scr2 i }
  else { c with scr := fun i => if i = n then some band else c.scr i }

/-- The PIN that a message carries. -/
def pinOf (pinNo : Int) : Option UInt8 := if 0 < pinNo then some (UInt8.ofInt pinNo) else none

/-- What the parameters ask of the user band. -/
def wantedBand (m : Machine) (p : TuneParameters) : UserBand :=
  if p.switchType = .jess then
    ⟨p.satNumber.toNat - 1, !p.polVR, p.hiLo, (jessWord p.frequency).toNat % 2048⟩
  else ⟨if p.satNumber = 1 then 0 else 1, !p.polVR, p.hiLo,
    (unicableWord m p.frequency p.uniFreq).toNat % 1024⟩

/-- The number is one of a user band, and that of the satellite one of a position. -/
def Addressable (p : TuneParameters) : Prop :=
  0 ≤ p.switchNo ∧
  if p.switchType = .jess then p.switchNo < 32 ∧ 1 ≤ p.satNumber.toNat ∧ p.satNumber.toNat ≤ 64
  else p.switchNo < 8

theorem changeBand_self {old : Nat → Option UserBand} {n : Nat} {pin : Option UInt8}
    {band : UserBand} (h : pins n = pin) :
    changeBand pins old n pin band = fun i => if i = n then some band else old i := by
  funext i
  rw [changeBand]
  simp only [h, and_true]

/-- Both messages say the same to the converter. -/
theorem listen_plan (hkind : p.switchType = .unicable ∨ p.switchType = .jess)
    (haddressable : Addressable p) (hpin : pins p.switchNo.toNat = pinOf p.pinNo) (c : Chain) :
    obey pins c (p.plan m).1 = setBand p.switchType p.switchNo.toNat (wantedBand m p) c ∧
    obey pins c (p.plan m).2.1 = setBand p.switchType p.switchNo.toNat (wantedBand m p) c := by
  rw [TuneParameters.plan]
  obtain ⟨hlow, hrange⟩ := haddressable
  rcases hkind with hkind | hkind
  · rw [if_neg (by rw [hkind]; exact nofun)] at hrange
    obtain ⟨hband, hfields⟩ := @scrBand_unicable p.satNumber p.switchNo p.polVR p.hiLo
      (unicableWord m p.frequency p.uniFreq) hlow hrange
    have hmessage : ∀ framing, framing = 0xe0 ∨ framing = 0xe1 →
        obey pins c (unicableMessage p.satNumber p.switchNo p.pinNo p.polVR p.hiLo
          (unicableWord m p.frequency p.uniFreq) framing) =
        setBand p.switchType p.switchNo.toNat (wantedBand m p) c := by
      intro framing hframing
      have hnone : framing ≠ 0x71 := by
        rcases hframing with rfl | rfl <;> decide
      rw [setBand, if_neg (by rw [hkind]; exact nofun), wantedBand,
        if_neg (by rw [hkind]; exact nofun), ← hfields, unicableMessage]
      rw [pinOf] at hpin
      split
      case isTrue hpositive =>
        rw [if_pos hpositive] at hpin
        rw [obey, if_pos ⟨⟨hframing, rfl⟩, rfl⟩, hband, changeBand_self hpin]
      case isFalse hpositive =>
        rw [if_neg hpositive] at hpin
        rw [obey, if_neg hnone, if_pos ⟨⟨hframing, rfl⟩, rfl⟩, hband, changeBand_self hpin]
    rw [unicablePlan.eq_def, hkind]
    rw [hkind] at hmessage
    exact ⟨hmessage _ (Or.inl rfl), hmessage _ (Or.inr rfl)⟩
  · rw [if_pos hkind] at hrange
    obtain ⟨hband, hfields⟩ := @scr2Band_jess p.satNumber p.switchNo p.polVR p.hiLo
      (jessWord p.frequency) hlow hrange.1 hrange.2
    have hmessage : obey pins c (jessMessage p.satNumber p.switchNo p.pinNo p.polVR p.hiLo
        (jessWord p.frequency)) = setBand p.switchType p.switchNo.toNat (wantedBand m p) c := by
      rw [setBand, if_pos hkind, wantedBand, if_pos hkind, ← hfields, jessMessage]
      rw [pinOf] at hpin
      split
      case isTrue hpositive =>
        rw [if_pos hpositive] at hpin
        rw [obey, if_pos rfl, hband, changeBand_self hpin]
      case isFalse hpositive =>
        rw [if_neg hpositive] at hpin
        rw [obey, if_pos rfl, hband, changeBand_self hpin]
    rw [unicablePlan.eq_def, hkind]
    rw [hkind] at hmessage
    exact ⟨hmessage, hmessage⟩

/-- Only the one user band has been changed, if any, and only to what is asked for. -/
structure Undisturbed (p : TuneParameters) (m : Machine) (c₀ c : Chain) : Prop where
  others : ∀ i, i ≠ p.switchNo.toNat → bands p.switchType c i = bands p.switchType c₀ i
  otherKind : otherBands p.switchType c = otherBands p.switchType c₀
  own : bands p.switchType c p.switchNo.toNat = bands p.switchType c₀ p.switchNo.toNat ∨
    bands p.switchType c p.switchNo.toNat = some (wantedBand m p)

theorem setBand_undisturbed (h : Undisturbed p m c₀ c) :
    Undisturbed p m c₀ (setBand p.switchType p.switchNo.toNat (wantedBand m p) c) := by
  have hothers := h.others
  have hkind := h.otherKind
  have hown := h.own
  by_cases htype : p.switchType = .jess
  · refine ⟨fun i hi => ?_, ?_, Or.inr ?_⟩
    · have hrest := hothers i hi
      rw [bands, setBand, if_pos htype, if_pos htype]
      rw [bands, if_pos htype] at hrest
      exact (if_neg hi).trans hrest
    · rw [otherBands, if_pos htype] at hkind
      rw [otherBands, setBand, if_pos htype, if_pos htype]
      exact hkind
    · rw [bands, setBand, if_pos htype, if_pos htype]
      exact if_pos rfl
  · refine ⟨fun i hi => ?_, ?_, Or.inr ?_⟩
    · have hrest := hothers i hi
      rw [bands, setBand, if_neg htype, if_neg htype]
      rw [bands, if_neg htype] at hrest
      exact (if_neg hi).trans hrest
    · rw [otherBands, if_neg htype] at hkind
      rw [otherBands, setBand, if_neg htype, if_neg htype]
      exact hkind
    · rw [bands, setBand, if_neg htype, if_neg htype]
      exact if_pos rfl

/-- What a successful transmission leaves. -/
structure Chosen (p : TuneParameters) (m : Machine) (c : Chain) : Prop where
  band : bands p.switchType c p.switchNo.toNat = some (wantedBand m p)
  voltage : c.voltage = .v13
  tone : c.tone = false

theorem unicableSendMsg_leaves {msg : List UInt8}
    (hobey : ∀ c, obey pins c msg = setBand p.switchType p.switchNo.toNat (wantedBand m p) c) :
    Leaves (respond pins) (Undisturbed p m c₀) (unicableSendMsg [msg])
      (fun c => Undisturbed p m c₀ c ∧ Chosen p m c) (Undisturbed p m c₀) := by
  refine leaves_perform ?_ ?_ (fun _ h => h) ?_
  · intro step hstep
    simp only [List.map_cons, List.map_nil, List.mem_append, List.mem_cons, List.not_mem_nil,
      or_false] at hstep
    rcases hstep with (rfl | rfl | rfl) | rfl
    · exact mustBeZero_sound _
    · exact mustBeZero_sound _
    · exact mustBeZero_sound _
    · exact mustNotFail_sound _
  · intro step hstep c hc
    simp only [List.map_cons, List.map_nil, List.mem_append, List.mem_cons, List.not_mem_nil,
      or_false] at hstep
    rcases hstep with (rfl | rfl | rfl) | rfl
    · exact ⟨hc.1, hc.2, hc.3⟩
    · exact ⟨hc.1, hc.2, hc.3⟩
    · rw [mustBeZero, respond, hobey]
      exact setBand_undisturbed hc
    · exact ⟨hc.1, hc.2, hc.3⟩
  · intro c hc
    have hset := @setBand_undisturbed m p { c with tone := false, voltage := .v18 } c₀
      ⟨hc.1, hc.2, hc.3⟩
    show Undisturbed p m c₀ { obey pins { c with tone := false, voltage := .v18 } msg with
      voltage := .v13 } ∧ Chosen p m
        { obey pins { c with tone := false, voltage := .v18 } msg with voltage := .v13 }
    rw [hobey]
    refine ⟨⟨hset.1, hset.2, hset.3⟩, ?_, rfl, ?_⟩
    · rw [bands, setBand]
      split
      · exact if_pos rfl
      · exact if_pos rfl
    · rw [setBand]
      split <;> rfl

theorem unicable_leaves (hkind : p.switchType = .unicable ∨ p.switchType = .jess)
    (haddressable : Addressable p) (hpin : pins p.switchNo.toNat = pinOf p.pinNo) :
    Leaves (respond pins) (Undisturbed p m c₀) (fun line => (p.unicable m line).1)
      (fun c => Undisturbed p m c₀ c ∧ Chosen p m c) (Undisturbed p m c₀) ∧
    ∀ line, (p.unicable m line).1.1 = 0 → (p.unicable m line).2 = (p.plan m).2.2 := by
  have hplan := listen_plan (m := m) hkind haddressable hpin
  refine ⟨fun s line hline => ?_, fun line hzero => ?_⟩
  · dsimp only
    rw [TuneParameters.unicable, doUnicable]
    by_cases hgranted : m.granted line.calls.length = false
    · rw [if_pos hgranted]
      exact ⟨fun h => absurd (show (-1 : Int) = 0 from h) (by decide), fun _ => hline⟩
    · rw [if_neg hgranted]
      have hfirst := @unicableSendMsg_leaves pins m p c₀ _ fun c => (hplan c).1
      have hsecond := @unicableSendMsg_leaves pins m p c₀ _ fun c => (hplan c).2
      cases hrepeat : p.diseqcRepeat with
      | false => exact hfirst s line hline
      | true =>
        exact (hfirst.again (hsecond.consequence (fun _ h => h.1) (fun _ h => h) fun _ h => h)
          hsecond) s line hline
  · rw [TuneParameters.unicable, doUnicable] at hzero ⊢
    split at hzero
    · exact absurd (show (-1 : Int) = 0 from hzero) (by decide)
    case isFalse hgranted =>
      rw [if_neg hgranted]
      rfl

/-- A call, from any state that the calls before may have left. -/
theorem tuneLine_converter (huni : 0 < p.uniFreq)
    (hkind : p.switchType = .unicable ∨ p.switchType = .jess) (haddressable : Addressable p)
    (hpin : pins p.switchNo.toNat = pinOf p.pinNo) :
    Leaves (respond pins) (Undisturbed p m c₀) (tuneLine m p)
      (fun c => (Undisturbed p m c₀ c ∧ Chosen p m c) ∧ c.tuned = some (p.plan m).2.2)
      (Undisturbed p m c₀) ∧
    ∀ line, (tuneIt m p line).2.1 = p := by
  obtain ⟨hsend, hfrequency⟩ := @unicable_leaves pins m p c₀ hkind haddressable hpin
  have heq : tuneLine m p = fun line => if (p.unicable m line).1.1 = 0
      then setFrontend p (p.plan m).2.2 (p.unicable m line).1.2
      else (-1, (p.unicable m line).1.2) := by
    funext line
    rw [tuneLine, tuneIt, if_pos huni]
    dsimp only
    split
    case isTrue hzero => rw [hfrequency line hzero]
    · rfl
  refine ⟨?_, fun line => ?_⟩
  · rw [heq]
    exact hsend.andThen (setFrontend_leaves (fun c h => ⟨h.1, h.2, h.3⟩) fun c h => ⟨h.1, h.2, h.3⟩)
  · rw [tuneIt, if_pos huni]
    dsimp only
    split <;> rfl

/-- From the first call on, the converter keeps what it does for others, and after a call that
succeeds the user band is what the parameters ask for. -/
theorem tunes_converter (huni : 0 < p.uniFreq)
    (hkind : p.switchType = .unicable ∨ p.switchType = .jess) (haddressable : Addressable p)
    (hpin : pins p.switchNo.toNat = pinOf p.pinNo) (hfresh : line.calls = []) (n : Nat) :
    let last := tunes m n (tuneIt m p line)
    Undisturbed p m c (after (respond pins) c last.2.2.calls) ∧
    (last.1 = 0 → Chosen p m (after (respond pins) c last.2.2.calls) ∧
      (after (respond pins) c last.2.2.calls).tuned = some (p.plan m).2.2) := by
  obtain ⟨hleaves, hparameters⟩ := @tuneLine_converter pins m p c huni hkind haddressable hpin
  have hcall : ∀ line : Line Request, Undisturbed p m c (after (respond pins) c line.calls) →
      (tuneIt m p line).2.1 = p ∧
      Undisturbed p m c (after (respond pins) c (tuneIt m p line).2.2.calls) ∧
      ((tuneIt m p line).1 = 0 → Chosen p m (after (respond pins) c (tuneIt m p line).2.2.calls) ∧
        (after (respond pins) c (tuneIt m p line).2.2.calls).tuned = some (p.plan m).2.2) := by
    intro line hline
    obtain ⟨hgood, hbad⟩ := hleaves c line hline
    refine ⟨hparameters line, ?_, fun hzero => ⟨(hgood hzero).1.2, (hgood hzero).2⟩⟩
    by_cases hzero : (tuneIt m p line).1 = 0
    · exact (hgood hzero).1.1
    · exact hbad hzero
  have hrun : ∀ n (last : Int × TuneParameters × Line Request), last.2.1 = p →
      Undisturbed p m c (after (respond pins) c last.2.2.calls) →
      (last.1 = 0 → Chosen p m (after (respond pins) c last.2.2.calls) ∧
        (after (respond pins) c last.2.2.calls).tuned = some (p.plan m).2.2) →
      Undisturbed p m c (after (respond pins) c (tunes m n last).2.2.calls) ∧
      ((tunes m n last).1 = 0 → Chosen p m (after (respond pins) c (tunes m n last).2.2.calls) ∧
        (after (respond pins) c (tunes m n last).2.2.calls).tuned = some (p.plan m).2.2) := by
    intro n
    induction n with
    | zero => exact fun last _ hkept hgood => ⟨hkept, hgood⟩
    | succ n ih =>
      intro last hlast hkept _
      obtain ⟨hp, hkept', hgood⟩ := hcall last.2.2 hkept
      rw [tunes, hlast]
      exact ih _ hp hkept' hgood
  obtain ⟨hp, hkept, hgood⟩ := hcall line (by rw [hfresh]; exact ⟨fun _ _ => rfl, rfl, Or.inl rfl⟩)
  exact hrun n _ hp hkept hgood

/-- Where a converter puts what arrives at a frequency, in kHz: the first kind turns the band
around, the second moves it. -/
def placed (p : TuneParameters) (band : UserBand) (f : Nat) : Int :=
  if p.switchType = .jess then p.uniFreq * 1000 + (f - (band.word + 100) * 1000)
  else 4000 * (band.word + 350) - f

/-- The frequencies are such that no number leaves its type. -/
def Convertible (p : TuneParameters) : Prop :=
  if p.switchType = .jess then
    100 ≤ p.frequency / 1000 ∧ p.frequency / 1000 < 65636 ∧ p.uniFreq < 4294967
  else 1400 ≤ p.frequency / 1000 + p.uniFreq + 2 ∧ p.frequency / 1000 + p.uniFreq + 2 < 263544

/-- The word has a place in the message. -/
def InReach (p : TuneParameters) : Prop :=
  if p.switchType = .jess then p.frequency / 1000 < 2148
  else p.frequency / 1000 + p.uniFreq + 2 < 5496

/-- The front end is tuned to where the converter puts the transponder, up to what is below a MHz,
exactly when the word fits. -/
theorem placed_iff (huni : 0 < p.uniFreq)
    (hkind : p.switchType = .unicable ∨ p.switchType = .jess) (hconvertible : Convertible p) :
    |placed p (wantedBand m p) p.frequency - ((p.plan m).2.2 : Int)| < 1000 ↔ InReach p := by
  rw [abs_lt]
  rcases hkind with hkind | hkind
  · have hjess : ¬ p.switchType = .jess := by rw [hkind]; exact nofun
    rw [Convertible, if_neg hjess] at hconvertible
    have hword := @unicableWord_eq m p.frequency p.uniFreq hconvertible.1 hconvertible.2
    have hplan : (p.plan m).2.2 = ((unicableWord m p.frequency p.uniFreq).toNat + 350) * 4 * 1000 -
        p.frequency / 1000 * 1000 := by
      rw [TuneParameters.plan, hkind]
      show (((unicableWord m p.frequency p.uniFreq).toNat + 350) * 4 +
        (2 ^ 32 - p.frequency / 1000)) % 2 ^ 32 * 1000 % 2 ^ 32 = _
      omega
    rw [placed, if_neg hjess, wantedBand, if_neg hjess, InReach, if_neg hjess, hplan]
    dsimp only
    omega
  · rw [Convertible, if_pos hkind] at hconvertible
    have hword : (jessWord p.frequency).toNat = p.frequency / 1000 - 100 :=
      jessWord_eq hconvertible.1 hconvertible.2.1
    have hplan : (p.plan m).2.2 = p.uniFreq * 1000 := by
      rw [TuneParameters.plan, hkind]
      show p.uniFreq * 1000 % 2 ^ 32 = _
      omega
    rw [placed, if_pos hkind, wantedBand, if_pos hkind, InReach, if_pos hkind, hplan]
    dsimp only
    omega

/-- The position of a converter that the number of the satellite stands for. -/
def positionOf (p : TuneParameters) : Nat :=
  if p.switchType = .jess then p.satNumber.toNat - 1 else if p.satNumber = 1 then 0 else 1

/-- The same transponder on the third user band of a converter, with a PIN. -/
def thirdBand : TuneParameters :=
  { twoSwitches with switchType := .unicable, switchNo := 2, pinNo := 7, uniFreq := 1680 }

end converters

end MuMuDVB.ConverterTuning
