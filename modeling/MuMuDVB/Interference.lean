import MuMuDVB.CallEffects
import MuMuDVB.MainLoop

/-!
# What the channels see of each other

The rewriters of the PAT and the SDT overwrite the packet that the next
channels get, and the rewritten PMT goes through one buffer for all. The output
for a channel is independent of the other channels exactly when it uses neither
the packet after such an overwriting nor that buffer.
-/
namespace MuMuDVB.Interference

open CheckedMemory SharedLoop MuMuDVB.TsHeader MuMuDVB.Ts MuMuDVB.Channel
open MuMuDVB.RewriteSection MuMuDVB.RewritePat MuMuDVB.RewriteSdt MuMuDVB.RewritePmt
open MuMuDVB.RewriteEit MuMuDVB.PmtRuns MuMuDVB.SdtRuns MuMuDVB.CallEffects MuMuDVB.MainLoop

section channel

variable (p : LoopParameters) (vars : RewriteParameters) (channel : MumudvbChannel)

/-- The PAT or the SDT rewriter is called for the channel. -/
def Called : Prop :=
  (p.pid = 0 ∧ vars.rewritePat = .on) ∨
    (p.pid = 17 ∧ vars.rewriteSdt = .on ∧ channel.sdtRewriteSkip = false)

/-- Calls of these rewriters can overwrite the packet. -/
def Overwrites : Prop :=
  (p.pid = 0 ∧ vars.rewritePat = .on ∧ vars.fullPatOk = true) ∨
    (p.pid = 17 ∧ vars.rewriteSdt = .on ∧ vars.fullSdtOk = true)

/-- The call sends the packet. -/
def Sends : Prop := if p.pid = 0 then PatSends vars channel else SdtSends vars channel

/-- The call makes the packet anew, behind the header of the packet that it finds. -/
def Makes : Prop := if p.pid = 0 then PatRebuilds vars channel else SdtRebuilds vars channel

/-- The packet that the channel has. -/
def own : Packet :=
  if p.pid = 0 then setCounter channel.generatedPat vars.patContinuityCounter
  else setCounter channel.generatedSdt vars.sdtContinuityCounter

/-- What is read on the PID goes to the output of the channel. -/
structure Passes : Prop where
  ready : channel.channelReady.isReady = true
  pid : sendsPid p channel = true
  sends : Called p vars channel → Sends p vars channel
  notEit : ¬ IsEitPacket p vars channel
  psi : psiPasses p

/-- The output for the channel uses the buffer of the rewritten PMT, or the packet after the
channels before it may have overwritten it. -/
def Exposed (packet : Packet) : Prop :=
  Passes p vars channel ∧
    ((IsPmtPacket p vars channel ∧
      (channel.pmtPid = 0 ∨ CompletesPmt (memoryOf p packet) channel ∨ Overwrites p vars)) ∨
    (¬ IsPmtPacket p vars channel ∧ Overwrites p vars ∧
      (Called p vars channel → Makes p vars channel)))

end channel

/-- The loop starts with the packet and the stored tables; the buffer of the PMT is free. -/
def Starts (packet : Packet) (vars : RewriteParameters) (s : Shared) : Prop :=
  s.actualTsPacket = packet ∧ s.vars = vars

variable {p : LoopParameters} {s s' t t' : Shared} {vars vars' : RewriteParameters}
  {channel channel' b b' : MumudvbChannel} {packet : Packet} {out out' : List Packet} {sent : Bool}

section drift

theorem drift_called (h : Drift vars vars') : Called p vars' channel ↔ Called p vars channel :=
  iff_of_eq (h.unread (Called p · channel) fun _ _ _ _ => rfl)

theorem drift_overwrites (h : Drift vars vars') : Overwrites p vars' ↔ Overwrites p vars :=
  iff_of_eq (h.unread (Overwrites p ·) fun _ _ _ _ => rfl)

theorem drift_isPmtPacket (h : Drift vars vars') :
    IsPmtPacket p vars' channel ↔ IsPmtPacket p vars channel :=
  iff_of_eq (h.unread (IsPmtPacket p · channel) fun _ _ _ _ => rfl)

theorem drift_isEitPacket (h : Drift vars vars') :
    IsEitPacket p vars' channel ↔ IsEitPacket p vars channel :=
  iff_of_eq (h.unread (IsEitPacket p · channel) fun _ _ _ _ => rfl)

theorem drift_own (h : Drift vars vars') : own p vars' channel = own p vars channel :=
  h.unread (own p · channel) fun _ _ _ _ => rfl

theorem drift_patSends (h : Drift vars vars') : PatSends vars' channel ↔ PatSends vars channel :=
  iff_of_eq (h.unread (PatSends · channel) fun _ _ _ _ => rfl)

theorem drift_patRebuilds (h : Drift vars vars') :
    PatRebuilds vars' channel ↔ PatRebuilds vars channel :=
  iff_of_eq (h.unread (PatRebuilds · channel) fun _ _ _ _ => rfl)

theorem drift_sends (h : Drift vars vars') : Sends p vars' channel ↔ Sends p vars channel := by
  unfold Sends
  split
  · exact drift_patSends h
  · exact h.sdtSends

theorem drift_makes (h : Drift vars vars') : Makes p vars' channel ↔ Makes p vars channel := by
  unfold Makes
  split
  · exact drift_patRebuilds h
  · rw [SdtRebuilds, SdtRebuilds, h.rebuilds, h.announced]

theorem drift_passes (h : Drift vars vars') : Passes p vars' channel ↔ Passes p vars channel := by
  constructor <;> rintro ⟨hready, hpid, hsends, heit, hpsi⟩
  · exact ⟨hready, hpid, fun hc => (drift_sends h).mp (hsends ((drift_called h).mpr hc)),
      fun he => heit ((drift_isEitPacket h).mpr he), hpsi⟩
  · exact ⟨hready, hpid, fun hc => (drift_sends h).mpr (hsends ((drift_called h).mp hc)),
      fun he => heit ((drift_isEitPacket h).mp he), hpsi⟩

end drift

section step

/-- The branch of the PMT leaves the packet and the tables. -/
theorem pmtBranch_cases (hready : channel.channelReady.isReady = true)
    (h : pmtBranch p s channel = .ok (sent, t, b)) :
    (¬ (IsPmtPacket p s.vars channel ∧ channel.pmtPid ≠ 0) ∧ sent = true ∧ t = s ∧ b = channel) ∨
    (IsPmtPacket p s.vars channel ∧ channel.pmtPid ≠ 0 ∧ SameButPmt channel b ∧
      ∃ after, t = { s with pmtTsPacket := after } ∧
        pmtRewriteNewChannelPacket (memoryOf p s.actualTsPacket) s.pmtTsPacket channel =
          .ok (sent, after, b)) := by
  rw [pmtBranch] at h
  split at h
  case isTrue hpmt =>
    rw [bind_eq_ok] at h
    obtain ⟨⟨sent, after, b⟩, hcall, h⟩ := h
    cases h
    exact .inr ⟨hpmt.1, hpmt.2, (pmtRewriteNewChannelPacket_buffer hready hcall).1, _, rfl, hcall⟩
  case isFalse hpmt =>
    cases h
    exact .inl ⟨hpmt, rfl, rfl, rfl⟩

/-- The branches of the PAT and the SDT, without the buffer of the PMT. -/
def tableCall (p : LoopParameters) (vars : RewriteParameters) (channel : MumudvbChannel)
    (buf : Packet) : Checked (Bool × RewriteState) :=
  if p.pid = 0 ∧ vars.rewritePat = .on then patRewriteNewChannelPacket vars channel buf
  else if p.pid = 17 ∧ vars.rewriteSdt = .on ∧ channel.sdtRewriteSkip = false then
    sdtRewriteNewChannelPacket vars channel buf
  else .ok (true, ⟨vars, channel, buf⟩)

theorem afterPmt_eq (p : LoopParameters) (s : Shared) (channel : MumudvbChannel) :
    afterPmt p s channel = tableCall p s.vars channel s.actualTsPacket >>= fun r =>
      if r.1 then sendBranch p ⟨r.2.buf, s.pmtTsPacket, r.2.vars⟩ r.2.channel
      else .ok ([], ⟨r.2.buf, s.pmtTsPacket, r.2.vars⟩, r.2.channel) := by
  rw [afterPmt, patBranch, tableCall]
  split
  case isTrue hpid =>
    have hsdt : ∀ s channel, sdtBranch p s channel = .ok (true, s, channel) := by
      intro s channel
      rw [sdtBranch, if_neg (by rw [hpid.1]; simp)]
    cases patRewriteNewChannelPacket s.vars channel s.actualTsPacket with
    | error e => rfl
    | ok r =>
      simp only [bind_ok, pure_ok, hsdt, if_true]
  case isFalse hpid =>
    simp only [bind_ok, if_true, sdtBranch]
    split
    · cases sdtRewriteNewChannelPacket s.vars channel s.actualTsPacket <;> rfl
    · rfl

theorem tableCall_cases {buf : Packet} {st : RewriteState}
    (hready : channel.channelReady.isReady = true)
    (h : tableCall p vars channel buf = .ok (sent, st)) :
    (¬ Called p vars channel ∧ sent = true ∧ st = ⟨vars, channel, buf⟩) ∨
    (Called p vars channel ∧ Call (if p.pid = 0 then vars.fullPatOk else vars.fullSdtOk)
      (Sends p vars channel) (Makes p vars channel) (own p vars channel) vars channel buf sent
      st) := by
  rw [tableCall] at h
  rw [Sends, Makes, own]
  split at h
  case isTrue hpid =>
    rw [if_pos hpid.1, if_pos hpid.1, if_pos hpid.1, if_pos hpid.1]
    exact .inr ⟨.inl hpid, patCall hready h⟩
  case isFalse hpid =>
    split at h
    case isTrue hpid' =>
      have hzero : p.pid ≠ 0 := by omega
      rw [if_neg hzero, if_neg hzero, if_neg hzero, if_neg hzero]
      exact .inr ⟨.inr hpid', sdtCall h⟩
    case isFalse hpid' =>
      cases h
      exact .inl ⟨fun hc => hc.elim hpid hpid', rfl, rfl⟩

theorem tableCall_frame {buf : Packet} {st : RewriteState}
    (hready : channel.channelReady.isReady = true)
    (h : tableCall p vars channel buf = .ok (sent, st)) :
    Drift vars st.vars ∧ SameSettings channel st.channel ∧
      (¬ Overwrites p vars → st.buf = buf ∧ st.vars = vars) := by
  obtain ⟨-, -, rfl⟩ | ⟨hcalled, hcall⟩ := tableCall_cases hready h
  · exact ⟨Drift.refl _, SameSettings.refl _, fun _ => ⟨rfl, rfl⟩⟩
  · refine ⟨hcall.drift, hcall.settings, fun hquiet => ?_⟩
    have hnone : (if p.pid = 0 then vars.fullPatOk else vars.fullSdtOk) = false := by
      rw [← Bool.not_eq_true]
      intro hok
      rcases hcalled with ⟨hpid, hon⟩ | ⟨hpid, hon, -⟩
      · exact hquiet (.inl ⟨hpid, hon, by rwa [if_pos hpid] at hok⟩)
      · exact hquiet (.inr ⟨hpid, hon, by rwa [if_neg (by omega)] at hok⟩)
    exact ⟨(hcall.quiet hnone).2, (hcall.quiet hnone).1⟩

theorem sendBranch_shared (h : sendBranch p s channel = .ok (out, t, b)) : t = s := by
  rw [sendBranch] at h
  split at h
  · rw [bind_eq_ok] at h
    obtain ⟨r, -, h⟩ := h
    cases h
    rfl
  · split at h
    · split at h <;> cases h <;> rfl
    · cases h
      rfl

/-- What a step does, for a channel that gets the PID. -/
theorem channelStep_cases (h : channelStep p s channel = .ok (out, t, b)) :
    (¬ (channel.channelReady.isReady = true ∧ sendsPid p channel = true) ∧ out = [] ∧ t = s) ∨
    (channel.channelReady.isReady = true ∧ sendsPid p channel = true ∧
      ∃ sent s₁ channel₁, pmtBranch p s channel = .ok (sent, s₁, channel₁) ∧
        ((sent = false ∧ out = [] ∧ t = s₁) ∨
        (sent = true ∧ ∃ sent₂ st, tableCall p s₁.vars channel₁ s₁.actualTsPacket = .ok (sent₂, st) ∧
          t = ⟨st.buf, s₁.pmtTsPacket, st.vars⟩ ∧ ((sent₂ = false ∧ out = []) ∨
          (sent₂ = true ∧ sendBranch p t st.channel = .ok (out, t, b)))))) := by
  rw [channelStep] at h
  split at h
  case isFalse hgets =>
    cases h
    exact .inl ⟨hgets, rfl, rfl⟩
  case isTrue hgets =>
    rw [bind_eq_ok] at h
    obtain ⟨⟨sent, s₁, channel₁⟩, hpmt, h⟩ := h
    refine .inr ⟨hgets.1, hgets.2, sent, s₁, channel₁, hpmt, ?_⟩
    cases sent with
    | false =>
      cases h
      exact .inl ⟨rfl, rfl, rfl⟩
    | true =>
      dsimp only at h
      rw [if_pos rfl, afterPmt_eq, bind_eq_ok] at h
      obtain ⟨⟨sent₂, st⟩, hcall, h⟩ := h
      cases sent₂ with
      | false =>
        cases h
        exact .inr ⟨rfl, false, st, hcall, rfl, .inl ⟨rfl, rfl⟩⟩
      | true =>
        dsimp only at h
        rw [if_pos rfl] at h
        have ht := sendBranch_shared h
        exact .inr ⟨rfl, true, st, hcall, ht, .inr ⟨rfl, ht ▸ h⟩⟩

/-- What the channels after this one find. -/
theorem channelStep_shared (h : channelStep p s channel = .ok (out, t, b)) :
    Drift s.vars t.vars ∧ (¬ Overwrites p s.vars → t.actualTsPacket = s.actualTsPacket ∧
      t.vars = s.vars) := by
  obtain ⟨-, -, rfl⟩ | ⟨hready, -, sent, s₁, channel₁, hpmt, h⟩ := channelStep_cases h
  · exact ⟨Drift.refl _, fun _ => ⟨rfl, rfl⟩⟩
  · have hs₁ : s₁.actualTsPacket = s.actualTsPacket ∧ s₁.vars = s.vars ∧
        channel₁.channelReady.isReady = true := by
      obtain ⟨-, -, rfl, rfl⟩ | ⟨-, -, hsame, after, rfl, -⟩ := pmtBranch_cases hready hpmt
      · exact ⟨rfl, rfl, hready⟩
      · exact ⟨rfl, rfl, hsame.ready ▸ hready⟩
    rw [← hs₁.1, ← hs₁.2.1]
    obtain ⟨-, -, rfl⟩ | ⟨-, sent₂, st, hcall, rfl, -⟩ := h
    · exact ⟨Drift.refl _, fun _ => ⟨rfl, rfl⟩⟩
    · obtain ⟨hdrift, -, hkept⟩ := tableCall_frame hs₁.2.2 hcall
      exact ⟨hdrift, hkept⟩

/-- Whatever the channels before it do, a channel finds the tables but for what does not matter,
and the packet itself unless it can be overwritten. -/
theorem meets_shared (h : Meets (channelStep p) (Starts packet vars) s) :
    Drift vars s.vars ∧ (¬ Overwrites p vars → s.actualTsPacket = packet ∧ s.vars = vars) := by
  refine h.invariant (P := fun s => Drift vars s.vars ∧
    (¬ Overwrites p vars → s.actualTsPacket = packet ∧ s.vars = vars)) ?_ ?_
  · rintro s ⟨hpacket, rfl⟩
    exact ⟨Drift.refl _, fun _ => ⟨hpacket, rfl⟩⟩
  · rintro s channel out t b ⟨hdrift, hkept⟩ hcall
    obtain ⟨hdrift', hkept'⟩ := channelStep_shared hcall
    refine ⟨hdrift.trans hdrift', fun hquiet => ?_⟩
    obtain ⟨hpacket, hvars⟩ := hkept' (fun h => hquiet ((drift_overwrites hdrift).mp h))
    exact ⟨hpacket.trans (hkept hquiet).1, hvars.trans (hkept hquiet).2⟩

theorem sendBranch_cases (h : sendBranch p s channel = .ok (out, t, b)) :
    IsEitPacket p s.vars channel ∨
    (¬ IsEitPacket p s.vars channel ∧ ((¬ psiPasses p ∧ out = []) ∨ (psiPasses p ∧
      out = bufferFunc p channel
        (if IsPmtPacket p s.vars channel then s.pmtTsPacket else s.actualTsPacket)))) := by
  rw [sendBranch] at h
  split at h
  case isTrue heit => exact .inl heit
  case isFalse heit =>
    refine .inr ⟨heit, ?_⟩
    split at h
    case isTrue hpsi =>
      refine .inr ⟨hpsi, ?_⟩
      split at h
      case isTrue hpmt =>
        cases h
        rw [if_pos hpmt]
      case isFalse hpmt =>
        cases h
        rw [if_neg hpmt]
    case isFalse hpsi =>
      cases h
      exact .inl ⟨hpsi, rfl⟩

end step

section settings

theorem same_isPmtPacket (h : SameSettings channel channel') :
    IsPmtPacket p vars channel' ↔ IsPmtPacket p vars channel := by
  rw [IsPmtPacket, IsPmtPacket, h.pmtPid, h.pmtRewrite]

theorem same_isEitPacket (h : SameSettings channel channel') :
    IsEitPacket p vars channel' ↔ IsEitPacket p vars channel := by
  rw [IsEitPacket, IsEitPacket, h.serviceId]

theorem same_called (h : SameButPmt channel channel') :
    Called p vars channel' ↔ Called p vars channel := by
  rw [Called, Called, h.skip]

theorem same_rebuilds (h : SameButPmt channel channel') :
    Rebuilds vars channel' ↔ Rebuilds vars channel := by
  constructor <;> rintro ⟨hok, hcurrent, hready, houtdated, hid, ht⟩
  · exact ⟨hok, hcurrent, h.ready ▸ hready, h.generatedSdtVersion ▸ houtdated, h.serviceId ▸ hid, ht⟩
  · exact ⟨hok, hcurrent, h.ready.symm ▸ hready, h.generatedSdtVersion.symm ▸ houtdated,
      h.serviceId.symm ▸ hid, ht⟩

/-- The PMT has no PID of its own when it has that of the PAT. -/
theorem same_sends (hpid : p.pid ≠ 0) (h : SameButPmt channel channel') :
    Sends p vars channel' ↔ Sends p vars channel := by
  rw [Sends, Sends, if_neg hpid, if_neg hpid, SdtSends, SdtSends, same_rebuilds h, Announced,
    Announced, h.serviceId, h.generatedSdtVersion]

end settings

section output

theorem tableCall_sent {buf : Packet} {st : RewriteState}
    (hready : channel.channelReady.isReady = true)
    (h : tableCall p vars channel buf = .ok (sent, st)) :
    sent = true ↔ (Called p vars channel → Sends p vars channel) := by
  obtain ⟨hnot, rfl, -⟩ | ⟨hcalled, hcall⟩ := tableCall_cases hready h
  · exact ⟨fun _ h => absurd h hnot, fun _ => rfl⟩
  · rw [hcall.sends]
    exact ⟨fun h _ => h, fun h => h hcalled⟩

/-- After the branch of the PMT, the rest of the body goes as before it. -/
theorem pmtBranch_same (hready : channel.channelReady.isReady = true)
    (h : pmtBranch p s channel = .ok (sent, t, b)) :
    SameButPmt channel b ∧ t.actualTsPacket = s.actualTsPacket ∧ t.vars = s.vars ∧
      (Sends p s.vars b ↔ Sends p s.vars channel) := by
  obtain ⟨-, -, rfl, rfl⟩ | ⟨hpmt, hnonzero, hsame, after, rfl, -⟩ := pmtBranch_cases hready h
  · exact ⟨SameButPmt.refl _, rfl, rfl, Iff.rfl⟩
  · have hpid : p.pid ≠ 0 := fun hpid => hnonzero (by rw [← hpmt.1, hpid]; rfl)
    exact ⟨hsame, rfl, rfl, same_sends hpid hsame⟩

theorem channelStep_silent (hnot : ¬ Passes p s.vars channel)
    (heit : ¬ IsEitPacket p s.vars channel) (h : channelStep p s channel = .ok (out, t, b)) :
    out = [] := by
  obtain ⟨-, hout, -⟩ | ⟨hready, hpid, sent, s₁, channel₁, hpmt, h⟩ := channelStep_cases h
  · exact hout
  · obtain ⟨hsame, hpacket, hvars, hsends⟩ := pmtBranch_same hready hpmt
    obtain ⟨-, hout, -⟩ | ⟨-, sent₂, st, hcall, rfl, ⟨-, hout⟩ | ⟨rfl, hsend⟩⟩ := h
    · exact hout
    · exact hout
    · have hready₁ : channel₁.channelReady.isReady = true := hsame.ready ▸ hready
      have hsent := (tableCall_sent hready₁ hcall).mp rfl
      obtain ⟨hdrift, hsettings, -⟩ := tableCall_frame hready₁ hcall
      rw [hvars] at hsent hdrift
      rw [hsends, same_called hsame] at hsent
      have heit₁ : ¬ IsEitPacket p st.vars st.channel := by
        rw [drift_isEitPacket hdrift, same_isEitPacket hsettings,
          same_isEitPacket hsame.toSameSettings]
        exact heit
      obtain heit' | ⟨-, ⟨-, hout⟩ | ⟨hpsi, -⟩⟩ := sendBranch_cases hsend
      · exact absurd heit' heit₁
      · exact hout
      · exact absurd ⟨hready, hpid, hsent, heit, hpsi⟩ hnot

theorem channelStep_passes (hpass : Passes p s.vars channel)
    (h : channelStep p s channel = .ok (out, t, b)) :
    ∃ sent s₁ channel₁, pmtBranch p s channel = .ok (sent, s₁, channel₁) ∧
      ((sent = false ∧ out = []) ∨
      (sent = true ∧ ∃ st, tableCall p s.vars channel₁ s.actualTsPacket = .ok (true, st) ∧
        out = bufferFunc p channel
          (if IsPmtPacket p s.vars channel then s₁.pmtTsPacket else st.buf))) := by
  obtain ⟨hnot, -⟩ | ⟨hready, -, sent, s₁, channel₁, hpmt, h⟩ := channelStep_cases h
  · exact absurd ⟨hpass.ready, hpass.pid⟩ hnot
  · obtain ⟨hsame, hpacket, hvars, hsends⟩ := pmtBranch_same hready hpmt
    refine ⟨sent, s₁, channel₁, hpmt, ?_⟩
    obtain ⟨hsent, hout, -⟩ | ⟨hsent, sent₂, st, hcall, rfl, h⟩ := h
    · exact .inl ⟨hsent, hout⟩
    · have hready₁ : channel₁.channelReady.isReady = true := hsame.ready ▸ hready
      have hsent₂ : sent₂ = true := (tableCall_sent hready₁ hcall).mpr (by
        rw [hvars, hsends, same_called hsame]
        exact hpass.sends)
      obtain ⟨hdrift, hsettings, -⟩ := tableCall_frame hready₁ hcall
      rw [hpacket, hvars, hsent₂] at hcall
      rw [hvars] at hdrift
      obtain ⟨hnot, -⟩ | ⟨-, hsend⟩ := h
      · rw [hsent₂] at hnot
        cases hnot
      · refine .inr ⟨hsent, st, hcall, ?_⟩
        obtain heit | ⟨-, ⟨hpsi, -⟩ | ⟨-, hout⟩⟩ := sendBranch_cases hsend
        · rw [drift_isEitPacket hdrift, same_isEitPacket hsettings,
            same_isEitPacket hsame.toSameSettings] at heit
          exact absurd heit hpass.notEit
        · exact absurd hpass.psi hpsi
        · rw [hout, bufferFunc_same hsettings, bufferFunc_same hsame.toSameSettings]
          simp only [drift_isPmtPacket hdrift, same_isPmtPacket hsettings,
            same_isPmtPacket hsame.toSameSettings]

/-- A step that calls the rewriters and sends. -/
theorem channelStep_sends {channel₁ : MumudvbChannel} {st : RewriteState}
    (hpass : Passes p s.vars channel) (hpmt : pmtBranch p s channel = .ok (true, t, channel₁))
    (hcall : tableCall p s.vars channel₁ s.actualTsPacket = .ok (sent, st)) :
    ∃ u b, channelStep p s channel = .ok (bufferFunc p channel
      (if IsPmtPacket p s.vars channel then t.pmtTsPacket else st.buf), u, b) := by
  obtain ⟨hsame, hpacket, hvars, hsends⟩ := pmtBranch_same hpass.ready hpmt
  have hready₁ : channel₁.channelReady.isReady = true := hsame.ready ▸ hpass.ready
  have hsent : sent = true := (tableCall_sent hready₁ hcall).mpr (by
    rw [hsends, same_called hsame]
    exact hpass.sends)
  obtain ⟨hdrift, hsettings, -⟩ := tableCall_frame hready₁ hcall
  have heit : ¬ IsEitPacket p st.vars st.channel := by
    rw [drift_isEitPacket hdrift, same_isEitPacket hsettings,
      same_isEitPacket hsame.toSameSettings]
    exact hpass.notEit
  have hsend : sendBranch p ⟨st.buf, t.pmtTsPacket, st.vars⟩ st.channel =
      .ok (bufferFunc p channel (if IsPmtPacket p s.vars channel then t.pmtTsPacket else st.buf),
        ⟨st.buf, t.pmtTsPacket, st.vars⟩, st.channel) := by
    rw [sendBranch, if_neg heit, if_pos hpass.psi]
    simp only [drift_isPmtPacket hdrift, same_isPmtPacket hsettings,
      same_isPmtPacket hsame.toSameSettings, bufferFunc_same hsettings,
      bufferFunc_same hsame.toSameSettings]
    split <;> rfl
  refine ⟨⟨st.buf, t.pmtTsPacket, st.vars⟩, st.channel, ?_⟩
  rw [channelStep, if_pos ⟨hpass.ready, hpass.pid⟩, hpmt, bind_ok]
  dsimp only
  rw [if_pos rfl, afterPmt_eq, hvars, hpacket, hcall, bind_ok, hsent, if_pos rfl, hsend]

end output

section sufficient

/-- A channel that keeps its packet sends it whatever it finds. -/
theorem channelStep_kept (hpass : Passes p s.vars channel)
    (hpmt : ¬ IsPmtPacket p s.vars channel) (hcalled : Called p s.vars channel)
    (hkept : ¬ Makes p s.vars channel) (h : channelStep p s channel = .ok (out, t, b)) :
    out = bufferFunc p channel (own p s.vars channel) := by
  obtain ⟨sent, s₁, channel₁, hbranch, h⟩ := channelStep_passes hpass h
  obtain ⟨-, rfl, rfl, rfl⟩ | ⟨hpmt', -⟩ := pmtBranch_cases hpass.ready hbranch
  · obtain ⟨hsent, -⟩ | ⟨-, st, hcall, hout⟩ := h
    · cases hsent
    · obtain ⟨hnot, -⟩ | ⟨-, hcall⟩ := tableCall_cases hpass.ready hcall
      · exact absurd hcalled hnot
      · rw [hout, if_neg hpmt, hcall.kept hkept rfl]
  · exact absurd hpmt' hpmt

/-- Two branches of the PMT that find the same packet. -/
theorem pmtBranch_two {x y : Packet} {sent' : Bool} (hready : channel.channelReady.isReady = true)
    (h : pmtBranch p ⟨packet, x, vars⟩ channel = .ok (sent, t, b))
    (h' : pmtBranch p ⟨packet, y, vars⟩ channel = .ok (sent', t', b')) :
    sent' = sent ∧ b' = b ∧ (IsPmtPacket p vars channel → channel.pmtPid ≠ 0 →
      ¬ CompletesPmt (memoryOf p packet) channel → sent = true → t'.pmtTsPacket = t.pmtTsPacket) := by
  obtain ⟨hnot, rfl, rfl, rfl⟩ | ⟨hpmt, hnonzero, -, after, rfl, hcall⟩ := pmtBranch_cases hready h
  · obtain ⟨-, rfl, rfl, rfl⟩ | ⟨hpmt, hnonzero, -⟩ := pmtBranch_cases hready h'
    · exact ⟨rfl, rfl, fun hpmt hnonzero => absurd ⟨hpmt, hnonzero⟩ hnot⟩
    · exact absurd ⟨hpmt, hnonzero⟩ hnot
  · obtain ⟨hnot, -⟩ | ⟨-, -, -, after', rfl, hcall'⟩ := pmtBranch_cases hready h'
    · exact absurd ⟨hpmt, hnonzero⟩ hnot
    · obtain ⟨-, ⟨hnew, rfl, hsame⟩ | ⟨-, hsame⟩⟩ := pmtRewriteNewChannelPacket_buffer hready hcall
      · rw [hsame y] at hcall'
        cases hcall'
        exact ⟨rfl, rfl, fun _ _ hold => absurd hnew hold⟩
      · obtain ⟨after'', hcall'', hafter⟩ := hsame y
        rw [hcall''] at hcall'
        cases hcall'
        exact ⟨rfl, rfl, fun _ _ _ hsent => hafter hsent⟩

/-- Two steps that find the same packet differ only by the buffer of the PMT. -/
theorem channelStep_quiet {x y : Packet} (hpass : Passes p vars channel)
    (hown : IsPmtPacket p vars channel →
      channel.pmtPid ≠ 0 ∧ ¬ CompletesPmt (memoryOf p packet) channel)
    (h : channelStep p ⟨packet, x, vars⟩ channel = .ok (out, t, b))
    (h' : channelStep p ⟨packet, y, vars⟩ channel = .ok (out', t', b')) : out = out' := by
  obtain ⟨sent, s₁, channel₁, hbranch, h⟩ := channelStep_passes hpass h
  obtain ⟨sent', s₁', channel₁', hbranch', h'⟩ := channelStep_passes hpass h'
  obtain ⟨rfl, rfl, hbuffer⟩ := pmtBranch_two hpass.ready hbranch hbranch'
  dsimp only at h h'
  obtain ⟨hsent, hout⟩ | ⟨hsent, st, hcall, hout⟩ := h
  · obtain ⟨-, hout'⟩ | ⟨hsent', -⟩ := h'
    · rw [hout, hout']
    · rw [hsent] at hsent'
      cases hsent'
  · obtain ⟨hsent', -⟩ | ⟨-, st', hcall', hout'⟩ := h'
    · rw [hsent] at hsent'
      cases hsent'
    · rw [hcall] at hcall'
      cases hcall'
      rw [hout, hout']
      by_cases hpmt : IsPmtPacket p vars channel
      · rw [if_pos hpmt, if_pos hpmt, hbuffer hpmt (hown hpmt).1 (hown hpmt).2 hsent]
      · rw [if_neg hpmt, if_neg hpmt]

/-- The EIT is made from the stored sections. -/
theorem channelStep_eit {x y : Packet} (heit : IsEitPacket p vars channel)
    (h : channelStep p ⟨packet, x, vars⟩ channel = .ok (out, t, b))
    (h' : channelStep p ⟨packet, y, vars⟩ channel = .ok (out', t', b')) : out = out' := by
  obtain ⟨hnot, hout, -⟩ | ⟨hready, hpid, sent, s₁, channel₁, hbranch, h⟩ := channelStep_cases h
  · obtain ⟨-, hout', -⟩ | ⟨hready, hpid, -⟩ := channelStep_cases h'
    · rw [hout, hout']
    · exact absurd ⟨hready, hpid⟩ hnot
  · obtain ⟨hnot, -⟩ | ⟨-, -, sent', s₁', channel₁', hbranch', h'⟩ := channelStep_cases h'
    · exact absurd ⟨hready, hpid⟩ hnot
    · obtain ⟨rfl, rfl, -⟩ := pmtBranch_two hready hbranch hbranch'
      obtain ⟨hsame, hpacket, hvars, -⟩ := pmtBranch_same hready hbranch
      obtain ⟨-, hpacket', hvars', -⟩ := pmtBranch_same hready hbranch'
      dsimp only at hpacket hvars hpacket' hvars'
      rw [hpacket, hvars] at h
      rw [hpacket', hvars'] at h'
      have hcall : tableCall p vars channel₁' packet = .ok (true, ⟨vars, channel₁', packet⟩) := by
        rw [tableCall, if_neg (by rw [heit.1]; simp), if_neg (by rw [heit.1]; simp)]
      rw [hcall] at h h'
      have heit₁ : IsEitPacket p vars channel₁' :=
        (same_isEitPacket hsame.toSameSettings).mpr heit
      obtain ⟨hsent, hout, -⟩ | ⟨hsent, _, _, h₂, rfl, h⟩ := h
      · obtain ⟨-, hout', -⟩ | ⟨hsent', -⟩ := h'
        · rw [hout, hout']
        · rw [hsent] at hsent'
          cases hsent'
      · obtain ⟨hsent', -⟩ | ⟨-, _, _, h₂', rfl, h'⟩ := h'
        · rw [hsent] at hsent'
          cases hsent'
        · cases h₂
          cases h₂'
          obtain ⟨hfalse, -⟩ | ⟨-, hsend⟩ := h
          · cases hfalse
          · obtain ⟨hfalse, -⟩ | ⟨-, hsend'⟩ := h'
            · cases hfalse
            · rw [sendBranch, if_pos heit₁, bind_eq_ok] at hsend hsend'
              obtain ⟨r, hr, hsend⟩ := hsend
              obtain ⟨r', hr', hsend'⟩ := hsend'
              dsimp only at hr hr'
              rw [hr] at hr'
              cases hr'
              cases hsend
              cases hsend'
              rfl

theorem independent_of_not_exposed (h : ¬ Exposed p vars channel packet) :
    Independent (channelStep p) (Starts packet vars) channel := by
  rw [independent_iff]
  intro s s' out out' t t' b b' hs hs' hcall hcall'
  obtain ⟨hdrift, hquiet⟩ := meets_shared hs
  obtain ⟨hdrift', hquiet'⟩ := meets_shared hs'
  by_cases hpass : Passes p vars channel
  · by_cases hover : Overwrites p vars
    · have hpmt : ¬ IsPmtPacket p vars channel := fun hpmt =>
        h ⟨hpass, .inl ⟨hpmt, .inr (.inr hover)⟩⟩
      have hkept : Called p vars channel ∧ ¬ Makes p vars channel := by
        by_contra hnot
        exact h ⟨hpass, .inr ⟨hpmt, hover, fun hc => by_contra fun hm => hnot ⟨hc, hm⟩⟩⟩
      have hown : ∀ {s : Shared} {out t b}, Drift vars s.vars →
          channelStep p s channel = .ok (out, t, b) →
          out = bufferFunc p channel (own p vars channel) := by
        intro s out t b hdrift hcall
        rw [← drift_own hdrift]
        exact channelStep_kept ((drift_passes hdrift).mpr hpass)
          (fun hp => hpmt ((drift_isPmtPacket hdrift).mp hp)) ((drift_called hdrift).mpr hkept.1)
          (fun hm => hkept.2 ((drift_makes hdrift).mp hm)) hcall
      rw [hown hdrift hcall, hown hdrift' hcall']
    · obtain ⟨packet₁, x, vars₁⟩ := s
      obtain ⟨packet₂, y, vars₂⟩ := s'
      obtain ⟨rfl, rfl⟩ := hquiet hover
      obtain ⟨rfl, rfl⟩ := hquiet' hover
      refine channelStep_quiet hpass (fun hpmt => ⟨fun hzero => ?_, fun hnew => ?_⟩) hcall hcall'
      · exact h ⟨hpass, .inl ⟨hpmt, .inl hzero⟩⟩
      · exact h ⟨hpass, .inl ⟨hpmt, .inr (.inl hnew)⟩⟩
  · by_cases heit : IsEitPacket p vars channel
    · have hover : ¬ Overwrites p vars := by
        rintro (⟨hpid, -⟩ | ⟨hpid, -⟩) <;> have := heit.1 <;> omega
      obtain ⟨packet₁, x, vars₁⟩ := s
      obtain ⟨packet₂, y, vars₂⟩ := s'
      obtain ⟨rfl, rfl⟩ := hquiet hover
      obtain ⟨rfl, rfl⟩ := hquiet' hover
      exact channelStep_eit heit hcall hcall'
    · have hsilent : ∀ {s : Shared} {out t b}, Drift vars s.vars →
          channelStep p s channel = .ok (out, t, b) → out = [] := fun hdrift hcall =>
        channelStep_silent (fun hp => hpass ((drift_passes hdrift).mp hp))
          (fun he => heit ((drift_isEitPacket hdrift).mp he)) hcall
      rw [hsilent hdrift hcall, hsilent hdrift' hcall']

end sufficient

section necessary

/-- The rewriters that may be called for the channel with this packet end without a fault. -/
structure Returns (p : LoopParameters) (vars : RewriteParameters) (channel : MumudvbChannel)
    (packet : Packet) : Prop where
  pat : p.pid = 0 → ∃ r, patRewriteNewChannelPacket vars channel packet = .ok r
  sdt : p.pid = 17 → ∃ r, sdtRewriteNewChannelPacket vars channel packet = .ok r
  pmt : IsPmtPacket p vars channel →
    ∃ r, pmtRewriteNewChannelPacket (memoryOf p packet) zeroPacket channel = .ok r

theorem tableCall_returns (h : Returns p vars channel packet)
    (hsame : SameButPmt channel channel') (hpat : p.pid = 0 → channel' = channel) (buf : Packet) :
    ∃ r, tableCall p vars channel' buf = .ok r := by
  rw [tableCall]
  split
  case isTrue hpid =>
    obtain ⟨r, hr⟩ := h.pat hpid.1
    rw [hpat hpid.1]
    exact patRewriteNewChannelPacket_returns hr buf
  case isFalse =>
    split
    case isTrue hpid =>
      obtain ⟨r, hr⟩ := h.sdt hpid.1
      exact sdtRewriteNewChannelPacket_returns hr hsame buf
    case isFalse => exact ⟨_, rfl⟩

/-- A packet that is not scrambled, with the given first byte. -/
def plain (b : UInt8) : Packet := ⟨[b, 0, 0, 0] ++ List.replicate 184 0, by
  rw [List.length_append, List.length_replicate]
  rfl⟩

theorem SameHeader_refl (packet : Packet) : SameHeader packet packet := ⟨rfl, rfl⟩

theorem bufferFunc_plain {b : UInt8} (h : SameHeader (plain b) packet) :
    bufferFunc p channel packet = [packet] := by
  have hclear : transportScramblingControl packet.cells = 0 := by
    rw [h.scrambling, transportScramblingControl, plain,
      byteAt_append_left (Nat.lt_succ_self 3), show byteAt [b, 0, 0, 0] 3 = 0 from rfl]
    decide
  rw [bufferFunc, hclear]
  simp

/-- Packets with other first bytes are told apart in the output. -/
theorem bufferFunc_differ {packet' : Packet} (h : SameHeader (plain 0) packet)
    (h' : SameHeader (plain 1) packet') :
    bufferFunc p channel packet ≠ bufferFunc p channel packet' := by
  rw [bufferFunc_plain h, bufferFunc_plain h']
  intro heq
  have hbyte := h.syncByte.symm.trans ((congrArg (fun q => byteAt q.cells 0)
    (List.singleton_inj.mp heq)).trans h'.syncByte)
  exact absurd hbyte (by decide)

/-- A channel with nothing but a packet of its own for the current tables. -/
def carrier (vars : RewriteParameters) (packet : Packet) : MumudvbChannel :=
  { zeroedChannel with
    channelReady := .ready
    generatedPat := packet
    generatedPatVersion := vars.patVersion
    generatedSdt := packet
    generatedSdtVersion := vars.sdtVersion }

/-- The counter that such a packet is sent with. -/
def counter (p : LoopParameters) (vars : RewriteParameters) : Nat :=
  if p.pid = 0 then vars.patContinuityCounter else vars.sdtContinuityCounter

theorem sendBranch_other (hpid : p.pid ≠ 18) (s : Shared) (channel : MumudvbChannel) :
    ∃ out, sendBranch p s channel = .ok (out, s, channel) := by
  rw [sendBranch, if_neg fun h => hpid h.1]
  split
  · split <;> exact ⟨_, rfl⟩
  · exact ⟨_, rfl⟩

/-- Where the packet can be overwritten, a channel may find any packet. -/
theorem meets_overwritten (h : Overwrites p vars) (q x : Packet) :
    Meets (channelStep p) (Starts packet vars) ⟨setCounter q (counter p vars), x, vars⟩ := by
  have hstart : Meets (channelStep p) (Starts packet vars) ⟨packet, x, vars⟩ := .start ⟨rfl, rfl⟩
  have hpid : sendsPid p (carrier vars q) = true ∧ p.pid ≠ 18 := by
    rcases h with ⟨hpid, -⟩ | ⟨hpid, -⟩ <;> simp [sendsPid, mandatoryPid, hpid]
  have hcall : tableCall p vars (carrier vars q) packet =
      .ok (true, ⟨vars, carrier vars q, setCounter q (counter p vars)⟩) := by
    rw [tableCall, counter]
    rcases h with ⟨hzero, hon, hok⟩ | ⟨hpid, hon, hok⟩
    · rw [if_pos ⟨hzero, hon⟩, if_pos hzero, patRewriteNewChannelPacket, if_pos hok]
      simp [carrier]
    · rw [if_neg (by omega), if_pos ⟨hpid, hon, rfl⟩, if_neg (by omega),
        sdtRewriteNewChannelPacket, if_pos hok]
      simp [carrier]
  obtain ⟨out, hsend⟩ := sendBranch_other hpid.2 ⟨setCounter q (counter p vars), x, vars⟩
    (carrier vars q)
  have hpmt : pmtBranch p ⟨packet, x, vars⟩ (carrier vars q) =
      .ok (true, ⟨packet, x, vars⟩, carrier vars q) := by
    rw [pmtBranch, if_neg fun h => by cases h.1.2.2]
  have hstep : channelStep p ⟨packet, x, vars⟩ (carrier vars q) =
      .ok (out, ⟨setCounter q (counter p vars), x, vars⟩, carrier vars q) := by
    rw [channelStep, if_pos ⟨rfl, hpid.1⟩, hpmt, bind_ok]
    dsimp only
    rw [if_pos rfl, afterPmt_eq, hcall, bind_ok, if_pos rfl, hsend]
  exact .next hstart hstep

/-- The PMT goes through the shared buffer: it shows what the buffer held before. -/
theorem not_independent_of_buffer {q : Packet} (hpass : Passes p vars channel)
    (hpmt : IsPmtPacket p vars channel)
    (hmet : ∀ x, Meets (channelStep p) (Starts packet vars) ⟨q, x, vars⟩)
    (hbranch : ∀ x, pmtBranch p ⟨q, x, vars⟩ channel = .ok (true, ⟨q, x, vars⟩, channel'))
    (hcall : ∃ r, tableCall p vars channel' q = .ok r) :
    ¬ Independent (channelStep p) (Starts packet vars) channel := by
  intro hind
  rw [independent_iff] at hind
  obtain ⟨⟨sent, st⟩, hcall⟩ := hcall
  obtain ⟨u, b, hstep⟩ := channelStep_sends (s := ⟨q, plain 0, vars⟩) hpass (hbranch _) hcall
  obtain ⟨u', b', hstep'⟩ := channelStep_sends (s := ⟨q, plain 1, vars⟩) hpass (hbranch _) hcall
  have heq := hind _ _ _ _ _ _ _ _ (hmet _) (hmet _) hstep hstep'
  rw [if_pos hpmt, if_pos hpmt] at heq
  exact bufferFunc_differ (SameHeader_refl _) (SameHeader_refl _) heq

/-- The packet goes out as it is found, or behind the header that is found. -/
theorem not_independent_of_packet (hpass : Passes p vars channel)
    (hpmt : ¬ IsPmtPacket p vars channel) (hover : Overwrites p vars)
    (huses : Called p vars channel → Makes p vars channel) (h : Returns p vars channel packet) :
    ¬ Independent (channelStep p) (Starts packet vars) channel := by
  intro hind
  rw [independent_iff] at hind
  have hbranch : ∀ q, pmtBranch p ⟨q, packet, vars⟩ channel =
      .ok (true, ⟨q, packet, vars⟩, channel) := fun q => by
    rw [pmtBranch, if_neg fun h => hpmt h.1]
  have hshows : ∀ v, ∃ q out u b, SameHeader (plain v) q ∧ out = bufferFunc p channel q ∧
      channelStep p ⟨setCounter (plain v) (counter p vars), packet, vars⟩ channel =
        .ok (out, u, b) := by
    intro v
    obtain ⟨⟨sent, st⟩, hcall⟩ := tableCall_returns h (SameButPmt.refl _) (fun _ => rfl)
      (setCounter (plain v) (counter p vars))
    obtain ⟨u, b, hstep⟩ := channelStep_sends hpass (hbranch _) hcall
    rw [if_neg hpmt] at hstep
    refine ⟨st.buf, _, u, b, ?_, rfl, hstep⟩
    have hfound := (SameHeader_refl (plain v)).withCounter (counter p vars)
    obtain ⟨-, -, rfl⟩ | ⟨hcalled, hcall'⟩ := tableCall_cases hpass.ready hcall
    · exact hfound
    · have hsame := hcall'.rebuilt (huses hcalled)
        ((tableCall_sent hpass.ready hcall).mpr hpass.sends)
      exact ⟨hsame.syncByte.trans hfound.syncByte, hsame.scrambling.trans hfound.scrambling⟩
  obtain ⟨q, out, u, b, hq, hout, hstep⟩ := hshows 0
  obtain ⟨q', out', u', b', hq', hout', hstep'⟩ := hshows 1
  have heq := hind _ _ _ _ _ _ _ _ (meets_overwritten hover _ _) (meets_overwritten hover _ _)
    hstep hstep'
  rw [hout, hout'] at heq
  exact bufferFunc_differ hq hq' heq

/-- A packet with nothing but the header of a PMT of the given version. -/
def headerOnly (version : Nat) : Packet :=
  ⟨[0x47, 0x40, 0x00, 0x10, 0x00, 0x02, 0x00, 0x00, 0x00, 0x00, UInt8.ofNat (2 * version + 1)] ++
    List.replicate 177 0xff, by
    rw [List.length_append, List.length_replicate]
    rfl⟩

theorem byteAt_headerOnly {i : Nat} (version : Nat) (hi : i < 11) : byteAt (headerOnly version).cells i =
    byteAt [0x47, 0x40, 0x00, 0x10, 0x00, 0x02, 0x00, 0x00, 0x00, 0x00,
      UInt8.ofNat (2 * version + 1)] i := byteAt_append_left hi

theorem byteAt_memoryOf {i : Nat} (hi : i < 183) :
    byteAt ((memoryOf p packet).cells.drop 5) i = byteAt packet.cells (5 + i) := by
  have hlen := packet.length_cells
  rw [byteAt_drop, memoryOf, byteAt_append_left (by rw [hlen]; simp only [tsPacketSize]; omega)]

/-- Its bytes, whatever its counter is. -/
theorem byteAt_pmt {i : Nat} (version cc : Nat) (hi : i < 6) :
    byteAt ((memoryOf p (setCounter (headerOnly version) cc)).cells.drop 5) i =
      byteAt [0x02, 0x00, 0x00, 0x00, 0x00, UInt8.ofNat (2 * version + 1)] i := by
  have hcells : (setCounter (headerOnly version) cc).cells = (headerOnly version).cells.set 3
      ((byteAt (headerOnly version).cells 3 &&& 0xf0) ||| UInt8.ofNat (cc % 16)) := rfl
  rw [byteAt_memoryOf (by omega), hcells, byteAt_set_ne (by omega), byteAt_headerOnly _ (by omega)]
  rcases i with _ | _ | _ | _ | _ | _ | i
  iterate 6 rfl
  omega

/-- With no stream to copy the rewriter cannot fail. -/
theorem pmtChannelRewrite_headerOnly {mem : PacketMemory} {len : Nat}
    (ht : tableId (mem.cells.drop 5) = 0x02) (hlen : sectionLength (mem.cells.drop 5) = 0) :
    ∃ r, pmtChannelRewrite (started channel mem len) = .ok r := by
  have hshort : sectionLength ((started channel mem len).originalPmt.cells.drop 5) = 0 := by
    rw [sectionLength, byteAt_drop, byteAt_drop, started, byteAt_firstPart (by decide),
      byteAt_firstPart (by decide), ← byteAt_drop, ← byteAt_drop]
    exact hlen
  have hsize := (onlySectionAt (startHeader (started channel mem len).originalPmt) 5).length_cells
  have htake : ((onlySectionAt (startHeader (started channel mem len).originalPmt) 5).cells.take
      17).length = 17 := by
    rw [List.length_take, hsize]
    decide
  obtain ⟨p, hclose, -⟩ := closeSection_ok (show ((onlySectionAt (startHeader (started channel mem
    len).originalPmt) 5).cells.take 17).length ≤ 184 by rw [htake]; decide)
  unfold pmtChannelRewrite
  simp only [tsHeaderLen, pmtLen]
  rw [if_neg (by rw [tableId_started, ht]; simp), hshort, appendDest_ok (by rw [htake]; decide),
    bind_ok, List.nil_append, pmtStreams, if_neg (by decide), bind_ok, hclose]
  exact ⟨_, rfl⟩

/-- A channel that has another version takes it for a complete PMT. -/
theorem headerOnly_completes {version : Nat} (cc : Nat) (hlow : version < 32)
    (hnew : (version : Int) ≠ channel.generatedPmtVersion)
    (hready : channel.channelReady.isReady = true) :
    CompletesPmt (memoryOf p (setCounter (headerOnly version) cc)) channel ∧
      ∃ r, pmtRewriteNewChannelPacket (memoryOf p (setCounter (headerOnly version) cc)) zeroPacket
        channel = .ok r := by
  have hbyte := @byteAt_pmt p
  have htable : tableId ((memoryOf p (setCounter (headerOnly version) cc)).cells.drop 5) = 0x02 := by
    rw [tableId, hbyte version cc (by decide)]
    rfl
  have hlen : sectionLength ((memoryOf p (setCounter (headerOnly version) cc)).cells.drop 5) = 0 := by
    have hhigh : byteAt [0x02, 0x00, 0x00, 0x00, 0x00, UInt8.ofNat (2 * version + 1)] 1 = 0 := rfl
    have hlow : byteAt [0x02, 0x00, 0x00, 0x00, 0x00, UInt8.ofNat (2 * version + 1)] 2 = 0 := rfl
    rw [sectionLength, hbyte version cc (by decide), hbyte version cc (by decide), hhigh, hlow]
    decide
  have hversion :
      versionNumber ((memoryOf p (setCounter (headerOnly version) cc)).cells.drop 5) = version := by
    have hlast : byteAt [0x02, 0x00, 0x00, 0x00, 0x00, UInt8.ofNat (2 * version + 1)] 5 =
        UInt8.ofNat (2 * version + 1) := rfl
    rw [versionNumber, hbyte version cc (by decide), hlast, UInt8.toNat_ofNat']
    omega
  generalize memoryOf p (setCounter (headerOnly version) cc) = mem at htable hlen hversion ⊢
  refine ⟨.inl ⟨htable, fun hsettled => ?_, ?_⟩, ?_⟩
  · have hsame := hsettled.2 htable
    rw [hversion] at hsame
    exact hnew hsame
  · rw [hlen]
    decide
  · have hneed := pmtNeedUpdate_start htable (show ¬ (channel.originalPmtReady = true ∧ _) from fun h => by
      rw [hversion] at h
      exact hnew h.2)
    rw [hlen, if_pos (by decide)] at hneed
    obtain ⟨r, hr⟩ : ∃ r, pmtChannelRewrite (started channel mem _) = .ok r :=
      pmtChannelRewrite_headerOnly htable hlen
    rw [pmtRewriteNewChannelPacket_eq _ hready hneed, if_neg (by decide), if_pos rfl, hr, bind_ok]
    split
    · exact ⟨_, rfl⟩
    · split <;> exact ⟨_, rfl⟩

theorem exists_other_version (v : Int) : ∃ version : Nat, version < 32 ∧ (version : Int) ≠ v := by
  by_cases h : v = 0
  · exact ⟨1, by decide, by omega⟩
  · exact ⟨0, by decide, by omega⟩

theorem not_independent_of_exposed (h : Exposed p vars channel packet)
    (hreturns : Returns p vars channel packet) :
    ¬ Independent (channelStep p) (Starts packet vars) channel := by
  have hstart : ∀ x, Meets (channelStep p) (Starts packet vars) ⟨packet, x, vars⟩ :=
    fun x => .start ⟨rfl, rfl⟩
  obtain ⟨hpass, ⟨hpmt, hbuffer⟩ | ⟨hpmt, hover, huses⟩⟩ := h
  · by_cases hzero : channel.pmtPid = 0
    · refine not_independent_of_buffer hpass hpmt hstart (fun x => ?_)
        (tableCall_returns hreturns (SameButPmt.refl _) (fun _ => rfl) packet)
      rw [pmtBranch, if_neg fun h => h.2 hzero]
    · have hpid : p.pid ≠ 0 := fun hpid => hzero (by rw [← hpmt.1, hpid]; rfl)
      -- a packet that completes a PMT leaves the buffer, whatever it holds
      have hshows : ∀ {q : Packet}, CompletesPmt (memoryOf p q) channel →
          (∃ r, pmtRewriteNewChannelPacket (memoryOf p q) zeroPacket channel = .ok r) →
          (∀ x, Meets (channelStep p) (Starts packet vars) ⟨q, x, vars⟩) →
          ¬ Independent (channelStep p) (Starts packet vars) channel := by
        rintro q hnew ⟨⟨sent, after, channel'⟩, hcall⟩ hmet
        obtain ⟨hsame, ⟨-, -, hleaves⟩ | ⟨hold, -⟩⟩ :=
          pmtRewriteNewChannelPacket_buffer hpass.ready hcall
        · refine not_independent_of_buffer hpass hpmt hmet (fun x => ?_)
            (tableCall_returns hreturns hsame (fun h => absurd h hpid) q)
          rw [pmtBranch, if_pos ⟨hpmt, hzero⟩, hleaves x]
          rfl
        · exact absurd hnew hold
      rcases hbuffer with hnone | hnew | hover
      · exact absurd hnone hzero
      · exact hshows hnew (hreturns.pmt hpmt) hstart
      · obtain ⟨version, hlow, hother⟩ := exists_other_version channel.generatedPmtVersion
        obtain ⟨hnew, hcall⟩ := headerOnly_completes (p := p) (counter p vars) hlow hother hpass.ready
        exact hshows hnew hcall (meets_overwritten hover _)
  · exact not_independent_of_packet hpass hpmt hover huses hreturns

end necessary

/-- The output for a channel is independent of the other channels and of its place in the list if
it is not exposed, and only if, where its rewriters end at all. -/
theorem channel_independent_iff (p : LoopParameters) (vars : RewriteParameters)
    (channel : MumudvbChannel) (packet : Packet) :
    (¬ Exposed p vars channel packet →
      Independent (channelStep p) (Starts packet vars) channel) ∧
    (Returns p vars channel packet →
      (Independent (channelStep p) (Starts packet vars) channel ↔
        ¬ Exposed p vars channel packet)) := by
  refine ⟨independent_of_not_exposed, fun hreturns => ⟨fun hind hexp => ?_,
    independent_of_not_exposed⟩⟩
  exact not_independent_of_exposed hexp hreturns hind

/-- A loop for a packet of the SDT. -/
def sdtLoop : LoopParameters where
  pid := 17
  behind := Buffer.fill 4 0xff
  psiTablesFiltering := 0
  atsc := false
  dontSendScrambled := false

/-- The tables after two packets of an SDT with service 1 only. -/
def afterStoring : Checked RewriteParameters := do
  let (_, vars) ← sdtRewriteNewGlobalPacket tvMemory (startFor 1).vars
  let (_, vars) ← sdtRewriteNewGlobalPacket tvMemory vars
  return vars

/-- A channel for service 2, which the rewriter skips. -/
def skippedChannel : MumudvbChannel :=
  { readyFor 2 with generatedSdtVersion := 0, sdtRewriteSkip := true }

def outputsAfterStoring (channels : List MumudvbChannel) : Checked (List (List Packet)) := do
  let vars ← afterStoring
  let r ← channelLoop sdtLoop ⟨tvMemory.packet, zeroPacket, vars⟩ channels
  return r.1

/-- Alone, the skipped channel sends the SDT as it came; after the channel for service 1 it sends the
SDT of that channel. -/
theorem not_independent_skippedChannel : ∃ vars, afterStoring = .ok vars ∧
    ¬ Independent (channelStep sdtLoop) (Starts tvMemory.packet vars) skippedChannel := by
  have hone : (outputsAfterStoring [skippedChannel]).map (fun outs => outs[0]?) =
      .ok (some [tvMemory.packet]) := by decide +kernel
  have htwo : (outputsAfterStoring [readyFor 1, skippedChannel]).map
      (fun outs => outs[1]? == some [tvMemory.packet]) = .ok false := by decide +kernel
  obtain ⟨outs, hone, hfirst⟩ := map_eq_ok hone
  obtain ⟨outs', htwo, hsecond⟩ := map_eq_ok htwo
  obtain ⟨vars, hvars, hone⟩ := bind_eq_ok.mp hone
  obtain ⟨r, hloop, hone⟩ := bind_eq_ok.mp hone
  cases hone
  obtain ⟨vars', hvars', htwo⟩ := bind_eq_ok.mp htwo
  rw [hvars] at hvars'
  cases hvars'
  obtain ⟨r', hloop', htwo⟩ := bind_eq_ok.mp htwo
  cases htwo
  refine ⟨vars, hvars, fun hind => ?_⟩
  have hsame := hind _ _ [] [readyFor 1] [] [] _ _ ⟨rfl, rfl⟩ ⟨rfl, rfl⟩ hloop hloop'
  dsimp only [List.length_nil, List.length_singleton] at hsame
  rw [← hsame, hfirst] at hsecond
  simp at hsecond

end MuMuDVB.Interference
