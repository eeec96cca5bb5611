import MuMuDVB.MainLoop
import MuMuDVB.PmtRuns
import MuMuDVB.SdtRuns

/-!
# What a call leaves behind

The effect of one call of each rewriter, for a channel that is ready: what it
changes in the channel and in the stored tables, whether it sends, and where
the bytes that it sends come from.
-/
namespace MuMuDVB.CallEffects

open CheckedMemory MuMuDVB.TsHeader MuMuDVB.Ts MuMuDVB.Channel MuMuDVB.RewriteSection
open MuMuDVB.RewritePat MuMuDVB.RewriteSdt MuMuDVB.RewritePmt MuMuDVB.RewriteEit MuMuDVB.MainLoop
open MuMuDVB.SdtRuns MuMuDVB.PmtRuns

/-- Two states of a channel that agree in what decides how a packet is sent. -/
structure SameSettings (channel channel' : MumudvbChannel) : Prop where
  pmtPid : channel'.pmtPid = channel.pmtPid
  pmtRewrite : channel'.pmtRewrite = channel.pmtRewrite
  serviceId : channel'.serviceId = channel.serviceId
  scam : channel'.scamSupportStarted = channel.scamSupportStarted

variable {p : LoopParameters} {s s' t : Shared} {vars vars' : RewriteParameters}
  {channel channel' : MumudvbChannel} {buf : Packet} {st : RewriteState} {mem : PacketMemory}
  {sent : Bool}

theorem SameSettings.refl (channel : MumudvbChannel) : SameSettings channel channel :=
  ⟨rfl, rfl, rfl, rfl⟩

theorem bufferFunc_same (h : SameSettings channel channel') (packet : Packet) :
    bufferFunc p channel' packet = bufferFunc p channel packet := by
  rw [bufferFunc, bufferFunc, h.scam, h.pmtPid]

section pmt

/-- The packet is the last one of a PMT that the channel does not have. -/
def CompletesPmt (mem : PacketMemory) (channel : MumudvbChannel) : Prop :=
  (tableId (mem.cells.drop 5) = 0x02 ∧ ¬ Settled mem channel ∧
    pmtPartNumber (sectionLength (mem.cells.drop 5) + 3) = 0) ∨
  (tableId (mem.cells.drop 5) ≠ 0x02 ∧ channel.originalPmtReady = false ∧
    0 < channel.pmtPartNum ∧ channel.pmtPartCount + 1 = channel.pmtPartNum ∧
    tableId (channel.originalPmt.cells.drop 5) = 0x02)

/-- What the PMT rewriter leaves in the channel. -/
structure SameButPmt (channel channel' : MumudvbChannel) : Prop extends
    SameSettings channel channel' where
  ready : channel'.channelReady = channel.channelReady
  generatedSdt : channel'.generatedSdt = channel.generatedSdt
  generatedSdtVersion : channel'.generatedSdtVersion = channel.generatedSdtVersion
  skip : channel'.sdtRewriteSkip = channel.sdtRewriteSkip

theorem SameButPmt.refl (channel : MumudvbChannel) : SameButPmt channel channel :=
  ⟨SameSettings.refl channel, rfl, rfl, rfl, rfl⟩

theorem SameButPmt.trans {channel'' : MumudvbChannel} (h : SameButPmt channel channel')
    (h' : SameButPmt channel' channel'') : SameButPmt channel channel'' :=
  ⟨⟨h'.pmtPid.trans h.pmtPid, h'.pmtRewrite.trans h.pmtRewrite, h'.serviceId.trans h.serviceId,
    h'.scam.trans h.scam⟩, h'.ready.trans h.ready, h'.generatedSdt.trans h.generatedSdt,
    h'.generatedSdtVersion.trans h.generatedSdtVersion, h'.skip.trans h.skip⟩

theorem pmtNeedUpdate_frame {result : Nat}
    (h : pmtNeedUpdate mem channel = .ok (result, channel')) : SameButPmt channel channel' := by
  obtain ⟨-, rfl, -⟩ | ⟨-, -, -, rfl⟩ | ⟨-, -, -, originalPmt, -, -, rfl⟩ := pmtNeedUpdate_cases h
  · exact SameButPmt.refl _
  · exact ⟨⟨rfl, rfl, rfl, rfl⟩, rfl, rfl, rfl, rfl⟩
  · exact ⟨⟨rfl, rfl, rfl, rfl⟩, rfl, rfl, rfl, rfl⟩

theorem pmtChannelRewrite_frame {r : Bool}
    (h : pmtChannelRewrite channel = .ok (r, channel')) :
    SameButPmt channel channel' ∧
      (r = true ↔ tableId (channel.originalPmt.cells.drop 5) = 0x02) := by
  unfold pmtChannelRewrite at h
  dsimp only at h
  split at h
  case isTrue ht =>
    cases h
    exact ⟨SameButPmt.refl _, (fun h => by cases h), fun h => absurd h ht⟩
  case isFalse ht =>
    simp only [bind_eq_ok, pure_ok, Except.ok.injEq, Prod.mk.injEq] at h
    obtain ⟨dest₀, -, dest, -, generated, -, rfl, rfl⟩ := h
    exact ⟨⟨⟨rfl, rfl, rfl, rfl⟩, rfl, rfl, rfl, rfl⟩, fun _ => not_not.mp ht, fun _ => rfl⟩

/-- What a call does with the result of `pmt_need_update`. -/
theorem pmtRewriteNewChannelPacket_eq {result : Nat} {collected : MumudvbChannel} (before : Packet)
    (hready : channel.channelReady.isReady = true)
    (hneed : pmtNeedUpdate mem channel = .ok (result, collected)) :
    pmtRewriteNewChannelPacket mem before channel =
      (if result = 0 then .ok (true, pmtSendPacket collected)
      else if result = 1 then pmtChannelRewrite collected >>= fun r =>
        if r.1 then .ok (true, before, r.2)
        else if r.2.generatedPmtVersion ≠ 0 then .ok (true, pmtSendPacket r.2)
        else .ok (false, before, r.2)
      else .ok (false, before, collected)) := by
  rw [pmtRewriteNewChannelPacket, if_pos hready, hneed]
  rfl

/-- A packet completes a PMT when `pmt_need_update` says so and it is one. -/
theorem completesPmt_iff {result : Nat} {collected : MumudvbChannel}
    (hneed : pmtNeedUpdate mem channel = .ok (result, collected)) :
    CompletesPmt mem channel ↔
      result = 1 ∧ tableId (collected.originalPmt.cells.drop 5) = 0x02 := by
  obtain ⟨rfl, rfl, hcase⟩ | ⟨ht, hnew, hresult, rfl⟩ |
    ⟨ht, hwait, hnum, originalPmt, hcells, hresult, rfl⟩ := pmtNeedUpdate_cases hneed
  · refine ⟨fun h => ?_, fun h => by cases h.1⟩
    rcases h with ⟨ht, hnew, -⟩ | ⟨ht, hwait, hnum, -⟩ <;>
      rcases hcase with hsettled | ⟨hother, hidle, hnone⟩
    · exact absurd hsettled hnew
    · exact absurd ht hother
    · rw [hsettled.1] at hwait
      cases hwait
    · omega
  · rw [tableId_started, hresult]
    constructor
    · rintro (⟨-, -, hzero⟩ | ⟨hother, -⟩)
      · exact ⟨if_pos hzero, ht⟩
      · exact absurd ht hother
    · rintro ⟨hone, -⟩
      split at hone
      · exact .inl ⟨ht, hnew, ‹_›⟩
      · cases hone
  · rw [show tableId (originalPmt.cells.drop 5) = tableId (channel.originalPmt.cells.drop 5) from
      tableId_collected hcells (by simp), hresult]
    constructor
    · rintro (⟨hother, -⟩ | ⟨-, -, -, hlast, htable⟩)
      · exact absurd hother ht
      · exact ⟨if_pos hlast, htable⟩
    · rintro ⟨hone, htable⟩
      split at hone
      · exact .inr ⟨ht, hwait, hnum, ‹_›, htable⟩
      · cases hone

/-- The shared buffer matters to a call exactly when the packet completes a PMT: then the call
returns 1 and leaves the buffer; otherwise it sends its own PMT, or nothing. -/
theorem pmtRewriteNewChannelPacket_buffer {before after : Packet}
    (hready : channel.channelReady.isReady = true)
    (h : pmtRewriteNewChannelPacket mem before channel = .ok (sent, after, channel')) :
    SameButPmt channel channel' ∧
    ((CompletesPmt mem channel ∧ sent = true ∧
      ∀ other, pmtRewriteNewChannelPacket mem other channel = .ok (true, other, channel')) ∨
    (¬ CompletesPmt mem channel ∧ ∀ other, ∃ after',
      pmtRewriteNewChannelPacket mem other channel = .ok (sent, after', channel') ∧
      (sent = true → after' = after))) := by
  cases hneed : pmtNeedUpdate mem channel with
  | error e =>
    rw [pmtRewriteNewChannelPacket, if_pos hready, hneed] at h
    cases h
  | ok r =>
    obtain ⟨result, collected⟩ := r
    have heq := fun other => pmtRewriteNewChannelPacket_eq other hready hneed
    have hframe := pmtNeedUpdate_frame hneed
    rw [completesPmt_iff hneed]
    simp only [heq] at h ⊢
    split at h
    case isTrue hzero =>
      cases h
      refine ⟨⟨⟨hframe.pmtPid, hframe.pmtRewrite, hframe.serviceId, hframe.scam⟩, hframe.ready,
        hframe.generatedSdt, hframe.generatedSdtVersion, hframe.skip⟩, .inr ⟨?_, fun other =>
          ⟨_, if_pos hzero, fun _ => rfl⟩⟩⟩
      rintro ⟨hone, -⟩
      omega
    case isFalse hzero =>
      split at h
      case isTrue hone =>
        obtain ⟨⟨rewritten, channel₂⟩, hrewrite, h⟩ := bind_eq_ok.mp h
        obtain ⟨hframe₂, hflag⟩ := pmtChannelRewrite_frame hrewrite
        have hframe := hframe.trans hframe₂
        rw [hrewrite]
        cases rewritten with
        | true =>
          cases h
          exact ⟨hframe, .inl ⟨⟨hone, hflag.mp rfl⟩, rfl, fun other => by
            rw [if_neg hzero, if_pos hone]
            rfl⟩⟩
        | false =>
          have hnot : ¬ (result = 1 ∧ tableId (collected.originalPmt.cells.drop 5) = 0x02) :=
            fun hc => by cases hflag.mpr hc.2
          simp only [Bool.false_eq_true, if_false] at h
          split at h
          case isTrue hversion =>
            cases h
            refine ⟨⟨⟨hframe.pmtPid, hframe.pmtRewrite, hframe.serviceId, hframe.scam⟩,
              hframe.ready, hframe.generatedSdt, hframe.generatedSdtVersion, hframe.skip⟩,
              .inr ⟨hnot, fun other => ⟨_, ?_, fun _ => rfl⟩⟩⟩
            rw [if_neg hzero, if_pos hone, bind_ok, if_neg (by simp), if_pos hversion]
            rfl
          case isFalse hversion =>
            cases h
            refine ⟨hframe, .inr ⟨hnot, fun other => ⟨other, ?_, fun h => by cases h⟩⟩⟩
            rw [if_neg hzero, if_pos hone, bind_ok, if_neg (by simp), if_neg hversion]
      case isFalse hone =>
        cases h
        refine ⟨hframe, .inr ⟨fun hc => hone hc.1, fun other => ⟨other, ?_, fun h => by cases h⟩⟩⟩
        rw [if_neg hzero, if_neg hone]

end pmt

section tables

/-- What the calls for the channels may do to the stored tables: the PAT, and of the SDT what no
later call reads. -/
structure Drift (vars vars' : RewriteParameters) : Prop where
  same : ∃ fullPat data needsUpdate needOthers, vars' = { vars with
    fullPat := fullPat
    fullSdt := { vars.fullSdt with dataFull := data }
    sdtNeedsUpdate := needsUpdate
    sdtNeedOthers := needOthers }
  only : onlySectionAt vars'.fullSdt.dataFull 0 = onlySectionAt vars.fullSdt.dataFull 0
  needsUpdate : vars'.sdtNeedsUpdate = vars.sdtNeedsUpdate ∨
    tableId vars.fullSdt.dataFull.cells ≠ 0x42

/-- What does not read the four fields is as before. -/
theorem Drift.unread {γ : Sort _} (h : Drift vars vars') (f : RewriteParameters → γ)
    (hf : ∀ fullPat data needsUpdate needOthers, f { vars with
      fullPat := fullPat
      fullSdt := { vars.fullSdt with dataFull := data }
      sdtNeedsUpdate := needsUpdate
      sdtNeedOthers := needOthers } = f vars) : f vars' = f vars := by
  obtain ⟨fullPat, data, needsUpdate, needOthers, hsame⟩ := h.same
  rw [hsame]
  exact hf fullPat data needsUpdate needOthers

theorem Drift.refl (vars : RewriteParameters) : Drift vars vars :=
  ⟨⟨_, _, _, _, rfl⟩, rfl, .inl rfl⟩

theorem Drift.table (h : Drift vars vars') :
    tableId vars'.fullSdt.dataFull.cells = tableId vars.fullSdt.dataFull.cells := by
  have honly := congrArg (fun b => tableId b.cells) h.only
  simpa only [onlySectionAt_zero, tableId_makeOnlySection] using honly

theorem Drift.trans {vars'' : RewriteParameters} (h : Drift vars vars') (h' : Drift vars' vars'') :
    Drift vars vars'' := by
  have htable := h.table
  obtain ⟨⟨_, _, _, _, hsame⟩, honly, hneeds⟩ := h
  obtain ⟨⟨_, _, _, _, hsame'⟩, honly', hneeds'⟩ := h'
  refine ⟨⟨_, _, _, _, by rw [hsame', hsame]⟩, honly'.trans honly, ?_⟩
  rcases hneeds' with hneeds' | hother
  · rw [hneeds']
    exact hneeds
  · exact .inr (htable ▸ hother)

theorem Drift.pat {pkt : MumudvbTsPacket} : Drift vars { vars with fullPat := pkt } :=
  ⟨⟨_, _, _, _, rfl⟩, rfl, .inl rfl⟩

theorem makeOnlySection_twice {s : List UInt8} (hlen : 8 ≤ s.length) :
    makeOnlySection (makeOnlySection s) = makeOnlySection s := by
  rw [makeOnlySection, current_makeOnlySection hlen, UInt8.or_assoc, UInt8.or_self]
  simp [makeOnlySection, List.set_comm]

theorem onlySectionAt_twice (data : Buffer UInt8 maxTsSize) :
    onlySectionAt (onlySectionAt data 0) 0 = onlySectionAt data 0 := by
  have hlen := data.length_cells
  simp only [maxTsSize] at hlen
  ext1
  rw [onlySectionAt_zero, onlySectionAt_zero, makeOnlySection_twice (by omega)]

end tables

section header

/-- A packet with the sync byte and the scrambling control of another one. -/
structure SameHeader (buf q : Packet) : Prop where
  syncByte : byteAt q.cells 0 = byteAt buf.cells 0
  scrambling : transportScramblingControl q.cells = transportScramblingControl buf.cells

theorem div_sixtyfour_low (a c : Nat) (ha : a < 256) (hc : c < 16) :
    (a &&& 240 ||| c) / 64 = a / 64 := by
  have hor := Nat.or_div_two_pow (a := a &&& 240) (b := c) (n := 6)
  have hand := Nat.and_div_two_pow (a := a) (b := 240) (n := 6)
  rw [show (2 : Nat) ^ 6 = 64 from rfl] at hor hand
  rw [hor, hand, Nat.div_eq_of_lt (show c < 64 by omega), Nat.or_zero,
    show 240 / 64 = 2 ^ 2 - 1 from rfl, Nat.and_two_pow_sub_one_eq_mod]
  exact Nat.mod_eq_of_lt (by omega)

theorem SameHeader.withCounter {q : Packet} (h : SameHeader buf q) (cc : Nat) :
    SameHeader buf (setCounter q cc) := by
  have hlen := q.length_cells
  have hcells : (setCounter q cc).cells =
      q.cells.set 3 ((byteAt q.cells 3 &&& 0xf0) ||| UInt8.ofNat (cc % 16)) := rfl
  constructor
  · rw [hcells, byteAt_set_ne (by decide)]
    exact h.syncByte
  · have hmod : cc % 16 % 2 ^ 8 = cc % 16 := Nat.mod_eq_of_lt (by omega)
    rw [← h.scrambling, hcells, transportScramblingControl,
      byteAt_set_self (by rw [hlen]; decide), UInt8.toNat_or, UInt8.toNat_and, UInt8.toNat_ofNat',
      hmod]
    exact div_sixtyfour_low _ _ (UInt8.toNat_lt _) (Nat.mod_lt _ (by decide))

end header

/-- A call of the PAT or the SDT rewriter with `buf`: `stored` says that it has a table to work on,
`Sends` that it sends, `Rebuilds` that it makes the packet anew, and `own` is the packet that the
channel has. -/
structure Call (stored : Bool) (Sends Rebuilds : Prop) (own : Packet) (vars : RewriteParameters)
    (channel : MumudvbChannel) (buf : Packet) (sent : Bool) (st : RewriteState) : Prop where
  quiet : stored = false → st.vars = vars ∧ st.buf = buf
  drift : Drift vars st.vars
  settings : SameSettings channel st.channel
  sends : sent = true ↔ Sends
  rebuilt : Rebuilds → sent = true → SameHeader buf st.buf
  kept : ¬ Rebuilds → sent = true → st.buf = own

section returns

/-! A rewriter copies as many bytes for one incoming packet as for another. -/

theorem appendDest_returns {dest dest' src src' d : List UInt8} (h : appendDest dest src = .ok d)
    (hdest : dest'.length = dest.length) (hsrc : src'.length = src.length) :
    ∃ d', appendDest dest' src' = .ok d' ∧ d'.length = d.length := by
  unfold appendDest at h ⊢
  split at h
  case isTrue hfit =>
    cases h
    exact ⟨_, if_pos (by rw [hdest, hsrc]; exact hfit), by
      rw [List.length_append, List.length_append, hdest, hsrc]⟩
  case isFalse => cases h

theorem closeSection_returns {dest dest' : List UInt8} {q : Packet}
    (h : closeSection dest = .ok q) (hdest : dest'.length = dest.length) :
    ∃ q', closeSection dest' = .ok q' := by
  obtain ⟨hlen, -⟩ := closeSection_eq_ok h
  obtain ⟨q', hq', -⟩ := closeSection_ok (show dest'.length ≤ 184 by rw [hdest]; exact hlen)
  exact ⟨q', hq'⟩

theorem copyProg_returns {prog : List UInt8} {pids : List Int} : ∀ {dest dest' d : List UInt8},
    copyProg prog pids dest = .ok d → dest'.length = dest.length →
    ∃ d', copyProg prog pids dest' = .ok d' ∧ d'.length = d.length := by
  induction pids with
  | nil =>
    intro dest dest' d h hdest
    cases h
    exact ⟨dest', rfl, hdest⟩
  | cons pid pids ih =>
    intro dest dest' d h hdest
    rw [copyProg] at h ⊢
    split at h
    case isTrue hpid =>
      rw [if_pos hpid, hdest]
      split at h
      case isTrue hfull =>
        cases h
        exact ⟨dest', if_pos hfull, hdest⟩
      case isFalse hroom =>
        rw [bind_eq_ok] at h
        obtain ⟨d₁, happ, h⟩ := h
        obtain ⟨d₁', happ', hlen⟩ := appendDest_returns happ hdest rfl
        obtain ⟨d', hcopy, hlen'⟩ := ih h hlen
        exact ⟨d', by rw [if_neg hroom, happ', bind_ok, hcopy], hlen'⟩
    case isFalse hpid =>
      rw [if_neg hpid]
      exact ih h hdest

theorem patProgram_returns {prog dest dest' d : List UInt8}
    (h : patProgram channel prog dest = .ok d) (hdest : dest'.length = dest.length) :
    ∃ d', patProgram channel prog dest' = .ok d' ∧ d'.length = d.length := by
  unfold patProgram at h ⊢
  rw [hdest]
  split at h
  case isTrue hnumber =>
    rw [if_pos hnumber]
    split at h
    case isTrue hkeep =>
      rw [if_pos hkeep]
      exact copyProg_returns h hdest
    case isFalse hkeep =>
      rw [if_neg hkeep]
      cases h
      exact ⟨dest', rfl, hdest⟩
  case isFalse hnumber =>
    rw [if_neg hnumber]
    cases h
    exact ⟨dest', rfl, hdest⟩

theorem patPrograms_returns {data : Buffer UInt8 maxTsSize} {sectionLength : Nat} (fuel : Nat) :
    ∀ {delta : Nat} {dest dest' d : List UInt8},
      patPrograms fuel channel data sectionLength delta dest = .ok d →
      dest'.length = dest.length →
      ∃ d', patPrograms fuel channel data sectionLength delta dest' = .ok d' ∧
        d'.length = d.length := by
  induction fuel with
  | zero =>
    intro delta dest dest' d h
    cases h
  | succ fuel ih =>
    intro delta dest dest' d h hdest
    rw [patPrograms] at h ⊢
    split at h
    case isTrue hin =>
      rw [if_pos hin]
      rw [bind_eq_ok] at h
      obtain ⟨prog, hslice, h⟩ := h
      rw [bind_eq_ok] at h
      obtain ⟨d₁, hprog, h⟩ := h
      obtain ⟨d₁', hprog', hlen⟩ := patProgram_returns hprog hdest
      obtain ⟨d', hlater, hlen'⟩ := ih h hlen
      exact ⟨d', by rw [hslice, bind_ok, hprog', bind_ok, hlater], hlen'⟩
    case isFalse hout =>
      rw [if_neg hout]
      cases h
      exact ⟨dest', rfl, hdest⟩

theorem length_header_startHeader (buf : Packet) :
    ((startHeader buf).cells.take tsHeaderLen).length = 5 := by
  rw [List.length_take, (startHeader buf).length_cells]
  rfl

theorem patChannelRewrite_returns {r : Bool × RewriteState}
    (h : patChannelRewrite vars channel buf = .ok r) (buf' : Packet) :
    ∃ r', patChannelRewrite vars channel buf' = .ok r' := by
  rw [patChannelRewrite] at h
  simp only [bind_eq_ok] at h
  obtain ⟨dest₀, h₀, dest₁, h₁, dest, hloop, generated, hclose, -⟩ := h
  obtain ⟨dest₀', h₀', hlen₀⟩ := appendDest_returns h₀ rfl
    (show ((startHeader buf').cells.take tsHeaderLen).length = _ by
      rw [length_header_startHeader, length_header_startHeader])
  obtain ⟨dest₁', h₁', hlen₁⟩ := appendDest_returns h₁ hlen₀ rfl
  obtain ⟨dest', hloop', hlen⟩ := patPrograms_returns _ hloop hlen₁
  obtain ⟨generated', hclose'⟩ := closeSection_returns hclose hlen
  rw [patChannelRewrite]
  simp only [h₀', h₁', hloop', hclose', bind_ok]
  exact ⟨_, rfl⟩

end returns

section pat

/-- A call makes a new PAT for the channel. -/
def PatRebuilds (vars : RewriteParameters) (channel : MumudvbChannel) : Prop :=
  vars.fullPatOk = true ∧ vars.patNeedsUpdate = false ∧
    channel.generatedPatVersion ≠ vars.patVersion

/-- A call for a ready channel sends a PAT. -/
def PatSends (vars : RewriteParameters) (channel : MumudvbChannel) : Prop :=
  vars.fullPatOk = true ∧
    (vars.patNeedsUpdate = false ∨ channel.generatedPatVersion = vars.patVersion)

theorem patChannelRewrite_frame {r : Bool} (h : patChannelRewrite vars channel buf = .ok (r, st)) :
    r = true ∧ (∃ pkt, st.vars = { vars with fullPat := pkt }) ∧
      ∃ g, st.channel = { channel with generatedPat := g } ∧ SameHeader buf g := by
  obtain ⟨dest, hopen, hclose⟩ := patChannelRewrite_opened h
  obtain ⟨hsync, hscrambling⟩ := closeSection_header hopen hclose
  rw [patChannelRewrite] at h
  simp only [bind_eq_ok, pure_ok, Except.ok.injEq, Prod.mk.injEq] at h
  obtain ⟨dest₀, -, dest₁, -, dest, -, generated, -, rfl, rfl⟩ := h
  exact ⟨rfl, ⟨_, rfl⟩, generated, rfl, hsync, hscrambling⟩

theorem patCall (hready : channel.channelReady.isReady = true)
    (h : patRewriteNewChannelPacket vars channel buf = .ok (sent, st)) :
    Call vars.fullPatOk (PatSends vars channel) (PatRebuilds vars channel)
      (setCounter channel.generatedPat vars.patContinuityCounter) vars channel buf sent st := by
  rw [patRewriteNewChannelPacket] at h
  by_cases hok : vars.fullPatOk = true
  · have hnotQuiet : vars.fullPatOk ≠ false := by simp [hok]
    rw [if_pos hok] at h
    by_cases hguard : vars.patNeedsUpdate = false ∧ channel.channelReady.isReady = true ∧
        channel.generatedPatVersion ≠ vars.patVersion
    · rw [if_pos hguard, bind_eq_ok] at h
      obtain ⟨⟨r, st₁⟩, hrewrite, h⟩ := h
      rw [bind_eq_ok] at hrewrite
      obtain ⟨⟨r₀, st₀⟩, hcall, hrewrite⟩ := hrewrite
      obtain ⟨rfl, ⟨pkt, hvars⟩, g, hchannel, hheader⟩ := patChannelRewrite_frame hcall
      dsimp only at hrewrite
      rw [if_pos rfl] at hrewrite
      cases hrewrite
      dsimp only at h
      rw [if_pos rfl, if_pos (by rw [hvars])] at h
      cases h
      refine ⟨fun h => absurd h hnotQuiet, hvars ▸ .pat, ?_, ?_, fun _ _ => ?_, fun hnot => ?_⟩
      · rw [hchannel]
        exact ⟨rfl, rfl, rfl, rfl⟩
      · exact ⟨fun _ => ⟨hok, .inl hguard.1⟩, fun _ => rfl⟩
      · simp only [hchannel]
        exact hheader.withCounter _
      · exact absurd ⟨hok, hguard.1, hguard.2.2⟩ hnot
    · have hold : ¬ PatRebuilds vars channel := fun hre => hguard ⟨hre.2.1, hready, hre.2.2⟩
      rw [if_neg hguard, bind_ok] at h
      dsimp only at h
      rw [if_pos rfl] at h
      split at h
      case isTrue hsame =>
        cases h
        exact ⟨fun h => absurd h hnotQuiet, Drift.refl _, SameSettings.refl _,
          ⟨fun _ => ⟨hok, .inr hsame⟩, fun _ => rfl⟩, fun hre => absurd hre hold, fun _ _ => rfl⟩
      case isFalse hother =>
        cases h
        refine ⟨fun h => absurd h hnotQuiet, Drift.refl _, SameSettings.refl _, ?_,
          fun hre => absurd hre hold, fun _ h => by cases h⟩
        refine ⟨(fun h => by cases h), fun hsends => ?_⟩
        rcases hsends.2 with hcurrent | hsame
        · exact absurd ⟨hok, hcurrent, hother⟩ hold
        · exact absurd hsame hother
  · rw [if_neg hok] at h
    cases h
    exact ⟨fun _ => ⟨rfl, rfl⟩, Drift.refl _, SameSettings.refl _,
      ⟨fun h => (by cases h), fun h => absurd h.1 hok⟩, fun h => absurd h.1 hok,
      fun _ h => by cases h⟩

theorem patRewriteNewChannelPacket_returns {r : Bool × RewriteState}
    (h : patRewriteNewChannelPacket vars channel buf = .ok r) (buf' : Packet) :
    ∃ r', patRewriteNewChannelPacket vars channel buf' = .ok r' := by
  rw [patRewriteNewChannelPacket] at h ⊢
  by_cases hok : vars.fullPatOk = true
  · rw [if_pos hok] at h ⊢
    by_cases hguard : vars.patNeedsUpdate = false ∧ channel.channelReady.isReady = true ∧
        channel.generatedPatVersion ≠ vars.patVersion
    · rw [if_pos hguard, bind_eq_ok] at h
      obtain ⟨_, hrewrite, -⟩ := h
      rw [bind_eq_ok] at hrewrite
      obtain ⟨⟨_, _⟩, hcall, -⟩ := hrewrite
      obtain ⟨⟨r', st'⟩, hcall'⟩ := patChannelRewrite_returns hcall buf'
      obtain ⟨rfl, ⟨pkt, hvars⟩, -⟩ := patChannelRewrite_frame hcall'
      rw [if_pos hguard, hcall', bind_ok]
      dsimp only
      rw [if_pos rfl, pure_ok, bind_ok]
      dsimp only
      rw [if_pos rfl, if_pos (by rw [hvars])]
      exact ⟨_, rfl⟩
    · rw [if_neg hguard, bind_ok]
      dsimp only
      rw [if_pos rfl]
      split <;> exact ⟨_, rfl⟩
  · rw [if_neg hok]
    exact ⟨_, rfl⟩

end pat

section sdt

/-- A call makes a new SDT for the channel. -/
def SdtRebuilds (vars : RewriteParameters) (channel : MumudvbChannel) : Prop :=
  Rebuilds vars channel ∧ Announced vars channel

/-- A call for a ready channel sends an SDT. -/
def SdtSends (vars : RewriteParameters) (channel : MumudvbChannel) : Prop :=
  vars.fullSdtOk = true ∧ (channel.generatedSdtVersion = vars.sdtVersion ∨
    (Rebuilds vars channel ∧
      (Announced vars channel ∨ sdtRewriteAllSectionsSeen vars = .ok true)))

theorem Drift.rebuilds (h : Drift vars vars') : Rebuilds vars' channel ↔ Rebuilds vars channel := by
  have htable := h.table
  obtain ⟨⟨_, _, _, _, hsame⟩, -, hneeds⟩ := h
  have hstored : vars'.fullSdtOk = vars.fullSdtOk := by rw [hsame]
  have hversion : vars'.sdtVersion = vars.sdtVersion := by rw [hsame]
  constructor <;> rintro ⟨hok, hcurrent, hready, houtdated, hid, ht⟩
  · rw [htable] at ht
    refine ⟨hstored ▸ hok, ?_, hready, hversion ▸ houtdated, hid, ht⟩
    exact hneeds.elim (fun h => h ▸ hcurrent) (fun h => absurd ht h)
  · refine ⟨hstored.trans hok, ?_, hready, hversion.symm ▸ houtdated, hid, htable.trans ht⟩
    exact hneeds.elim (fun h => h.trans hcurrent) (fun h => absurd ht h)

theorem Drift.announced (h : Drift vars vars') :
    Announced vars' channel ↔ Announced vars channel := by
  rw [Announced, Announced, h.only]

theorem Drift.sdtSends (h : Drift vars vars') : SdtSends vars' channel ↔ SdtSends vars channel := by
  have hrebuilds : Rebuilds vars' channel ↔ Rebuilds vars channel := h.rebuilds
  have hannounced : Announced vars' channel ↔ Announced vars channel := h.announced
  obtain ⟨⟨_, _, _, _, hsame⟩, -, -⟩ := h
  have hseen : sdtRewriteAllSectionsSeen vars' = sdtRewriteAllSectionsSeen vars := by rw [hsame]; rfl
  rw [SdtSends, SdtSends, hrebuilds, hannounced, hseen, hsame]

theorem sdtChannelRewrite_frame {r : Bool} (h : sdtChannelRewrite vars channel buf = .ok (r, st)) :
    Drift vars st.vars ∧ st.vars.sdtContinuityCounter = vars.sdtContinuityCounter ∧
      SameSettings channel st.channel ∧
      st.channel.generatedPatVersion = channel.generatedPatVersion := by
  have honly := onlySectionAt_twice vars.fullSdt.dataFull
  unfold sdtChannelRewrite at h
  split at h
  case isTrue =>
    cases h
    exact ⟨Drift.refl _, rfl, ⟨rfl, rfl, rfl, rfl⟩, rfl⟩
  case isFalse =>
    simp only [bind_eq_ok] at h
    obtain ⟨dest₀, -, dest₁, -, h⟩ := h
    rw [onlySectionAt_zero, tableId_makeOnlySection] at h
    split at h
    case isTrue ht =>
      cases h
      exact ⟨⟨⟨_, _, _, _, rfl⟩, honly, .inr ht⟩, rfl, ⟨rfl, rfl, rfl, rfl⟩, rfl⟩
    case isFalse ht =>
      rw [bind_eq_ok] at h
      obtain ⟨search, hsearch, h⟩ := h
      cases search with
      | bug => exact absurd hsearch sdtServices_ne_bug
      | ended found dest =>
        simp only [sdtFinish, bind_eq_ok] at h
        obtain ⟨generated, -, h⟩ := h
        cases found with
        | true =>
          cases h
          exact ⟨⟨⟨_, _, _, _, rfl⟩, honly, .inl rfl⟩, rfl, ⟨rfl, rfl, rfl, rfl⟩, rfl⟩
        | false =>
          rw [if_neg Bool.false_ne_true, bind_eq_ok] at h
          obtain ⟨allSeen, -, h⟩ := h
          split at h
          · cases h
            exact ⟨⟨⟨_, _, _, _, rfl⟩, honly, .inl rfl⟩, rfl, ⟨rfl, rfl, rfl, rfl⟩, rfl⟩
          · cases h
            exact ⟨⟨⟨_, _, _, _, rfl⟩, honly, .inl rfl⟩, rfl, ⟨rfl, rfl, rfl, rfl⟩, rfl⟩

theorem sdtCall (h : sdtRewriteNewChannelPacket vars channel buf = .ok (sent, st)) :
    Call vars.fullSdtOk (SdtSends vars channel) (SdtRebuilds vars channel)
      (setCounter channel.generatedSdt vars.sdtContinuityCounter) vars channel buf sent st := by
  have hstored : vars.fullSdtOk = true → vars.fullSdtOk ≠ false := by simp
  cases sdtRewriteNewChannelPacket_spec h with
  | waits still other =>
    refine ⟨fun _ => ⟨rfl, rfl⟩, Drift.refl _, SameSettings.refl _, ⟨fun h => (by cases h), ?_⟩,
      fun hre => absurd hre.1 still, fun _ h => by cases h⟩
    rintro ⟨hok, hsame | ⟨hre, -⟩⟩
    · exact absurd hsame (other hok)
    · exact absurd hre still
  | repeats still stored same =>
    exact ⟨fun h => absurd h (hstored stored), Drift.refl _, SameSettings.refl _,
      ⟨fun _ => ⟨stored, .inl same⟩, fun _ => rfl⟩, fun hre => absurd hre.1 still, fun _ _ => rfl⟩
  | fails stored outdated rewrite =>
    obtain ⟨hdrift, -, hsettings, -⟩ := sdtChannelRewrite_frame rewrite
    refine ⟨fun h => absurd h (hstored stored), hdrift, hsettings, ⟨fun h => (by cases h), ?_⟩,
      (fun _ h => by cases h), fun _ h => by cases h⟩
    obtain ⟨-, ⟨-, -, -, hnot, -⟩ | ⟨hr, -⟩⟩ := sdtChannelRewrite_cases rewrite
    · rintro ⟨-, hsame | ⟨hre, hfound⟩⟩
      · exact absurd hsame outdated
      · exact absurd ⟨hre.serviceId, hre.actual, hfound⟩ hnot
    · cases hr
  | rebuilds due rewrite =>
    obtain ⟨hdrift, hcounter, hsettings, -⟩ := sdtChannelRewrite_frame rewrite
    obtain ⟨-, ⟨hr, -⟩ | ⟨-, -, -, -, hcase⟩⟩ := sdtChannelRewrite_cases rewrite
    · cases hr
    refine ⟨fun h => absurd h (hstored due.stored), hdrift, hsettings,
      ⟨fun _ => ⟨due.stored, .inr ⟨due, hcase.imp (fun h => h.1) (fun h => h.2.1)⟩⟩, fun _ => rfl⟩,
      fun hrebuilds _ => ?_, fun hnot _ => ?_⟩
    · rcases hcase with ⟨-, hskip, -⟩ | ⟨hnone, -⟩
      · obtain ⟨dest, hopen, hclose⟩ := sdtChannelRewrite_opened rewrite hskip
        obtain ⟨hsync, hscrambling⟩ := closeSection_header hopen hclose
        exact SameHeader.withCounter ⟨hsync, hscrambling⟩ _
      · exact absurd hrebuilds.2 hnone
    · rcases hcase with ⟨hann, -⟩ | ⟨-, -, -, hkept⟩
      · exact absurd ⟨due, hann⟩ hnot
      · dsimp only
        rw [hkept, hcounter]

/-! The same for the SDT: it copies as many bytes for another packet. -/

theorem sdtServices_returns {data : Buffer UInt8 maxTsSize} {forceEit : OptionStatus}
    {serviceId : Int} {sectionLength fuel pos : Nat} {dest dest' d : List UInt8} {found : Bool}
    (h : sdtServices fuel forceEit serviceId data sectionLength pos dest = .ok (.ended found d))
    (hdest : dest'.length = dest.length) :
    ∃ d', sdtServices fuel forceEit serviceId data sectionLength pos dest' =
      .ok (.ended found d') ∧ d'.length = d.length := by
  induction fuel generalizing pos with
  | zero => cases h
  | succ fuel ih =>
    rw [sdtServices] at h ⊢
    split at h
    case isTrue hin =>
      rw [if_pos hin]
      rw [bind_eq_ok] at h
      obtain ⟨descr, hdescr, h⟩ := h
      rw [hdescr, bind_ok]
      dsimp only at h ⊢
      split at h
      case isTrue hid =>
        rw [if_pos hid]
        rw [bind_eq_ok] at h
        obtain ⟨kept, hkept, h⟩ := h
        rw [hkept, bind_ok, hdest]
        split at h
        case isTrue hbig =>
          rw [if_pos hbig]
          exact ih h
        case isFalse hfit =>
          rw [if_neg hfit]
          split at h
          · cases h
          case isFalse hloop =>
            rw [if_neg hloop]
            rw [bind_eq_ok] at h
            obtain ⟨d₁, happ, h⟩ := h
            cases h
            obtain ⟨d₁', happ', hlen⟩ := appendDest_returns happ hdest rfl
            exact ⟨d₁', by rw [happ']; rfl, hlen⟩
      case isFalse hid =>
        rw [if_neg hid]
        exact ih h
    case isFalse hout =>
      rw [if_neg hout]
      cases h
      exact ⟨dest', rfl, hdest⟩

theorem sdtChannelRewrite_returns {r : Bool × RewriteState}
    (h : sdtChannelRewrite vars channel buf = .ok r) (hid : channel'.serviceId = channel.serviceId)
    (buf' : Packet) : ∃ r', sdtChannelRewrite vars channel' buf' = .ok r' := by
  unfold sdtChannelRewrite at h ⊢
  rw [hid]
  split at h
  case isTrue hnone =>
    rw [if_pos hnone]
    exact ⟨_, rfl⟩
  case isFalse hsome =>
    rw [if_neg hsome]
    simp only [bind_eq_ok] at h
    obtain ⟨dest₀, h₀, dest₁, h₁, h⟩ := h
    obtain ⟨dest₀', h₀', hlen₀⟩ := appendDest_returns h₀ rfl
      (show ((startHeader buf').cells.take tsHeaderLen).length = _ by
        rw [length_header_startHeader, length_header_startHeader])
    obtain ⟨dest₁', h₁', hlen₁⟩ := appendDest_returns h₁ hlen₀ rfl
    simp only [h₀', h₁', bind_ok]
    split at h
    case isTrue ht =>
      rw [if_pos ht]
      exact ⟨_, rfl⟩
    case isFalse ht =>
      rw [if_neg ht]
      rw [bind_eq_ok] at h
      obtain ⟨search, hsearch, h⟩ := h
      cases search with
      | bug => exact absurd hsearch sdtServices_ne_bug
      | ended found dest =>
        obtain ⟨dest', hsearch', hlen⟩ := sdtServices_returns hsearch hlen₁
        simp only [sdtFinish, bind_eq_ok] at h
        obtain ⟨generated, hclose, h⟩ := h
        obtain ⟨generated', hclose'⟩ := closeSection_returns hclose hlen
        simp only [hsearch', sdtFinish, hclose', bind_ok]
        cases found with
        | true => exact ⟨_, rfl⟩
        | false =>
          rw [if_neg Bool.false_ne_true, bind_eq_ok] at h
          obtain ⟨allSeen, hseen, h⟩ := h
          rw [if_neg Bool.false_ne_true, hseen, bind_ok]
          split <;> exact ⟨_, rfl⟩

theorem sdtRewriteNewChannelPacket_returns {r : Bool × RewriteState}
    (h : sdtRewriteNewChannelPacket vars channel buf = .ok r)
    (hsame : SameButPmt channel channel') (buf' : Packet) :
    ∃ r', sdtRewriteNewChannelPacket vars channel' buf' = .ok r' := by
  rw [sdtRewriteNewChannelPacket] at h ⊢
  rw [hsame.ready, hsame.generatedSdtVersion]
  by_cases hok : vars.fullSdtOk = true
  · rw [if_pos hok] at h ⊢
    by_cases hguard : vars.sdtNeedsUpdate = false ∧ channel.channelReady.isReady = true ∧
        channel.generatedSdtVersion ≠ vars.sdtVersion
    · rw [if_pos hguard, bind_eq_ok] at h
      obtain ⟨r₀, hcall, -⟩ := h
      obtain ⟨⟨r', st'⟩, hcall'⟩ := sdtChannelRewrite_returns hcall hsame.serviceId buf'
      rw [if_pos hguard, hcall', bind_ok]
      dsimp only
      split
      · split <;> exact ⟨_, rfl⟩
      · exact ⟨_, rfl⟩
    · rw [if_neg hguard, bind_ok]
      dsimp only
      rw [if_pos rfl]
      split <;> exact ⟨_, rfl⟩
  · rw [if_neg hok]
    exact ⟨_, rfl⟩

end sdt

end MuMuDVB.CallEffects
