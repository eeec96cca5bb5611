import MuMuDVB.RecordedRun
import MuMuDVB.RewriteSdt

/-!
# Runs of the SDT rewriter

The stored SDT, its version, the version each channel was generated for and
the skip flags change in four places. A run is any sequence of SDT packets for
the whole, of calls for the channels that are not skipped, and of changes of
the channels; it records what each call found, so that a generated SDT can be
traced back to the call that made it.
-/
namespace MuMuDVB.SdtRuns

open CheckedMemory RecordedRun MuMuDVB.TsHeader MuMuDVB.Ts MuMuDVB.Channel
open MuMuDVB.RewriteSection MuMuDVB.RewriteSdt

/-- The search of `sdt_channel_rewrite`, from offset `pos` on, comes to an entry of the service
whose kept descriptors fit. -/
inductive Announces (data : Buffer UInt8 maxTsSize) (serviceId : Int) : Nat → Prop where
  | here {pos : Nat} {descr kept : List UInt8} (inside : pos + sdtDescrLen < sectionLength data.cells)
      (entry : data.slice pos sdtDescrLen = .ok descr) (same : serviceId = descrServiceId descr)
      (copied : copyDescriptors (maxTsSize + 1) data (pos + sdtDescrLen)
        (descriptorsLoopLength descr) 0 [] = .ok kept)
      (fits : kept.length ≤ 162) : Announces data serviceId pos
  | later {pos : Nat} {descr : List UInt8} (inside : pos + sdtDescrLen < sectionLength data.cells)
      (entry : data.slice pos sdtDescrLen = .ok descr)
      (next : Announces data serviceId (pos + (sdtDescrLen + descriptorsLoopLength descr))) :
      Announces data serviceId pos

/-- The stored section has an entry for the service of the channel that fits. -/
def Announced (vars : RewriteParameters) (channel : MumudvbChannel) : Prop :=
  Announces (onlySectionAt vars.fullSdt.dataFull 0) channel.serviceId sdtLen

variable {vars : RewriteParameters} {channel : MumudvbChannel} {buf : Packet} {st : RewriteState}

/-- The search finds an entry exactly when there is one. -/
theorem sdtServices_found_iff {data : Buffer UInt8 maxTsSize} {forceEit : OptionStatus}
    {serviceId : Int} {fuel pos : Nat} {dest dest' : List UInt8} {found : Bool}
    (hdest : dest.length = 16)
    (h : sdtServices fuel forceEit serviceId data (sectionLength data.cells) pos dest =
      .ok (.ended found dest')) : found = true ↔ Announces data serviceId pos := by
  induction fuel generalizing pos with
  | zero => cases h
  | succ fuel ih =>
    rw [sdtServices] at h
    split at h
    case isTrue hin =>
      rw [bind_eq_ok] at h
      obtain ⟨descr, hdescr, h⟩ := h
      simp only at h
      split at h
      case isTrue hid =>
        rw [bind_eq_ok] at h
        obtain ⟨kept, hkept, h⟩ := h
        split at h
        case isTrue hbig =>
          rw [ih h]
          refine ⟨.later hin hdescr, fun hann => ?_⟩
          cases hann with
          | here _ entry same copied fits =>
            rw [hdescr] at entry
            cases entry
            rw [hkept] at copied
            cases copied
            simp only [tsPacketSize, sdtDescrLen] at hbig
            omega
          | later _ entry next =>
            rw [hdescr] at entry
            cases entry
            exact next
        case isFalse hfit =>
          split at h
          · cases h
          · rw [bind_eq_ok] at h
            obtain ⟨dest₁, happ, h⟩ := h
            cases h
            refine ⟨fun _ => .here hin hdescr hid hkept ?_, fun _ => rfl⟩
            simp only [tsPacketSize, sdtDescrLen] at hfit
            omega
      case isFalse hid =>
        rw [ih h]
        refine ⟨.later hin hdescr, fun hann => ?_⟩
        cases hann with
        | here _ entry same _ _ =>
          rw [hdescr] at entry
          cases entry
          exact absurd same hid
        | later _ entry next =>
          rw [hdescr] at entry
          cases entry
          exact next
    case isFalse hout =>
      cases h
      refine ⟨(fun h => by cases h), fun hann => ?_⟩
      cases hann with
      | here inside => exact absurd inside hout
      | later inside => exact absurd inside hout

theorem or_one_div_two (x : UInt8) : (x ||| 1).toNat / 2 = x.toNat / 2 := by
  have h := Nat.or_div_two_pow (a := x.toNat) (b := 1) (n := 1)
  rw [UInt8.toNat_or]
  simpa using h

theorem versionNumber_makeOnlySection {s : List UInt8} (hlen : 8 ≤ s.length) :
    versionNumber (makeOnlySection s) = versionNumber s := by
  rw [versionNumber, current_makeOnlySection hlen, or_one_div_two, versionNumber]

theorem tableId_makeOnlySection (s : List UInt8) : tableId (makeOnlySection s) = tableId s :=
  byteAt_makeOnlySection (by decide) (by decide) (by decide)

/-- The version of a section that was built behind the header of another one. -/
theorem versionNumber_sectionOf {header s dest : List UInt8} {p : Packet} (h5 : header.length = 5)
    (hs : 11 ≤ s.length) (hpre : header ++ (makeOnlySection s).take 11 <+: dest)
    (hclose : closeSection dest = .ok p) : versionNumber (sectionOf p) = versionNumber s := by
  have htake : ((makeOnlySection s).take 11).length = 11 := by
    rw [List.length_take, length_makeOnlySection]
    omega
  have hbyte := @byteAt_append_right header ((makeOnlySection s).take 11) 5
  rw [h5, byteAt_take (by decide)] at hbyte
  obtain ⟨rest, rfl⟩ := hpre
  rw [versionNumber, byteAt_sectionOf (by rw [List.length_append, List.length_append]; omega)
    hclose (by decide) (by decide), byteAt_append_left (by rw [List.length_append]; omega), hbyte]
  exact versionNumber_makeOnlySection (by omega)

/-- The sanity check of the search never fails. -/
theorem sdtServices_ne_bug {data : Buffer UInt8 maxTsSize} {forceEit : OptionStatus}
    {serviceId : Int} {sectionLength fuel pos : Nat} {dest : List UInt8} :
    sdtServices fuel forceEit serviceId data sectionLength pos dest ≠ .ok .bug := by
  intro h
  induction fuel generalizing pos with
  | zero => cases h
  | succ fuel ih =>
    rw [sdtServices] at h
    split at h
    · rw [bind_eq_ok] at h
      obtain ⟨descr, hdescr, h⟩ := h
      simp only at h
      split at h
      · rw [bind_eq_ok] at h
        obtain ⟨kept, -, h⟩ := h
        split at h
        · exact ih h
        case isFalse hfit =>
          split at h
          case isTrue hne =>
            refine hne (descriptorsLoopLength_set ?_ ?_)
            · rw [Buffer.slice] at hdescr
              split at hdescr
              case isTrue hin =>
                cases hdescr
                simp only [maxTsSize, sdtDescrLen] at hin
                rw [List.length_take, List.length_drop, data.length_cells]
                simp only [maxTsSize, sdtDescrLen]
                omega
              case isFalse => cases hdescr
            · simp only [tsPacketSize, sdtDescrLen] at hfit
              omega
          case isFalse =>
            rw [bind_eq_ok] at h
            obtain ⟨dest₁, -, h⟩ := h
            cases h
      · exact ih h
    · cases h

/-- What a call of `sdt_channel_rewrite` does to the channel: nothing, a new SDT, or a new version
for the old one. -/
theorem sdtChannelRewrite_cases {r : Bool} (h : sdtChannelRewrite vars channel buf = .ok (r, st)) :
    (st.vars.sdtVersion = vars.sdtVersion ∧ st.vars.fullSdtOk = vars.fullSdtOk) ∧
    ((r = false ∧ st.channel.generatedSdt = channel.generatedSdt ∧
      st.channel.generatedSdtVersion = channel.generatedSdtVersion ∧
      ¬ (channel.serviceId ≠ 0 ∧ tableId vars.fullSdt.dataFull.cells = 0x42 ∧
        (Announced vars channel ∨ sdtRewriteAllSectionsSeen vars = .ok true)) ∧
      (channel.serviceId ≠ 0 → st.channel = channel)) ∨
    (r = true ∧ channel.serviceId ≠ 0 ∧ tableId vars.fullSdt.dataFull.cells = 0x42 ∧
      st.channel.generatedSdtVersion = vars.sdtVersion ∧
      ((Announced vars channel ∧ st.channel.sdtRewriteSkip = false ∧
        versionNumber (sectionOf st.channel.generatedSdt) =
          versionNumber vars.fullSdt.dataFull.cells) ∨
      (¬ Announced vars channel ∧ sdtRewriteAllSectionsSeen vars = .ok true ∧
        st.channel.sdtRewriteSkip = true ∧
        st.channel.generatedSdt = channel.generatedSdt)))) := by
  unfold sdtChannelRewrite at h
  split at h
  case isTrue hid =>
    cases h
    exact ⟨⟨rfl, rfl⟩, .inl ⟨rfl, rfl, rfl, fun hc => hc.1 hid, fun h => absurd hid h⟩⟩
  case isFalse hid =>
    simp only [bind_eq_ok] at h
    obtain ⟨dest₀, h₀, dest₁, h₁, h⟩ := h
    have hcells := vars.fullSdt.dataFull.length_cells
    have hbuf := (startHeader buf).length_cells
    simp only [maxTsSize] at hcells
    have h5 : dest₀.length = 5 := by
      unfold appendDest at h₀
      split at h₀ <;> cases h₀
      rw [List.nil_append, List.length_take, hbuf]
      rfl
    have hdest : dest₁ = dest₀ ++ (makeOnlySection vars.fullSdt.dataFull.cells).take 11 := by
      unfold appendDest at h₁
      split at h₁ <;> cases h₁
      rw [onlySectionAt_zero]
    have h16 : dest₁.length = 16 := by
      rw [hdest, List.length_append, List.length_take, length_makeOnlySection]
      omega
    rw [onlySectionAt_zero, tableId_makeOnlySection] at h
    split at h
    case isTrue ht =>
      cases h
      exact ⟨⟨rfl, rfl⟩, .inl ⟨rfl, rfl, rfl, fun hc => ht hc.2.1, fun _ => rfl⟩⟩
    case isFalse ht =>
      rw [not_not] at ht
      rw [bind_eq_ok] at h
      obtain ⟨search, hsearch, h⟩ := h
      cases search with
      | bug => exact absurd hsearch sdtServices_ne_bug
      | ended found dest =>
        have hlen : sectionLength vars.fullSdt.dataFull.cells =
            sectionLength (onlySectionAt vars.fullSdt.dataFull 0).cells := by
          rw [onlySectionAt_zero, sectionLength, sectionLength,
            byteAt_makeOnlySection (by decide) (by decide) (by decide),
            byteAt_makeOnlySection (by decide) (by decide) (by decide)]
        rw [hlen] at hsearch
        have hfound := sdtServices_found_iff h16 hsearch
        simp only [sdtFinish, bind_eq_ok] at h
        obtain ⟨p, hclose, h⟩ := h
        cases found with
        | true =>
          cases h
          refine ⟨⟨rfl, rfl⟩, .inr ⟨rfl, hid, ht, rfl, .inl ⟨hfound.mp rfl, rfl, ?_⟩⟩⟩
          exact versionNumber_sectionOf h5 (by omega) (hdest ▸ sdtServices_extends hsearch) hclose
        | false =>
          have hnone : ¬ Announced vars channel := fun h => by cases hfound.mpr h
          rw [if_neg Bool.false_ne_true, bind_eq_ok] at h
          obtain ⟨allSeen, hseen, h⟩ := h
          split at h
          case isTrue hall =>
            cases h
            subst hall
            exact ⟨⟨rfl, rfl⟩, .inr ⟨rfl, hid, ht, rfl, .inr ⟨hnone, hseen, rfl, rfl⟩⟩⟩
          case isFalse hall =>
            cases h
            refine ⟨⟨rfl, rfl⟩, .inl ⟨rfl, rfl, rfl, fun hc => ?_, fun _ => rfl⟩⟩
            rcases hc.2.2 with hann | hseen'
            · exact hnone hann
            · have hsame : sdtRewriteAllSectionsSeen vars = .ok allSeen := hseen
              rw [hsame] at hseen'
              cases hseen'
              exact hall rfl

structure SdtState where
  vars : RewriteParameters
  channels : List MumudvbChannel

/-- What happens: an SDT packet for the whole, a call for a channel with what it finds, a change
of the other settings of a channel, or a channel that starts anew. -/
inductive Event where
  | global (mem : TableMemory)
  | packet (i : Nat) (vars : RewriteParameters) (channel : MumudvbChannel) (buf : Packet)
  | configure (i : Nat)
  | init (i : Nat)

/-- Two states of a channel that agree in what the SDT rewriter reads and writes there; the
readiness of the channel is free. -/
structure SameSdt (channel channel' : MumudvbChannel) : Prop where
  serviceId : channel'.serviceId = channel.serviceId
  generatedSdt : channel'.generatedSdt = channel.generatedSdt
  version : channel'.generatedSdtVersion = channel.generatedSdtVersion
  skip : channel'.sdtRewriteSkip = channel.sdtRewriteSkip

/-- After an update every channel is tried again. -/
def clearSkips (updated : Bool) (channels : List MumudvbChannel) : List MumudvbChannel :=
  if updated then channels.map (fun channel => { channel with sdtRewriteSkip := false })
  else channels

inductive Step : SdtState → Event → SdtState → Prop where
  | global {s : SdtState} {mem : TableMemory} {updated : Bool} {vars : RewriteParameters}
      (call : sdtRewriteNewGlobalPacket mem s.vars = .ok (updated, vars)) :
      Step s (.global mem) ⟨vars, clearSkips updated s.channels⟩
  | packet {s : SdtState} {i : Nat} {channel : MumudvbChannel} {buf : Packet} {sent : Bool}
      {st : RewriteState} (found : s.channels[i]? = some channel)
      (active : channel.sdtRewriteSkip = false)
      (call : sdtRewriteNewChannelPacket s.vars channel buf = .ok (sent, st)) :
      Step s (.packet i s.vars channel buf) ⟨st.vars, s.channels.set i st.channel⟩
  | configure {s : SdtState} {i : Nat} {channel channel' : MumudvbChannel}
      (found : s.channels[i]? = some channel) (same : SameSdt channel channel') :
      Step s (.configure i) ⟨s.vars, s.channels.set i channel'⟩
  | restart {s : SdtState} {i : Nat} {channel : MumudvbChannel}
      (found : s.channels[i]? = some channel) :
      Step s (.init i) ⟨s.vars, s.channels.set i (mumuInitChan channel)⟩
  | add {s : SdtState} (serviceId : Int) :
      Step s (.init s.channels.length)
        ⟨s.vars, s.channels ++ [mumuInitChan { zeroedChannel with serviceId := serviceId }]⟩

/-- The start: no SDT is stored, the channels are zeroed and initialised. -/
structure Initial (s : SdtState) : Prop where
  vars : ∃ forceEit, s.vars = { initRewrV with rewriteSdt := .on, sdtForceEit := forceEit }
  channels : ∀ channel ∈ s.channels, SameSdt
    (mumuInitChan { zeroedChannel with serviceId := channel.serviceId }) channel

def sdtSystem : System SdtState Event := ⟨Initial, Step⟩

/-- The call builds a new SDT for the channel. -/
structure Rebuilds (vars : RewriteParameters) (channel : MumudvbChannel) : Prop where
  stored : vars.fullSdtOk = true
  current : vars.sdtNeedsUpdate = false
  ready : channel.channelReady.isReady = true
  outdated : channel.generatedSdtVersion ≠ vars.sdtVersion
  serviceId : channel.serviceId ≠ 0
  actual : tableId vars.fullSdt.dataFull.cells = 0x42

/-- The condition on a call: when it builds a new SDT and the search will not wait for other
sections, the stored section has the current version and announces the service. -/
def Sound (vars : RewriteParameters) (channel : MumudvbChannel) : Prop :=
  Rebuilds vars channel → Announced vars channel ∨ sdtRewriteAllSectionsSeen vars = .ok true →
    Announced vars channel ∧
      (versionNumber vars.fullSdt.dataFull.cells : Int) = vars.sdtVersion

def Event.Sound : Event → Prop
  | .packet _ vars channel _ => SdtRuns.Sound vars channel
  | _ => True

/-- The runs in which every call meets the condition. -/
def soundSystem : System SdtState Event := sdtSystem.restrict fun _ e => e.Sound

/-- The event is a successful `sdt_channel_rewrite` for channel `i`, which makes packet `p` from
a section of version `v`. -/
def Event.Produces : Event → Nat → Nat → Packet → Prop
  | .packet j vars channel buf, i, v, p => j = i ∧ Rebuilds vars channel ∧
      ∃ st, sdtChannelRewrite vars channel buf = .ok (true, st) ∧
        st.channel.sdtRewriteSkip = false ∧ st.channel.generatedSdt = p ∧
        versionNumber vars.fullSdt.dataFull.cells = v
  | _, _, _, _ => False

/-- Packet `p` was produced for the channel that is now in slot `i`. -/
def Produced : List Event → Nat → Nat → Packet → Prop
  | [], _, _, _ => False
  | e :: past, i, v, p => e.Produces i v p ∨ (e ≠ .init i ∧ Produced past i v p)

/-- What the claim says of a call that returns 1: the packet is the generated SDT with the
continuity counter, made for this channel from the current version. -/
def UpToDate (past : List Event) (i : Nat) (st : RewriteState) : Prop :=
  st.buf = setCounter st.channel.generatedSdt st.vars.sdtContinuityCounter ∧
    ∃ v : Nat, st.vars.sdtVersion = v ∧ Produced past i v st.channel.generatedSdt

/-- What holds of a channel in a run whose calls meet the condition. -/
def Inv (past : List Event) (i : Nat) (channel : MumudvbChannel) : Prop :=
  (channel.generatedSdtVersion = -1 ∧ ∀ v p, ¬ Produced past i v p) ∨
    ∃ v : Nat, channel.generatedSdtVersion = v ∧ Produced past i v channel.generatedSdt

variable {past : List Event} {i : Nat} {e : Event} {p : Packet} {channel' : MumudvbChannel}

theorem produces_version {v : Nat} (h : e.Produces i v p) : versionNumber (sectionOf p) = v := by
  cases e with
  | packet j vars channel buf =>
    obtain ⟨-, -, st, hcall, hskip, rfl, rfl⟩ := h
    obtain ⟨-, ⟨hr, -⟩ | ⟨-, -, -, -, ⟨-, -, hversion⟩ | ⟨-, -, hskip', -⟩⟩⟩ :=
      sdtChannelRewrite_cases hcall
    · cases hr
    · exact hversion
    · rw [hskip] at hskip'
      cases hskip'
  | global => cases h
  | configure => cases h
  | init => cases h

/-- A packet shows the version it was produced from. -/
theorem produced_version {v : Nat} (h : Produced past i v p) :
    versionNumber (sectionOf p) = v := by
  induction past with
  | nil => cases h
  | cons e past ih =>
    rcases h with h | ⟨-, h⟩
    · exact produces_version h
    · exact ih h

/-- An event that produces nothing for the channel, which keeps its SDT. -/
theorem Inv.keep (h : Inv past i channel) (hinit : e ≠ .init i)
    (hnone : ∀ v p, ¬ e.Produces i v p)
    (hversion : channel'.generatedSdtVersion = channel.generatedSdtVersion)
    (hsdt : channel'.generatedSdt = channel.generatedSdt) : Inv (e :: past) i channel' := by
  rcases h with ⟨hold, hno⟩ | ⟨v, hold, hproduced⟩
  · refine .inl ⟨by rw [hversion, hold], fun v p hp => ?_⟩
    rcases hp with hp | ⟨-, hp⟩
    · exact hnone v p hp
    · exact hno v p hp
  · exact .inr ⟨v, by rw [hversion, hold], .inr ⟨hinit, by rw [hsdt]; exact hproduced⟩⟩

/-- What a call for a channel does: it leaves the channel and does not send, it sends the packet that
the channel has, or it runs `sdt_channel_rewrite`, in vain or with a new packet to send. -/
inductive ChannelPacket (vars : RewriteParameters) (channel : MumudvbChannel) (buf : Packet) :
    Bool → RewriteState → Prop where
  | waits (still : ¬ Rebuilds vars channel)
      (other : vars.fullSdtOk = true → channel.generatedSdtVersion ≠ vars.sdtVersion) :
      ChannelPacket vars channel buf false ⟨vars, channel, buf⟩
  | repeats (still : ¬ Rebuilds vars channel) (stored : vars.fullSdtOk = true)
      (same : channel.generatedSdtVersion = vars.sdtVersion) :
      ChannelPacket vars channel buf true
        ⟨vars, channel, setCounter channel.generatedSdt vars.sdtContinuityCounter⟩
  | fails {st : RewriteState} (stored : vars.fullSdtOk = true)
      (outdated : channel.generatedSdtVersion ≠ vars.sdtVersion)
      (rewrite : sdtChannelRewrite vars channel buf = .ok (false, st)) :
      ChannelPacket vars channel buf false st
  | rebuilds {st : RewriteState} (due : Rebuilds vars channel)
      (rewrite : sdtChannelRewrite vars channel buf = .ok (true, st)) :
      ChannelPacket vars channel buf true
        { st with buf := setCounter st.channel.generatedSdt st.vars.sdtContinuityCounter }

theorem sdtRewriteNewChannelPacket_spec {sent : Bool}
    (h : sdtRewriteNewChannelPacket vars channel buf = .ok (sent, st)) :
    ChannelPacket vars channel buf sent st := by
  rw [sdtRewriteNewChannelPacket] at h
  by_cases hok : vars.fullSdtOk = true
  · rw [if_pos hok] at h
    by_cases hguard : vars.sdtNeedsUpdate = false ∧ channel.channelReady.isReady = true ∧
        channel.generatedSdtVersion ≠ vars.sdtVersion
    · rw [if_pos hguard, bind_eq_ok] at h
      obtain ⟨⟨r, st₀⟩, hcall, h⟩ := h
      cases r with
      | false =>
        cases h
        exact .fails hok hguard.2.2 hcall
      | true =>
        obtain ⟨⟨hversion, -⟩, ⟨hr, -⟩ | ⟨-, hid, ht, hgenerated, -⟩⟩ := sdtChannelRewrite_cases hcall
        · cases hr
        · dsimp only at h
          rw [if_pos rfl, if_pos (by rw [hgenerated, hversion])] at h
          cases h
          exact .rebuilds ⟨hok, hguard.1, hguard.2.1, hguard.2.2, hid, ht⟩ hcall
    · have hstill : ¬ Rebuilds vars channel := fun hre =>
        hguard ⟨hre.current, hre.ready, hre.outdated⟩
      rw [if_neg hguard, bind_ok] at h
      dsimp only at h
      rw [if_pos rfl] at h
      split at h
      case isTrue hsame =>
        cases h
        exact .repeats hstill hok hsame
      case isFalse hother =>
        cases h
        exact .waits hstill fun _ => hother
  · rw [if_neg hok] at h
    cases h
    exact .waits (fun hre => hok hre.stored) fun h => absurd h hok

/-- A call that meets the condition keeps the invariant of its channel. -/
theorem Inv.call {sent : Bool} (h : Inv past i channel) (hsound : Sound vars channel)
    (hcall : sdtRewriteNewChannelPacket vars channel buf = .ok (sent, st)) :
    Inv (.packet i vars channel buf :: past) i st.channel := by
  cases sdtRewriteNewChannelPacket_spec hcall with
  | waits still | repeats still =>
    exact h.keep (fun h => by cases h) (fun v p hp => still hp.2.1) rfl rfl
  | fails _ _ rewrite =>
    obtain ⟨-, ⟨-, hsdt, hversion, -⟩ | ⟨hr, -⟩⟩ := sdtChannelRewrite_cases rewrite
    · refine h.keep (fun h => by cases h) (fun v p hp => ?_) hversion hsdt
      obtain ⟨-, -, st', hsuccess, -⟩ := hp
      rw [rewrite] at hsuccess
      cases hsuccess
    · cases hr
  | @rebuilds st₀ due rewrite =>
    obtain ⟨-, ⟨hr, -⟩ | ⟨-, -, -, hversion, hcase⟩⟩ := sdtChannelRewrite_cases rewrite
    · cases hr
    · have hseen : Announced vars channel ∨ sdtRewriteAllSectionsSeen vars = .ok true :=
        hcase.imp (fun h => h.1) (fun h => h.2.1)
      obtain ⟨hann, hstored⟩ := hsound due hseen
      rcases hcase with ⟨-, hskip, -⟩ | ⟨hnone, -⟩
      · refine .inr ⟨versionNumber vars.fullSdt.dataFull.cells, by rw [hversion, hstored], .inl ?_⟩
        exact ⟨rfl, due, st₀, rewrite, hskip, rfl, rfl⟩
      · exact absurd hann hnone

/-- Only versions of sections are stored. -/
def VersionStored (vars : RewriteParameters) : Prop :=
  vars.fullSdtOk = true → ∃ v : Nat, vars.sdtVersion = v

theorem versionStored_loop (fuel : Nat) : ∀ {buf : Option Packet} {vars vars' : RewriteParameters}
    {updated : Bool}, VersionStored vars → sdtGlobalLoop fuel buf vars = .ok (updated, vars') →
    VersionStored vars' := by
  induction fuel with
  | zero =>
    intro buf vars vars' updated _ h
    cases h
  | succ fuel ih =>
    intro buf vars vars' updated hstored h
    rw [sdtGlobalLoop, bind_eq_ok] at h
    obtain ⟨⟨avail, fullSdt⟩, -, h⟩ := h
    dsimp only at h
    split at h
    · split at h
      · exact ih (show VersionStored { vars with fullSdt := fullSdt } from hstored) h
      · split at h
        · cases h
          exact hstored
        · rw [bind_eq_ok] at h
          obtain ⟨seen, -, h⟩ := h
          split at h
          · cases h
            exact fun _ => ⟨_, rfl⟩
          · cases h
            exact fun _ => ⟨_, rfl⟩
    · cases h
      exact hstored

theorem versionStored_global {mem : TableMemory} {vars' : RewriteParameters} {updated : Bool}
    (hstored : VersionStored vars)
    (h : sdtRewriteNewGlobalPacket mem vars = .ok (updated, vars')) : VersionStored vars' := by
  rw [sdtRewriteNewGlobalPacket, bind_eq_ok] at h
  obtain ⟨vars₁, hfirst, h⟩ := h
  rw [bind_eq_ok] at h
  obtain ⟨⟨updated₂, vars₂⟩, hloop, h⟩ := h
  have h₁ : VersionStored vars₁ := by
    split at hfirst
    · cases hfirst
      exact hstored
    · rw [bind_eq_ok] at hfirst
      obtain ⟨needsUpdate, -, hfirst⟩ := hfirst
      split at hfirst <;> cases hfirst <;> exact hstored
  have h₂ : VersionStored vars₂ := by
    split at hloop
    · exact versionStored_loop _ h₁ hloop
    · cases hloop
      exact h₁
  dsimp only at h
  split at h
  · cases h
    exact h₂
  · cases h
    exact h₂

theorem versionStored_call {sent : Bool} (hstored : VersionStored vars)
    (hcall : sdtRewriteNewChannelPacket vars channel buf = .ok (sent, st)) :
    VersionStored st.vars := by
  cases sdtRewriteNewChannelPacket_spec hcall with
  | waits | repeats => exact hstored
  | fails _ _ rewrite | rebuilds _ rewrite =>
    obtain ⟨⟨hversion, hok⟩, -⟩ := sdtChannelRewrite_cases rewrite
    rw [VersionStored, hversion, hok]
    exact hstored

/-- What holds in every run whose calls meet the condition. -/
structure RunInv (past : List Event) (s : SdtState) : Prop where
  stored : VersionStored s.vars
  channels : ∀ i channel, s.channels[i]? = some channel → Inv past i channel

/-- A channel that starts anew has no SDT. -/
theorem Inv.fresh (hversion : channel.generatedSdtVersion = -1) :
    Inv (.init i :: past) i channel := by
  refine .inl ⟨hversion, fun v p hp => ?_⟩
  rcases hp with hp | ⟨hp, -⟩
  · exact hp
  · exact hp rfl

theorem runInv_initial {s : SdtState} (h : Initial s) : RunInv [] s := by
  obtain ⟨forceEit, hvars⟩ := h.vars
  refine ⟨fun hok => ?_, fun i channel hfound => ?_⟩
  · rw [hvars] at hok
    cases hok
  · exact .inl ⟨(h.channels channel (List.mem_of_getElem? hfound)).version, fun v p hp => hp⟩

theorem RunInv.step {s s' : SdtState} (h : RunInv past s) (hstep : soundSystem.Step s e s') :
    RunInv (e :: past) s' := by
  obtain ⟨hsound, hstep⟩ := hstep
  cases hstep with
  | @global mem updated vars call =>
    have hget : ∀ i : Nat, (clearSkips updated s.channels)[i]? = (s.channels[i]?).map fun channel =>
        if updated then { channel with sdtRewriteSkip := false } else channel := by
      intro i
      cases updated <;> simp [clearSkips]
    refine ⟨versionStored_global h.stored call, fun i channel hfound => ?_⟩
    rw [hget, Option.map_eq_some_iff] at hfound
    obtain ⟨before, hbefore, rfl⟩ := hfound
    refine (h.channels i before hbefore).keep (by simp) (fun v p hp => hp) ?_ ?_ <;>
      cases updated <;> rfl
  | @packet j before buf sent st found active call =>
    exact ⟨versionStored_call h.stored call,
      forall_set found ((h.channels _ _ found).call hsound call)
        fun i channel hij hfound => (h.channels i channel hfound).keep (by simp)
          (fun v p hp => hij hp.1) rfl rfl⟩
  | @configure j before after found same =>
    exact ⟨h.stored,
      forall_set found ((h.channels _ _ found).keep (by simp) (fun v p hp => hp) same.version
          same.generatedSdt)
        fun i channel hij hfound => (h.channels i channel hfound).keep (by simp)
          (fun v p hp => hp) rfl rfl⟩
  | @restart j before found =>
    exact ⟨h.stored, forall_set found (Inv.fresh rfl) fun i channel hij hfound =>
      (h.channels i channel hfound).keep (by simpa using hij) (fun v p hp => hp) rfl rfl⟩
  | add serviceId =>
    refine ⟨h.stored, fun i channel hfound => ?_⟩
    rcases Nat.lt_trichotomy i s.channels.length with hlt | heq | hgt
    · rw [List.getElem?_append_left hlt] at hfound
      exact (h.channels i channel hfound).keep (by simp; omega) (fun v p hp => hp) rfl rfl
    · subst heq
      rw [List.getElem?_concat_length] at hfound
      cases hfound
      exact Inv.fresh rfl
    · rw [List.getElem?_eq_none (by simp; omega)] at hfound
      cases hfound

theorem runInv {s : SdtState} (hrun : Run soundSystem past s) : RunInv past s :=
  hrun.invariant (fun _ => runInv_initial) (fun _ _ _ _ h => h.step)

/-- In every run whose earlier calls meet the condition, a call that returns 1 leaves in the packet
the SDT of the current version, made for this channel, exactly when it meets the condition too. -/
theorem sdtRewriteNewChannelPacket_upToDate_iff {s : SdtState} (hrun : Run soundSystem past s)
    (hfound : s.channels[i]? = some channel)
    (hcall : sdtRewriteNewChannelPacket s.vars channel buf = .ok (true, st)) :
    UpToDate (.packet i s.vars channel buf :: past) i st ↔ Sound s.vars channel := by
  have hinv := (runInv hrun).channels i channel hfound
  cases sdtRewriteNewChannelPacket_spec hcall with
  | repeats still stored same =>
    refine ⟨fun _ hre => absurd hre still, fun _ => ⟨rfl, ?_⟩⟩
    obtain ⟨v, hv⟩ := (runInv hrun).stored stored
    rcases hinv with ⟨hold, -⟩ | ⟨w, hold, hproduced⟩
    · omega
    · exact ⟨w, by rw [← hold, same], .inr ⟨fun h => (by cases h), hproduced⟩⟩
  | @rebuilds st₀ due rewrite =>
    obtain ⟨⟨hversion, -⟩, ⟨hr, -⟩ | ⟨-, -, -, hgenerated, hcase⟩⟩ := sdtChannelRewrite_cases rewrite
    · cases hr
    rcases hcase with ⟨hann, hskip, hshown⟩ | ⟨hnone, hseen, hskip, hsdt⟩
    · constructor
      · rintro ⟨-, v, hv, hproduced⟩ - -
        refine ⟨hann, ?_⟩
        rw [← hshown, produced_version hproduced, ← hversion, hv]
      · intro hsound
        obtain ⟨-, hstored⟩ := hsound due (.inl hann)
        refine ⟨rfl, _, by rw [hversion, ← hstored], .inl ?_⟩
        exact ⟨rfl, due, st₀, rewrite, hskip, rfl, rfl⟩
    · refine ⟨fun hup => ?_, fun hsound => absurd (hsound due (.inr hseen)).1 hnone⟩
      obtain ⟨-, v, hv, hproduced⟩ := hup
      rw [hsdt] at hproduced
      rw [hversion] at hv
      rcases hproduced with ⟨-, -, st', hsuccess, hfalse, -⟩ | ⟨-, hproduced⟩
      · rw [rewrite] at hsuccess
        cases hsuccess
        rw [hskip] at hfalse
        cases hfalse
      · rcases hinv with ⟨-, hno⟩ | ⟨w, hold, hmade⟩
        · exact absurd hproduced (hno v _)
        · have hvw : w = v := by rw [← produced_version hmade, produced_version hproduced]
          exact absurd (by rw [hold, hv, hvw]) due.outdated

/-- The first packet of an SDT with service 1 only. -/
def tvMemory : TableMemory :=
  ⟨[0x47, 0x40, 0x11, 0x10, 0x00] ++ tvSdt.bytes ++ List.replicate 164 0xff, by decide +kernel⟩

/-- A ready channel for a service. -/
def readyFor (serviceId : Int) : MumudvbChannel :=
  mumuInitChan { zeroedChannel with channelReady := .ready, serviceId := serviceId }

def startFor (serviceId : Int) : SdtState :=
  ⟨{ initRewrV with rewriteSdt := .on, sdtForceEit := .undefined }, [readyFor serviceId]⟩

theorem startFor_initial (serviceId : Int) : Initial (startFor serviceId) := by
  refine ⟨⟨.undefined, rfl⟩, fun channel hchannel => ?_⟩
  rw [List.mem_singleton.mp hchannel]
  exact ⟨rfl, rfl, rfl, rfl⟩

/-- The SDT is stored when its second packet comes; then the channel gets a packet. -/
def storeAndCall (serviceId : Int) : Checked (Bool × RewriteState) := do
  let (_, vars) ← sdtRewriteNewGlobalPacket tvMemory (startFor serviceId).vars
  let (_, vars) ← sdtRewriteNewGlobalPacket tvMemory vars
  sdtRewriteNewChannelPacket vars (readyFor serviceId) tvMemory.packet

/-- The two SDT packets. -/
def storing : List Event := [.global tvMemory, .global tvMemory]

theorem storeAndCall_run {serviceId : Int} {sent : Bool}
    (h : storeAndCall serviceId = .ok (sent, st)) :
    ∃ s, Run soundSystem storing s ∧ s.channels[0]? = some (readyFor serviceId) ∧
      sdtRewriteNewChannelPacket s.vars (readyFor serviceId) tvMemory.packet = .ok (sent, st) := by
  obtain ⟨⟨updated₁, vars₁⟩, hglobal₁, h₁⟩ := bind_eq_ok.mp h
  obtain ⟨⟨updated₂, vars₂⟩, hglobal₂, hcall⟩ := bind_eq_ok.mp h₁
  have hrun₁ : Run soundSystem [.global tvMemory]
      ⟨vars₁, clearSkips updated₁ (startFor serviceId).channels⟩ :=
    .next (.start (startFor_initial serviceId))
      ⟨trivial, .global hglobal₁⟩
  have hrun₂ : Run soundSystem storing
      ⟨vars₂, clearSkips updated₂ (clearSkips updated₁ (startFor serviceId).channels)⟩ :=
    .next hrun₁ ⟨trivial, .global hglobal₂⟩
  refine ⟨_, hrun₂, ?_, hcall⟩
  cases updated₁ <;> cases updated₂ <;> rfl

theorem upToDate_tv : ∃ s st, Run soundSystem storing s ∧
    s.channels[0]? = some (readyFor 1) ∧
    sdtRewriteNewChannelPacket s.vars (readyFor 1) tvMemory.packet = .ok (true, st) ∧
    (UpToDate (.packet 0 s.vars (readyFor 1) tvMemory.packet :: storing) 0 st ↔
      Sound s.vars (readyFor 1)) := by
  have h : (storeAndCall 1).map (fun r => r.1) = .ok true := by decide +kernel
  obtain ⟨⟨sent, st⟩, hcall, rfl⟩ := map_eq_ok h
  obtain ⟨s, hrun, hfound, hcall⟩ := storeAndCall_run hcall
  exact ⟨s, st, hrun, hfound, hcall, sdtRewriteNewChannelPacket_upToDate_iff hrun hfound hcall⟩

/-- A channel for service 2 gets a packet of zeros. -/
theorem not_upToDate_tv : ∃ s st, Run sdtSystem storing s ∧
    s.channels[0]? = some (readyFor 2) ∧
    sdtRewriteNewChannelPacket s.vars (readyFor 2) tvMemory.packet = .ok (true, st) ∧
    st.buf = setCounter zeroPacket 1 ∧
    ¬ UpToDate (.packet 0 s.vars (readyFor 2) tvMemory.packet :: storing) 0 st := by
  have h : (storeAndCall 2).map (fun r => (r.1, r.2.channel.sdtRewriteSkip,
      r.2.buf == setCounter zeroPacket 1)) = .ok (true, true, true) := by decide +kernel
  obtain ⟨⟨sent, st⟩, hcall, hvalues⟩ := map_eq_ok h
  simp only [Prod.mk.injEq, beq_iff_eq] at hvalues
  obtain ⟨rfl, hskip, hbuf⟩ := hvalues
  obtain ⟨s, hrun, hfound, hcall⟩ := storeAndCall_run hcall
  refine ⟨s, st, hrun.of_restrict, hfound, hcall, hbuf, ?_⟩
  rintro ⟨-, v, -, ⟨-, hre, st', hsuccess, hactive, -⟩ | ⟨-, hlater⟩⟩
  · cases sdtRewriteNewChannelPacket_spec hcall with
    | repeats still => exact still hre
    | rebuilds _ rewrite =>
      rw [rewrite] at hsuccess
      cases hsuccess
      rw [hskip] at hactive
      cases hactive
  · obtain hlater | ⟨-, hlater | ⟨-, hlater⟩⟩ := hlater <;> cases hlater

end MuMuDVB.SdtRuns
