import MuMuDVB.CallEffects
import MuMuDVB.CounterTrace
import MuMuDVB.PatStore

/-!
# The continuity counters of the rewritten tables

One counter for the PAT and one for the SDT are shared by all channels. The
function that takes an incoming packet for the whole advances the counter,
except that of the SDT when it returns at once with a section it stored; the
call for a channel sends the counter's value.
-/
namespace MuMuDVB.TableCounters

open CheckedMemory CounterTrace RecordedRun MuMuDVB.TsHeader MuMuDVB.Ts MuMuDVB.TsAssembler
open MuMuDVB.TsRefinement MuMuDVB.TsReassembly MuMuDVB.Channel MuMuDVB.RewriteSection
open MuMuDVB.RewritePat MuMuDVB.RewriteSdt MuMuDVB.CallEffects MuMuDVB.PatStore

/-- The first section of those that `get_ts_packet` would hand out that is read as current. -/
def firstCurrent (mem : TableMemory) (vars : RewriteParameters) : Option (List UInt8) :=
  match takeSections takeFuel (some mem.packet) vars.fullSdt with
  | .ok (sections, _) => (reads vars.fullSdt.dataFull.cells sections).find?
      fun data => decide (currentNextIndicator data ≠ 0)
  | .error _ => none

/-- An SDT is awaited, no channel waits for another section, and the first current section is one
of the actual transport stream: it is stored for all the channels. -/
def storesForAll (mem : TableMemory) (vars : RewriteParameters) : Bool :=
  (vars.sdtNeedsUpdate || decide (sdtNeedUpdate vars mem = .ok true)) && !vars.sdtNeedOthers &&
    (firstCurrent mem vars).any fun data => tableId data == 0x42

/-- What a call for the SDT leaves: the parameters of the PAT, and the counters. -/
structure Untouched (vars vars' : RewriteParameters) : Prop where
  fullPatOk : vars'.fullPatOk = vars.fullPatOk
  patNeedsUpdate : vars'.patNeedsUpdate = vars.patNeedsUpdate
  patVersion : vars'.patVersion = vars.patVersion
  patCounter : vars'.patContinuityCounter = vars.patContinuityCounter
  sdtCounter : vars'.sdtContinuityCounter = vars.sdtContinuityCounter

variable {vars vars' : RewriteParameters}

theorem Untouched.refl (vars : RewriteParameters) : Untouched vars vars := ⟨rfl, rfl, rfl, rfl, rfl⟩

theorem Untouched.trans {vars'' : RewriteParameters} (h : Untouched vars vars')
    (h' : Untouched vars' vars'') : Untouched vars vars'' :=
  ⟨h'.fullPatOk.trans h.fullPatOk, h'.patNeedsUpdate.trans h.patNeedsUpdate,
    h'.patVersion.trans h.patVersion, h'.patCounter.trans h.patCounter,
    h'.sdtCounter.trans h.sdtCounter⟩

/-- The loop over the sections returns 1 exactly when the first current one is stored for all the
channels. -/
theorem sdtGlobalLoop_spec (h : RepInvariant vars.fullSdt) {fuel : Nat} {buf : Option Packet}
    {updated : Bool} {sections : List (List UInt8)} {pkt : MumudvbTsPacket}
    (hloop : sdtGlobalLoop fuel buf vars = .ok (updated, vars'))
    (htake : takeSections fuel buf vars.fullSdt = .ok (sections, pkt)) :
    RepInvariant vars'.fullSdt ∧ Untouched vars vars' ∧
      updated = (!vars.sdtNeedOthers && ((reads vars.fullSdt.dataFull.cells sections).find?
        fun data => decide (currentNextIndicator data ≠ 0)).any fun data => tableId data == 0x42) := by
  induction fuel generalizing buf vars sections with
  | zero => cases hloop
  | succ fuel ih =>
    rw [sdtGlobalLoop, bind_eq_ok] at hloop
    obtain ⟨⟨avail, fullSdt⟩, hget, hloop⟩ := hloop
    rw [takeSections, hget, bind_ok] at htake
    cases avail with
    | false =>
      cases hloop
      cases htake
      obtain ⟨pkt₁, hspec, hinv, _⟩ := getTsPacket_spec h buf
      rw [hget, Except.ok.injEq, Prod.mk.injEq] at hspec
      obtain ⟨_, rfl⟩ := hspec
      exact ⟨hinv, ⟨rfl, rfl, rfl, rfl, rfl⟩, by simp [reads]⟩
    | true =>
      obtain ⟨hinv, _, s, _, hsection, hdata, _⟩ := getTsPacket_handed h hget
      simp only [if_true, bind_eq_ok] at hloop htake
      obtain ⟨⟨later, pkt'⟩, hlater, htake⟩ := htake
      cases htake
      rw [hsection, reads, ← hdata]
      by_cases hcurrent : currentNextIndicator fullSdt.dataFull.cells = 0
      · rw [if_pos hcurrent] at hloop
        obtain ⟨hrep, huntouched, hupdated⟩ := @ih { vars with fullSdt := fullSdt } hinv _ _ hloop
          hlater
        have hsame : Untouched vars { vars with fullSdt := fullSdt } := ⟨rfl, rfl, rfl, rfl, rfl⟩
        refine ⟨hrep, hsame.trans huntouched, ?_⟩
        rw [List.find?_cons_of_neg (by simpa using hcurrent)]
        exact hupdated
      · rw [List.find?_cons_of_pos (by simpa using hcurrent), Option.any_some]
        rw [if_neg hcurrent] at hloop
        split at hloop
        case isTrue hother =>
          cases hloop
          exact ⟨hinv, ⟨rfl, rfl, rfl, rfl, rfl⟩, by simp [hother]⟩
        case isFalse hactual =>
          rw [not_not] at hactual
          obtain ⟨seen, _, hloop⟩ := bind_eq_ok.mp hloop
          split at hloop
          case isTrue hothers =>
            cases hloop
            have hothers : vars.sdtNeedOthers = true := hothers
            exact ⟨hinv, ⟨rfl, rfl, rfl, rfl, rfl⟩, by simp [hothers]⟩
          case isFalse hothers =>
            cases hloop
            have hothers : ¬ vars.sdtNeedOthers = true := hothers
            exact ⟨hinv, ⟨rfl, rfl, rfl, rfl, rfl⟩, by simp [hactual, hothers]⟩

/-- What a call with an SDT packet leaves. It returns 1 exactly when it stores for all the
channels, and then the counter keeps its value. -/
structure SdtPacket (mem : TableMemory) (vars : RewriteParameters) (updated : Bool)
    (vars' : RewriteParameters) : Prop where
  rep : RepInvariant vars'.fullSdt
  fullPatOk : vars'.fullPatOk = vars.fullPatOk
  patNeedsUpdate : vars'.patNeedsUpdate = vars.patNeedsUpdate
  patVersion : vars'.patVersion = vars.patVersion
  patCounter : vars'.patContinuityCounter = vars.patContinuityCounter
  updated : updated = storesForAll mem vars
  sdtCounter : vars'.sdtContinuityCounter =
    if storesForAll mem vars = true then vars.sdtContinuityCounter
    else (vars.sdtContinuityCounter + 1) % 16

theorem sdtRewriteNewGlobalPacket_spec (h : RepInvariant vars.fullSdt) {mem : TableMemory}
    {updated : Bool} (hcall : sdtRewriteNewGlobalPacket mem vars = .ok (updated, vars')) :
    SdtPacket mem vars updated vars' := by
  obtain ⟨vars₁, hfirst, hcall⟩ := bind_eq_ok.mp hcall
  obtain ⟨⟨stored, vars₂⟩, hloop, hcall⟩ := bind_eq_ok.mp hcall
  obtain ⟨hsame, hothers, hfull, hawaited⟩ : Untouched vars vars₁ ∧
      vars₁.sdtNeedOthers = vars.sdtNeedOthers ∧ vars₁.fullSdt = vars.fullSdt ∧
      vars₁.sdtNeedsUpdate =
        (vars.sdtNeedsUpdate || decide (sdtNeedUpdate vars mem = .ok true)) := by
    split at hfirst
    case isTrue hneeds =>
      cases hfirst
      exact ⟨Untouched.refl vars, rfl, rfl, by simp [hneeds]⟩
    case isFalse hneeds =>
      obtain ⟨needsUpdate, hneed, hfirst⟩ := bind_eq_ok.mp hfirst
      cases needsUpdate with
      | true =>
        cases hfirst
        exact ⟨⟨rfl, rfl, rfl, rfl, rfl⟩, rfl, rfl, by simp [hneed]⟩
      | false =>
        cases hfirst
        exact ⟨Untouched.refl vars, rfl, rfl, by simp [hneed, hneeds]⟩
  obtain ⟨hrep, hleft, hstored⟩ : RepInvariant vars₂.fullSdt ∧ Untouched vars₁ vars₂ ∧
      stored = storesForAll mem vars := by
    split at hloop
    case isTrue hdue =>
      obtain ⟨⟨sections, pkt⟩, htake⟩ := takeSections_ok h mem.packet
      obtain ⟨hrep, hleft, hstored⟩ := sdtGlobalLoop_spec (hfull.symm ▸ h) hloop
        (hfull.symm ▸ htake)
      refine ⟨hrep, hleft, ?_⟩
      rw [hstored, storesForAll, firstCurrent, htake, ← hawaited, hothers, hfull]
      rw [hothers] at hdue
      cases hneeds : vars₁.sdtNeedsUpdate with
      | true => rfl
      | false =>
        rw [hneeds, Bool.false_or] at hdue
        rw [hdue]
        rfl
    case isFalse hidle =>
      cases hloop
      refine ⟨hfull.symm ▸ h, Untouched.refl _, ?_⟩
      rw [storesForAll, ← hawaited]
      simp only [Bool.or_eq_true, not_or, Bool.not_eq_true] at hidle
      rw [hidle.1, Bool.false_and, Bool.false_and]
  have hall := hsame.trans hleft
  dsimp only at hcall
  split at hcall
  case isTrue hyes =>
    cases hcall
    exact ⟨hrep, hall.fullPatOk, hall.patNeedsUpdate, hall.patVersion, hall.patCounter,
      hyes.symm.trans hstored, by rw [← hstored, if_pos hyes, hall.sdtCounter]⟩
  case isFalse hno =>
    cases hcall
    have hfalse : stored = false := by simpa using hno
    exact ⟨hrep, hall.fullPatOk, hall.patNeedsUpdate, hall.patVersion, hall.patCounter,
      hfalse.symm.trans hstored, by rw [← hstored, if_neg hno, hall.sdtCounter]⟩

/-- What a call with a PAT packet leaves. The counter is advanced; the version is that of a PAT just
stored, or the one before. -/
structure PatPacket (vars vars' : RewriteParameters) : Prop where
  fullSdt : vars'.fullSdt = vars.fullSdt
  sdtCounter : vars'.sdtContinuityCounter = vars.sdtContinuityCounter
  patCounter : vars'.patContinuityCounter = (vars.patContinuityCounter + 1) % 16
  stored : vars.fullPatOk = true → vars'.fullPatOk = true
  version : vars'.patNeedsUpdate = false ∨ vars'.patVersion = vars.patVersion

theorem patGlobalLoop_frame {fuel : Nat} {buf : Option Packet}
    (h : patGlobalLoop fuel buf vars = .ok vars') :
    (vars'.fullSdt = vars.fullSdt ∧ vars'.sdtContinuityCounter = vars.sdtContinuityCounter ∧
      vars'.patContinuityCounter = vars.patContinuityCounter) ∧
    (vars.fullPatOk = true → vars'.fullPatOk = true) ∧
    (vars'.patNeedsUpdate = false ∨
      vars'.patNeedsUpdate = vars.patNeedsUpdate ∧ vars'.patVersion = vars.patVersion) := by
  induction fuel generalizing buf vars with
  | zero => cases h
  | succ fuel ih =>
    obtain ⟨⟨avail, fullPat⟩, _, h⟩ := bind_eq_ok.mp h
    cases avail with
    | false =>
      cases h
      exact ⟨⟨rfl, rfl, rfl⟩, fun hok => hok, Or.inr ⟨rfl, rfl⟩⟩
    | true =>
      simp only [if_true] at h
      by_cases hcurrent : currentNextIndicator fullPat.dataFull.cells = 0
      · rw [if_pos hcurrent] at h
        exact @ih { vars with fullPat := fullPat } _ h
      · rw [if_neg hcurrent] at h
        obtain ⟨hsame, hok, hversion⟩ := ih h
        refine ⟨hsame, fun _ => hok rfl, Or.inl ?_⟩
        rcases hversion with hneeds | ⟨hneeds, _⟩
        · exact hneeds
        · exact hneeds

theorem patRewriteNewGlobalPacket_spec {mem : TableMemory}
    (hcall : patRewriteNewGlobalPacket mem vars = .ok vars') : PatPacket vars vars' := by
  obtain ⟨vars₁, hcheck, hcall⟩ := bind_eq_ok.mp hcall
  obtain ⟨vars₂, hloop, hcall⟩ := bind_eq_ok.mp hcall
  obtain ⟨hsame, _⟩ := patCheckUpdate_eq hcheck
  cases hcall
  rw [hsame] at hloop
  split at hloop
  case isTrue =>
    obtain ⟨⟨hfull, hsdt, hpat⟩, hok, hversion⟩ := patGlobalLoop_frame hloop
    refine ⟨hfull, hsdt, by rw [hpat], hok, ?_⟩
    rcases hversion with hneeds | ⟨_, hversion⟩
    · exact Or.inl hneeds
    · exact Or.inr hversion
  case isFalse hidle =>
    cases hloop
    exact ⟨rfl, rfl, rfl, fun hok => hok, Or.inr rfl⟩

variable {channel channel' : MumudvbChannel} {buf : Packet} {sent : Bool} {st : RewriteState}

theorem continuityCounter_setCounter (p : Packet) (cc : Nat) :
    continuityCounter (setCounter p cc).cells = cc % 16 := by
  have hmod : cc % 16 % 2 ^ 8 = cc % 16 := Nat.mod_eq_of_lt (by omega)
  have hlow : ∀ a, (a &&& 240 ||| cc % 16) % 16 = cc % 16 := by
    intro a
    have hor := Nat.or_mod_two_pow (a := a &&& 240) (b := cc % 16) (n := 4)
    have hand := Nat.and_mod_two_pow (a := a) (b := 240) (n := 4)
    rw [show (2 : Nat) ^ 4 = 16 from rfl] at hor hand
    rw [hor, hand, show 240 % 16 = 0 from rfl, Nat.and_zero, Nat.zero_or, Nat.mod_mod]
  rw [show (setCounter p cc).cells = setContinuityCounter p.cells cc from rfl,
    continuityCounter, setContinuityCounter,
    byteAt_set_self (by rw [p.length_cells]; decide), UInt8.toNat_or, UInt8.toNat_and,
    UInt8.toNat_ofNat', hmod]
  exact hlow _

/-- A PAT that is sent has the value of the counter, and it is the one of the version stored. -/
theorem patRewriteNewChannelPacket_sent
    (h : patRewriteNewChannelPacket vars channel buf = .ok (true, st)) :
    continuityCounter st.buf.cells = vars.patContinuityCounter % 16 ∧
      st.channel.generatedPatVersion = st.vars.patVersion := by
  have hvars : st.vars.patContinuityCounter = vars.patContinuityCounter := by
    rcases patRewriteNewChannelPacket_vars h with hsame | ⟨_, hsame⟩ <;> rw [hsame]
  rw [← hvars]
  rw [patRewriteNewChannelPacket] at h
  split at h
  · obtain ⟨⟨rewritten, st₁⟩, _, h⟩ := bind_eq_ok.mp h
    dsimp only at h
    split at h
    · split at h
      case isTrue hversion =>
        cases h
        exact ⟨continuityCounter_setCounter _ _, hversion⟩
      case isFalse => cases h
    · cases h
  · cases h

/-- An SDT that is sent has the value of the counter. -/
theorem sdtRewriteNewChannelPacket_sent
    (h : sdtRewriteNewChannelPacket vars channel buf = .ok (true, st)) :
    continuityCounter st.buf.cells = vars.sdtContinuityCounter % 16 := by
  cases SdtRuns.sdtRewriteNewChannelPacket_spec h with
  | repeats => exact continuityCounter_setCounter _ _
  | rebuilds _ rewrite =>
    rw [continuityCounter_setCounter, (sdtChannelRewrite_frame rewrite).2.1]

/-- A call for the SDT leaves the PAT of the channel. -/
theorem sdtRewriteNewChannelPacket_pat
    (h : sdtRewriteNewChannelPacket vars channel buf = .ok (sent, st)) :
    st.channel.generatedPatVersion = channel.generatedPatVersion := by
  cases SdtRuns.sdtRewriteNewChannelPacket_spec h with
  | waits | repeats => rfl
  | fails _ _ rewrite | rebuilds _ rewrite => exact (sdtChannelRewrite_frame rewrite).2.2.2

section system

/-- The tables, and one of the channels. -/
structure State where
  vars : RewriteParameters
  channel : MumudvbChannel

/-- A packet on PID 0 or 17, with the tables before it, the tables and the channel at the turn of
the channel, and what is sent to it; or a change of the channel that is not the rewriters'. -/
inductive Event where
  | pat (mem : TableMemory) (before vars : RewriteParameters) (channel : MumudvbChannel)
      (sent : Option Packet)
  | sdt (mem : TableMemory) (before vars : RewriteParameters) (channel : MumudvbChannel)
      (sent : Option Packet)
  | configure

/-- The calls for the other channels. -/
def OthersPat : RewriteParameters → RewriteParameters → Prop :=
  Relation.ReflTransGen fun vars vars' => ∃ channel buf sent st,
    channel.channelReady.isReady = true ∧
      patRewriteNewChannelPacket vars channel buf = .ok (sent, st) ∧ vars' = st.vars

def OthersSdt : RewriteParameters → RewriteParameters → Prop :=
  Relation.ReflTransGen fun vars vars' => ∃ channel buf sent st,
    channel.channelReady.isReady = true ∧
      sdtRewriteNewChannelPacket vars channel buf = .ok (sent, st) ∧ vars' = st.vars

/-- The channel is called for a PAT packet. -/
def Called (channel : MumudvbChannel) : Prop := channel.channelReady.isReady = true

/-- The channel is called for an SDT packet. -/
def CalledSdt (channel : MumudvbChannel) : Prop :=
  channel.channelReady.isReady = true ∧ channel.sdtRewriteSkip = false

/-- After an update the channel is tried again. -/
def retry (updated : Bool) (channel : MumudvbChannel) : MumudvbChannel :=
  if updated then { channel with sdtRewriteSkip := false } else channel

/-- The turn of the channel. -/
inductive OwnPat (vars : RewriteParameters) (channel : MumudvbChannel) :
    Option Packet → RewriteParameters → MumudvbChannel → Prop where
  | called {buf : Packet} {sent : Bool} {st : RewriteState} (due : Called channel)
      (call : patRewriteNewChannelPacket vars channel buf = .ok (sent, st)) :
      OwnPat vars channel (if sent then some st.buf else none) st.vars st.channel
  | passed (idle : ¬ Called channel) : OwnPat vars channel none vars channel

inductive OwnSdt (vars : RewriteParameters) (channel : MumudvbChannel) :
    Option Packet → RewriteParameters → MumudvbChannel → Prop where
  | called {buf : Packet} {sent : Bool} {st : RewriteState} (due : CalledSdt channel)
      (call : sdtRewriteNewChannelPacket vars channel buf = .ok (sent, st)) :
      OwnSdt vars channel (if sent then some st.buf else none) st.vars st.channel
  | passed (idle : ¬ CalledSdt channel) : OwnSdt vars channel none vars channel

/-- What the rewriters own in a channel. -/
structure SameTables (channel channel' : MumudvbChannel) : Prop where
  generatedPat : channel'.generatedPat = channel.generatedPat
  generatedPatVersion : channel'.generatedPatVersion = channel.generatedPatVersion
  generatedSdt : channel'.generatedSdt = channel.generatedSdt
  generatedSdtVersion : channel'.generatedSdtVersion = channel.generatedSdtVersion
  skip : channel'.sdtRewriteSkip = channel.sdtRewriteSkip

inductive Step : State → Event → State → Prop where
  | pat {s : State} {mem : TableMemory} {vars₁ vars₂ vars₃ vars₄ : RewriteParameters}
      {sent : Option Packet} {channel : MumudvbChannel}
      (global : patRewriteNewGlobalPacket mem s.vars = .ok vars₁) (earlier : OthersPat vars₁ vars₂)
      (own : OwnPat vars₂ s.channel sent vars₃ channel) (later : OthersPat vars₃ vars₄) :
      Step s (.pat mem s.vars vars₂ s.channel sent) ⟨vars₄, channel⟩
  | sdt {s : State} {mem : TableMemory} {updated : Bool}
      {vars₁ vars₂ vars₃ vars₄ : RewriteParameters} {sent : Option Packet}
      {channel : MumudvbChannel}
      (global : sdtRewriteNewGlobalPacket mem s.vars = .ok (updated, vars₁))
      (earlier : OthersSdt vars₁ vars₂)
      (own : OwnSdt vars₂ (retry updated s.channel) sent vars₃ channel)
      (later : OthersSdt vars₃ vars₄) :
      Step s (.sdt mem s.vars vars₂ (retry updated s.channel) sent) ⟨vars₄, channel⟩
  | configure {s : State} {channel : MumudvbChannel} (same : SameTables s.channel channel) :
      Step s .configure ⟨s.vars, channel⟩

/-- The start: nothing is stored, and nothing is generated for the channel. -/
structure Initial (s : State) : Prop where
  vars : ∃ forceEit, s.vars =
    { initRewrV with rewritePat := .on, rewriteSdt := .on, sdtForceEit := forceEit }
  channel : SameTables (mumuInitChan zeroedChannel) s.channel

def tableSystem : System State Event := ⟨Initial, Step⟩

/-- The continuity counters of the PATs sent to the channel, the last one first. -/
def patCounters : List Event → List Nat
  | [] => []
  | .pat _ _ _ _ sent :: past =>
    (sent.map fun p => continuityCounter p.cells).toList ++ patCounters past
  | .sdt _ _ _ _ _ :: past => patCounters past
  | .configure :: past => patCounters past

/-- The same of the SDTs. -/
def sdtCounters : List Event → List Nat
  | [] => []
  | .pat _ _ _ _ _ :: past => sdtCounters past
  | .sdt _ _ _ _ sent :: past =>
    (sent.map fun p => continuityCounter p.cells).toList ++ sdtCounters past
  | .configure :: past => sdtCounters past

open Classical in
/-- A PAT packet advances the counter, and is sent to a channel that is called and has a PAT of the
stored version or can get one. -/
noncomputable def patMarks : List Event → List Mark
  | [] => []
  | .pat _ _ vars channel _ :: past =>
    (if Called channel ∧ PatSends vars channel then [.send] else []) ++ .tick :: patMarks past
  | .sdt _ _ _ _ _ :: past => patMarks past
  | .configure :: past => patMarks past

open Classical in
/-- An SDT packet advances the counter unless it is stored for all the channels. -/
noncomputable def sdtMarks : List Event → List Mark
  | [] => []
  | .pat _ _ _ _ _ :: past => sdtMarks past
  | .sdt mem before vars channel _ :: past =>
    (if CalledSdt channel ∧ SdtSends vars channel then [.send] else []) ++
      ((if storesForAll mem before then [] else [.tick]) ++ sdtMarks past)
  | .configure :: past => sdtMarks past

/-- The channel is ready at every PAT packet from the first one that is sent to it. -/
def AlwaysReady : List Event → Prop
  | [] => True
  | .pat _ _ _ channel _ :: past => (sinceSend (patMarks past) = none ∨ Called channel) ∧
      AlwaysReady past
  | .sdt _ _ _ _ _ :: past => AlwaysReady past
  | .configure :: past => AlwaysReady past

/-! ## The turn of a channel -/

/-- The invariant of the stored SDT does not look at the section handed out. -/
theorem drift_rep (hdrift : Drift vars vars') (h : RepInvariant vars.fullSdt) :
    RepInvariant vars'.fullSdt := by
  obtain ⟨⟨_, data, _, _, hsame⟩, _, _⟩ := hdrift
  rw [hsame]
  exact ⟨⟨h.fullNumber, h.fullBufferLen, h.fullBufferRoom, h.storedLength, h.lenFull⟩, h.lenPartial,
    h.partialHeader, h.started, h.headerRead⟩

theorem OthersPat.drift (h : OthersPat vars vars') : Drift vars vars' := by
  induction h with
  | refl => exact Drift.refl vars
  | tail _ step ih =>
    obtain ⟨channel, buf, sent, st, hready, hcall, rfl⟩ := step
    exact ih.trans (patCall hready hcall).drift

theorem OthersSdt.drift (h : OthersSdt vars vars') : Drift vars vars' := by
  induction h with
  | refl => exact Drift.refl vars
  | tail _ step ih =>
    obtain ⟨channel, buf, sent, st, _, hcall, rfl⟩ := step
    exact ih.trans (sdtCall hcall).drift

variable {out : Option Packet}

/-- A packet is sent in the turn of the channel exactly when it is due; it has the value of the
counter. -/
theorem OwnPat.spec (h : OwnPat vars channel out vars' channel') :
    Drift vars vars' ∧ (out.isSome = true ↔ Called channel ∧ PatSends vars channel) ∧
      ∀ p, out = some p → continuityCounter p.cells = vars.patContinuityCounter % 16 ∧
        channel'.generatedPatVersion = vars'.patVersion := by
  cases h with
  | @called buf sent st due call =>
    have hcall := patCall due call
    refine ⟨hcall.drift, ?_, fun p hp => ?_⟩
    · rw [and_iff_right due, ← hcall.sends]
      cases sent <;> simp
    · cases sent with
      | false => cases hp
      | true =>
        cases hp
        exact patRewriteNewChannelPacket_sent call
  | passed idle =>
    exact ⟨Drift.refl vars, by simp [idle], fun p hp => by cases hp⟩

theorem OwnSdt.spec (h : OwnSdt vars channel out vars' channel') :
    Drift vars vars' ∧ (out.isSome = true ↔ CalledSdt channel ∧ SdtSends vars channel) ∧
      (∀ p, out = some p → continuityCounter p.cells = vars.sdtContinuityCounter % 16) ∧
      channel'.generatedPatVersion = channel.generatedPatVersion := by
  cases h with
  | @called buf sent st due call =>
    have hcall := sdtCall call
    refine ⟨hcall.drift, ?_, fun p hp => ?_, sdtRewriteNewChannelPacket_pat call⟩
    · rw [and_iff_right due, ← hcall.sends]
      cases sent <;> simp
    · cases sent with
      | false => cases hp
      | true =>
        cases hp
        exact sdtRewriteNewChannelPacket_sent call
  | passed idle =>
    exact ⟨Drift.refl vars, by simp [idle], (fun p hp => by cases hp), rfl⟩

/-! ## Runs -/

/-- What holds in every run: the counters are those of the marks, and so is what is sent. -/
structure Inv (past : List Event) (s : State) : Prop where
  rep : RepInvariant s.vars.fullSdt
  patCounter : s.vars.patContinuityCounter = count 16 0 (patMarks past)
  patSent : patCounters past = emitted 16 0 (patMarks past)
  sdtCounter : s.vars.sdtContinuityCounter = count 16 0 (sdtMarks past)
  sdtSent : sdtCounters past = emitted 16 0 (sdtMarks past)

/-- A channel that is always ready and has got a PAT gets one with every PAT packet. -/
structure Steady (past : List Event) (s : State) : Prop where
  gaps : ∀ g ∈ gaps (patMarks past), g = 1
  since : sinceSend (patMarks past) ≠ none → sinceSend (patMarks past) = some 0 ∧
    s.vars.fullPatOk = true ∧ s.channel.generatedPatVersion = s.vars.patVersion

theorem inv_initial {s : State} (h : Initial s) : Inv [] s := by
  obtain ⟨forceEit, hvars⟩ := h.vars
  exact ⟨by rw [hvars]; exact zeroed_repInvariant, by rw [hvars]; rfl, rfl, by rw [hvars]; rfl, rfl⟩

/-- What is sent in a turn, for the marks of the events. -/
theorem sent_marks {p : Prop} [Decidable p] {past : List Mark} {before : List Nat} {cc : Nat}
    (hdue : out.isSome = true ↔ p) (hsent : ∀ q, out = some q → continuityCounter q.cells = cc % 16)
    (hcc : cc = count 16 0 past) (hbefore : before = emitted 16 0 past) :
    (out.map fun q => continuityCounter q.cells).toList ++ before =
      emitted 16 0 ((if p then [.send] else []) ++ past) := by
  rw [emitted_send, hbefore]
  cases out with
  | none =>
    rw [if_neg fun hp => by simpa using hdue.mpr hp]
    rfl
  | some q =>
    have hlt : count 16 0 past < 16 := count_lt (by decide) past
    rw [if_pos (hdue.mp rfl), Option.map_some, Option.toList_some, hsent q rfl, hcc,
      Nat.mod_eq_of_lt hlt]

theorem inv_step {past : List Event} {s s' : State} {e : Event} (h : Inv past s)
    (hstep : Step s e s') : Inv (e :: past) s' := by
  classical
  cases hstep with
  | @pat mem vars₁ vars₂ vars₃ vars₄ sent channel global earlier own later =>
    have hpacket := patRewriteNewGlobalPacket_spec global
    have hearlier := earlier.drift
    obtain ⟨hown, hdue, hsent⟩ := own.spec
    have hdrift := (hearlier.trans hown).trans later.drift
    have hticked : vars₁.patContinuityCounter = count 16 0 (.tick :: patMarks past) := by
      rw [hpacket.patCounter, h.patCounter, count]
    refine ⟨drift_rep hdrift (hpacket.fullSdt.symm ▸ h.rep), ?_, ?_, ?_, h.sdtSent⟩
    · rw [hdrift.unread (·.patContinuityCounter) fun _ _ _ _ => rfl, hticked, patMarks, count_send]
    · rw [← hearlier.unread (·.patContinuityCounter) fun _ _ _ _ => rfl] at hticked
      exact sent_marks hdue (fun q hq => (hsent q hq).1) hticked h.patSent
    · rw [hdrift.unread (·.sdtContinuityCounter) fun _ _ _ _ => rfl, hpacket.sdtCounter,
        h.sdtCounter, sdtMarks]
  | @sdt mem updated vars₁ vars₂ vars₃ vars₄ sent channel global earlier own later =>
    have hpacket := sdtRewriteNewGlobalPacket_spec h.rep global
    have hearlier := earlier.drift
    obtain ⟨hown, hdue, hsent, _⟩ := own.spec
    have hdrift := (hearlier.trans hown).trans later.drift
    have hticked : vars₁.sdtContinuityCounter = count 16 0
        ((if storesForAll mem s.vars then [] else [.tick]) ++ sdtMarks past) := by
      rw [hpacket.sdtCounter, h.sdtCounter]
      split <;> rfl
    have hbefore : sdtCounters past = emitted 16 0
        ((if storesForAll mem s.vars then [] else [.tick]) ++ sdtMarks past) := by
      rw [h.sdtSent]
      split <;> rfl
    refine ⟨drift_rep hdrift hpacket.rep, ?_, h.patSent, ?_, ?_⟩
    · rw [hdrift.unread (·.patContinuityCounter) fun _ _ _ _ => rfl, hpacket.patCounter,
        h.patCounter, patMarks]
    · rw [hdrift.unread (·.sdtContinuityCounter) fun _ _ _ _ => rfl, hticked, sdtMarks, count_send]
    · rw [← hearlier.unread (·.sdtContinuityCounter) fun _ _ _ _ => rfl] at hticked
      exact sent_marks hdue hsent hticked hbefore
  | configure same => exact ⟨h.rep, h.patCounter, h.patSent, h.sdtCounter, h.sdtSent⟩

theorem inv_run {past : List Event} {s : State} (hrun : Run tableSystem past s) : Inv past s :=
  hrun.invariant (fun _ => inv_initial) (fun _ _ _ _ h hstep => inv_step h hstep)

theorem steady_initial {s : State} : Steady [] s :=
  ⟨by simp [patMarks, gaps], fun h => absurd rfl h⟩

/-- A step keeps a channel steady that is ready for it. -/
theorem steady_step {past : List Event} {s s' : State} {e : Event}
    (hready : AlwaysReady (e :: past)) (hrep : RepInvariant s.vars.fullSdt) (h : Steady past s)
    (hstep : Step s e s') : Steady (e :: past) s' := by
  classical
  cases hstep with
  | @pat mem vars₁ vars₂ vars₃ vars₄ sent channel global earlier own later =>
    have hpacket := patRewriteNewGlobalPacket_spec global
    have hearlier := earlier.drift
    obtain ⟨hown, hdue, hsent⟩ := own.spec
    by_cases hsends : Called s.channel ∧ PatSends vars₂ s.channel
    · have hmarks : patMarks (.pat mem s.vars vars₂ s.channel sent :: past) =
          .send :: .tick :: patMarks past := by
        rw [patMarks, if_pos hsends]
        rfl
      obtain ⟨p, hp⟩ := Option.isSome_iff_exists.mp (hdue.mpr hsends)
      refine ⟨?_, fun _ => ⟨by rw [hmarks, sinceSend], ?_, ?_⟩⟩
      · rw [hmarks, gaps, gaps, sinceSend]
        cases hsince : sinceSend (patMarks past) with
        | none => simpa using h.gaps
        | some k =>
          have hzero := (h.since (by simp [hsince])).1
          rw [hsince, Option.some.injEq] at hzero
          simpa [hzero] using h.gaps
      · rw [(hown.trans later.drift).unread (·.fullPatOk) fun _ _ _ _ => rfl]
        exact hsends.2.1
      · rw [(hsent p hp).2, later.drift.unread (·.patVersion) fun _ _ _ _ => rfl]
    · have hmarks : patMarks (.pat mem s.vars vars₂ s.channel sent :: past) =
          .tick :: patMarks past := by
        rw [patMarks, if_neg hsends]
        rfl
      have hnone : sinceSend (patMarks past) = none := by
        rcases hready.1 with hnone | hcalled
        · exact hnone
        · by_contra hsome
          obtain ⟨_, hok, hversion⟩ := h.since hsome
          refine hsends ⟨hcalled, ?_, ?_⟩
          · rw [hearlier.unread (·.fullPatOk) fun _ _ _ _ => rfl]
            exact hpacket.stored hok
          · rw [hearlier.unread (·.patNeedsUpdate) fun _ _ _ _ => rfl,
              hearlier.unread (·.patVersion) fun _ _ _ _ => rfl, hversion]
            exact hpacket.version.imp_right Eq.symm
      refine ⟨by rw [hmarks]; exact h.gaps, fun hsome => ?_⟩
      rw [hmarks, sinceSend, hnone] at hsome
      exact absurd rfl hsome
  | @sdt mem updated vars₁ vars₂ vars₃ vars₄ sent channel global earlier own later =>
    have hpacket := sdtRewriteNewGlobalPacket_spec hrep global
    obtain ⟨hown, _, _, hkept⟩ := own.spec
    have hdrift := (earlier.drift.trans hown).trans later.drift
    refine ⟨h.gaps, fun hsince => ?_⟩
    obtain ⟨hzero, hok, hversion⟩ := h.since hsince
    refine ⟨hzero, ?_, ?_⟩
    · rw [hdrift.unread (·.fullPatOk) fun _ _ _ _ => rfl, hpacket.fullPatOk, hok]
    · rw [hdrift.unread (·.patVersion) fun _ _ _ _ => rfl, hpacket.patVersion, hkept, retry,
        ← hversion]
      split <;> rfl
  | configure same =>
    refine ⟨h.gaps, fun hsince => ?_⟩
    obtain ⟨hzero, hok, hversion⟩ := h.since hsince
    exact ⟨hzero, hok, same.generatedPatVersion.trans hversion⟩

theorem alwaysReady_tail {past : List Event} {e : Event} (h : AlwaysReady (e :: past)) :
    AlwaysReady past := by
  cases e with
  | pat => exact h.2
  | sdt => exact h
  | configure => exact h

theorem steady_run {past : List Event} {s : State} (hrun : Run tableSystem past s)
    (hready : AlwaysReady past) : Steady past s := by
  induction hrun with
  | start => exact steady_initial
  | next run step ih =>
    exact steady_step hready (inv_run run).rep (ih (alwaysReady_tail hready)) step

/-- In every run the PATs and the SDTs that are sent to the channel are numbered without a gap
exactly when, modulo 16, the counter is advanced once between every two of them. For the PAT this
is so while the channel is ready. -/
theorem tableCounters_increasing_iff {past : List Event} {s : State}
    (hrun : Run tableSystem past s) :
    (Increasing 16 (patCounters past) ∧ Increasing 16 (sdtCounters past) ↔
      (∀ g ∈ gaps (patMarks past), g % 16 = 1) ∧ ∀ g ∈ gaps (sdtMarks past), g % 16 = 1) ∧
    (AlwaysReady past → Increasing 16 (patCounters past)) := by
  have hinv := inv_run hrun
  rw [hinv.patSent, hinv.sdtSent, increasing_iff (by decide), increasing_iff (by decide)]
  refine ⟨Iff.rfl, fun hready g hg => ?_⟩
  rw [(steady_run hrun hready).gaps g hg]

/-! ## A run with a single channel -/

def patTurn (mem : TableMemory) (s : State) : Checked (Event × State) := do
  let vars ← patRewriteNewGlobalPacket mem s.vars
  if s.channel.channelReady.isReady = true then do
    let (sent, st) ← patRewriteNewChannelPacket vars s.channel mem.packet
    return (.pat mem s.vars vars s.channel (if sent then some st.buf else none),
      ⟨st.vars, st.channel⟩)
  else return (.pat mem s.vars vars s.channel none, ⟨vars, s.channel⟩)

def sdtTurn (mem : TableMemory) (s : State) : Checked (Event × State) := do
  let (updated, vars) ← sdtRewriteNewGlobalPacket mem s.vars
  let channel := retry updated s.channel
  if channel.channelReady.isReady = true ∧ channel.sdtRewriteSkip = false then do
    let (sent, st) ← sdtRewriteNewChannelPacket vars channel mem.packet
    return (.sdt mem s.vars vars channel (if sent then some st.buf else none),
      ⟨st.vars, st.channel⟩)
  else return (.sdt mem s.vars vars channel none, ⟨vars, channel⟩)

/-- The packets in turn, those of the PAT marked. -/
def turns : List (Bool × TableMemory) → List Event → State → Checked (List Event × State)
  | [], past, s => .ok (past, s)
  | (isPat, mem) :: later, past, s => do
    let (e, s) ← (if isPat then patTurn mem s else sdtTurn mem s : Checked (Event × State))
    turns later (e :: past) s

theorem patTurn_step {mem : TableMemory} {s s' : State} {e : Event}
    (h : patTurn mem s = .ok (e, s')) : Step s e s' := by
  obtain ⟨vars₁, hglobal, h⟩ := bind_eq_ok.mp h
  split at h
  case isTrue hready =>
    obtain ⟨⟨sent, st⟩, hcall, h⟩ := bind_eq_ok.mp h
    cases h
    exact .pat hglobal .refl (.called hready hcall) .refl
  case isFalse hidle =>
    cases h
    exact .pat hglobal .refl (.passed hidle) .refl

theorem sdtTurn_step {mem : TableMemory} {s s' : State} {e : Event}
    (h : sdtTurn mem s = .ok (e, s')) : Step s e s' := by
  obtain ⟨⟨updated, vars₁⟩, hglobal, h⟩ := bind_eq_ok.mp h
  dsimp only at h
  split at h
  case isTrue hready =>
    obtain ⟨⟨sent, st⟩, hcall, h⟩ := bind_eq_ok.mp h
    cases h
    exact .sdt hglobal .refl (.called hready hcall) .refl
  case isFalse hidle =>
    cases h
    exact .sdt hglobal .refl (.passed hidle) .refl

theorem turns_run {packets : List (Bool × TableMemory)} {past past' : List Event} {s s' : State}
    (hrun : Run tableSystem past s) (h : turns packets past s = .ok (past', s')) :
    Run tableSystem past' s' := by
  induction packets generalizing past s with
  | nil =>
    cases h
    exact hrun
  | cons packet packets ih =>
    obtain ⟨⟨e, s₁⟩, hturn, h⟩ := bind_eq_ok.mp h
    refine ih (.next hrun ?_) h
    split at hturn
    · exact patTurn_step hturn
    · exact sdtTurn_step hturn

/-- A ready channel for service 1. -/
def tvStart : State :=
  ⟨{ initRewrV with rewritePat := .on, rewriteSdt := .on }, SdtRuns.readyFor 1⟩

theorem tvStart_initial : Initial tvStart := ⟨⟨.undefined, rfl⟩, ⟨rfl, rfl, rfl, rfl, rfl⟩⟩

/-- An SDT with the same service, of version 1. -/
def newSdtMemory : TableMemory :=
  ⟨[0x47, 0x40, 0x11, 0x10, 0x00,
      0x42, 0xf0, 0x18, 0x00, 0x01, 0xc3, 0x00, 0x00, 0x00, 0x01, 0xff, 0x00,
      0x01, 0xfc, 0x80, 0x07, 0x48, 0x05, 0x01, 0x01, 0x41, 0x01, 0x42, 0x79, 0x4b, 0xcb, 0xc1] ++
    List.replicate 164 0xff, by decide +kernel⟩

/-- Each table comes three times. -/
theorem tableCounters_tv : ∃ past s, Run tableSystem past s ∧ patCounters past = [3, 2] ∧
    sdtCounters past = [2, 1] ∧ (∀ g ∈ gaps (patMarks past), g % 16 = 1) ∧
    ∀ g ∈ gaps (sdtMarks past), g % 16 = 1 := by
  have h : (turns [(true, currentMem), (true, currentMem), (true, currentMem),
      (false, SdtRuns.tvMemory), (false, SdtRuns.tvMemory), (false, SdtRuns.tvMemory)] []
      tvStart).map (fun r => (patCounters r.1, sdtCounters r.1)) = .ok ([3, 2], [2, 1]) := by
    decide +kernel
  obtain ⟨⟨past, s⟩, hturns, hvalues⟩ := map_eq_ok h
  simp only [Prod.mk.injEq] at hvalues
  obtain ⟨hpat, hsdt⟩ := hvalues
  have hrun := turns_run (.start tvStart_initial) hturns
  have hincreasing : Increasing 16 (patCounters past) ∧ Increasing 16 (sdtCounters past) := by
    rw [hpat, hsdt]
    exact ⟨by simp [Increasing], by simp [Increasing]⟩
  exact ⟨past, s, hrun, hpat, hsdt, (tableCounters_increasing_iff hrun).1.mp hincreasing⟩

/-- The SDT of the new version is stored for all the channels, and sent with the number of the one
before. -/
theorem sdtCounters_repeated : ∃ past s, Run tableSystem past s ∧ sdtCounters past = [1, 1] ∧
    ¬ Increasing 16 (sdtCounters past) := by
  have h : (turns [(false, SdtRuns.tvMemory), (false, SdtRuns.tvMemory), (false, newSdtMemory)] []
      tvStart).map (fun r => sdtCounters r.1) = .ok [1, 1] := by
    decide +kernel
  obtain ⟨⟨past, s⟩, hturns, hsdt⟩ := map_eq_ok h
  dsimp only at hsdt
  refine ⟨past, s, turns_run (.start tvStart_initial) hturns, hsdt, ?_⟩
  rw [hsdt]
  simp [Increasing]

end system

end MuMuDVB.TableCounters
