import Mathlib.Logic.Function.Basic
import MuMuDVB.CallEffects

/-!
# SDT rewriting that is given up

Only the last section of the SDT is stored, while a table says of every section
number that it has passed by. Which of the sections a channel has searched
depends on when it became ready. A run therefore carries the version of the SDT
that is on the air, and what the calls for each channel found since that
version came; the program reads neither.
-/
namespace MuMuDVB.SdtSkips

open CheckedMemory RecordedRun MuMuDVB.TsHeader MuMuDVB.Ts MuMuDVB.TsAssembler
open MuMuDVB.Channel MuMuDVB.RewriteSection MuMuDVB.RewriteSdt MuMuDVB.SdtRuns MuMuDVB.CallEffects

/-- From offset `pos` on, a section has an entry for the service. -/
inductive Lists (sdt : List UInt8) (serviceId : Int) : Nat → Prop where
  | here {pos : Nat} (inside : pos + sdtDescrLen < sectionLength sdt)
      (same : serviceId = descrServiceId (sdt.drop pos)) : Lists sdt serviceId pos
  | later {pos : Nat} (inside : pos + sdtDescrLen < sectionLength sdt)
      (next : Lists sdt serviceId (pos + (sdtDescrLen + descriptorsLoopLength (sdt.drop pos)))) :
      Lists sdt serviceId pos

/-- A section that contains the service. -/
def Contains (sdt : List UInt8) (serviceId : Int) : Prop := Lists sdt serviceId sdtLen

/-- A section in force that describes the actual transport stream. -/
structure IsSdtSection (version : Nat) (sdt : List UInt8) : Prop where
  header : sdtLen ≤ sdt.length
  actual : tableId sdt = 0x42
  current : currentNextIndicator sdt ≠ 0
  version : versionNumber sdt = version
  complete : sdt.length = sectionSize sdt

/-- One version of the SDT: any number of sections. -/
structure SdtTable where
  version : Nat
  sections : List (List UInt8)
  isSection : ∀ sdt ∈ sections, IsSdtSection version sdt

/-- The stored section is `sdt`, up to the fields that the rewriting overwrites there. -/
def Holds (vars : RewriteParameters) (sdt : List UInt8) : Prop :=
  makeOnlySection sdt <+: (onlySectionAt vars.fullSdt.dataFull 0).cells

instance (vars : RewriteParameters) (sdt : List UInt8) : Decidable (Holds vars sdt) :=
  inferInstanceAs (Decidable (_ <+: _))

/-- What a call for a channel finds. -/
structure Attempt where
  vars : RewriteParameters
  channel : MumudvbChannel

/-- The rewriter, the version on the air, and for each channel the calls since that version came
and the channel was initialised. -/
structure Watched extends SdtState where
  table : SdtTable
  attempts : Nat → List Attempt

/-- A call stores a section: it returns 1, or it takes back the wish for another section. -/
def StoresSection (vars : RewriteParameters) (updated : Bool) (vars' : RewriteParameters) : Prop :=
  updated = true ∨ vars.sdtNeedOthers = true ∧ vars'.sdtNeedOthers = false

def record (attempts : Nat → List Attempt) : Event → Nat → List Attempt
  | .packet i vars channel _ => Function.update attempts i (⟨vars, channel⟩ :: attempts i)
  | .init i => Function.update attempts i []
  | _ => attempts

/-- A step of the rewriter. The version on the air changes when the stored version number does, and
what is stored is one of its sections. -/
structure WatchedStep (s : Watched) (e : Event) (s' : Watched) : Prop where
  sdt : Step s.toSdtState e s'.toSdtState
  sameTable : s'.vars.sdtVersion = s.vars.sdtVersion → s'.table = s.table
  onAir : ∀ mem updated, e = .global mem →
    sdtRewriteNewGlobalPacket mem s.vars = .ok (updated, s'.vars) →
    StoresSection s.vars updated s'.vars → ∃ sdt ∈ s'.table.sections, Holds s'.vars sdt
  attempts : s'.attempts =
    if s'.vars.sdtVersion = s.vars.sdtVersion then record s.attempts e else fun _ => []

/-- At the start nothing is stored and no call has been made. -/
def watchedSystem : System Watched Event where
  Initial s := Initial s.toSdtState ∧ s.attempts = fun _ => []
  Step := WatchedStep

/-- A step that switches the skip flag of a channel with a service on does so for a service that no
section of the current version contains. -/
def OnlyAbsent (s s' : Watched) : Prop :=
  ∀ (i : Nat) (channel channel' : MumudvbChannel), s.channels[i]? = some channel →
    s'.channels[i]? = some channel' → channel.sdtRewriteSkip = false →
    channel'.sdtRewriteSkip = true → channel'.serviceId ≠ 0 →
    ∀ sdt ∈ s'.table.sections, ¬ Contains sdt channel'.serviceId

/-- The runs that give up absent services only. -/
def absentSystem : System Watched Event where
  Initial := watchedSystem.Initial
  Step s e s' := WatchedStep s e s' ∧ OnlyAbsent s s'

/-- Wherever the section is stored, the search comes to an entry of the service that fits. -/
def Fits (sdt : List UInt8) (serviceId : Int) : Prop :=
  ∀ data : Buffer UInt8 maxTsSize, makeOnlySection sdt <+: data.cells →
    Announces data serviceId sdtLen

/-- The section was the stored one when a call for the channel, the present one or an earlier one
for this version, searched for its service. -/
def Searched (s : Watched) (i : Nat) (present : Attempt) (sdt : List UInt8) : Prop :=
  ∃ a ∈ present :: s.attempts i, Rebuilds a.vars a.channel ∧ Holds a.vars sdt

/-- The condition on a call: when the stored section does not announce the service and all section
numbers were seen, then each section of the version that contains the service was searched for
this channel and has room for the entry. -/
def Examined (s : Watched) : Event → Prop
  | .packet i vars channel _ =>
    Rebuilds vars channel → ¬ Announced vars channel → sdtRewriteAllSectionsSeen vars = .ok true →
      ∀ sdt ∈ s.table.sections, Contains sdt channel.serviceId →
        Searched s i ⟨vars, channel⟩ sdt ∧ Fits sdt channel.serviceId
  | _ => True

variable {s s' : Watched} {e : Event} {vars vars' : RewriteParameters} {channel : MumudvbChannel}
  {buf : Packet} {sent : Bool} {st : RewriteState}

/-- A call that searches and finds leaves the channel at the current version, and no call takes it
away from there. -/
theorem call_version (hcall : sdtRewriteNewChannelPacket vars channel buf = .ok (sent, st)) :
    st.vars.sdtVersion = vars.sdtVersion ∧
      (channel.generatedSdtVersion = vars.sdtVersion →
        st.channel.generatedSdtVersion = vars.sdtVersion) ∧
      (Rebuilds vars channel → Announced vars channel →
        st.channel.generatedSdtVersion = vars.sdtVersion) := by
  cases sdtRewriteNewChannelPacket_spec hcall with
  | waits still | repeats still => exact ⟨rfl, fun h => h, fun hre => absurd hre still⟩
  | fails _ _ rewrite =>
    obtain ⟨⟨hversion, -⟩, ⟨-, -, hsame, hnone, -⟩ | ⟨hr, -⟩⟩ := sdtChannelRewrite_cases rewrite
    · exact ⟨hversion, hsame.trans,
        fun hre hann => absurd ⟨hre.serviceId, hre.actual, .inl hann⟩ hnone⟩
    · cases hr
  | rebuilds _ rewrite =>
    obtain ⟨⟨hversion, -⟩, ⟨hr, -⟩ | ⟨-, -, -, hgenerated, -⟩⟩ := sdtChannelRewrite_cases rewrite
    · cases hr
    · exact ⟨hversion, fun _ => hgenerated, fun _ _ => hgenerated⟩

/-- When a call for a channel with a service gives up. -/
theorem call_givesUp_iff (hcall : sdtRewriteNewChannelPacket vars channel buf = .ok (sent, st))
    (hactive : channel.sdtRewriteSkip = false) (hid : channel.serviceId ≠ 0) :
    st.channel.sdtRewriteSkip = true ↔ Rebuilds vars channel ∧ ¬ Announced vars channel ∧
      sdtRewriteAllSectionsSeen vars = .ok true := by
  cases sdtRewriteNewChannelPacket_spec hcall with
  | waits still | repeats still =>
    refine ⟨fun h => ?_, fun h => absurd h.1 still⟩
    exact absurd (hactive.symm.trans h) Bool.false_ne_true
  | fails _ _ rewrite =>
    obtain ⟨-, ⟨-, -, -, hnone, hkept⟩ | ⟨hr, -⟩⟩ := sdtChannelRewrite_cases rewrite
    · rw [hkept hid, hactive]
      exact ⟨fun h => (by cases h), fun h => absurd ⟨hid, h.1.actual, .inr h.2.2⟩ hnone⟩
    · cases hr
  | rebuilds due rewrite =>
    obtain ⟨-, ⟨hr, -⟩ | ⟨-, -, -, -, hcase⟩⟩ := sdtChannelRewrite_cases rewrite
    · cases hr
    rcases hcase with ⟨hann, hskip, -⟩ | ⟨hnone, hseen, hskip, -⟩
    · refine ⟨fun h => ?_, fun h => absurd hann h.2.1⟩
      exact absurd (hskip.symm.trans h) Bool.false_ne_true
    · exact ⟨fun _ => ⟨due, hnone, hseen⟩, fun _ => hskip⟩

/-- Only a call for the channel switches its skip flag on. -/
theorem step_skips {s s' : SdtState} (hstep : Step s e s') {i : Nat}
    {channel channel' : MumudvbChannel} (hfound : s.channels[i]? = some channel)
    (hfound' : s'.channels[i]? = some channel') (hactive : channel.sdtRewriteSkip = false)
    (hskip : channel'.sdtRewriteSkip = true) :
    ∃ buf sent st, e = .packet i s.vars channel buf ∧
      sdtRewriteNewChannelPacket s.vars channel buf = .ok (sent, st) ∧
      channel' = st.channel ∧ s'.vars = st.vars := by
  have hsame : channel' ≠ channel := by
    rintro rfl
    rw [hactive] at hskip
    cases hskip
  cases hstep with
  | @global mem updated vars call =>
    cases updated with
    | true =>
      rw [clearSkips, if_pos rfl, List.getElem?_map, hfound] at hfound'
      cases hfound'
      cases hskip
    | false => exact absurd (Option.some.inj (hfound'.symm.trans hfound)) hsame
  | @packet j before buf sent st found active call =>
    obtain ⟨rfl, rfl, rfl⟩ := changed_set found hfound hfound' hsame
    exact ⟨buf, sent, st, rfl, call, rfl, rfl⟩
  | @configure j before after found same =>
    obtain ⟨rfl, rfl, rfl⟩ := changed_set found hfound hfound' hsame
    rw [same.skip, hactive] at hskip
    cases hskip
  | @restart j before found =>
    obtain ⟨rfl, rfl, rfl⟩ := changed_set found hfound hfound' hsame
    exact absurd (hactive.symm.trans hskip) Bool.false_ne_true
  | add serviceId =>
    rw [List.getElem?_append_left (List.getElem?_eq_some_iff.mp hfound).1] at hfound'
    exact absurd (Option.some.inj (hfound'.symm.trans hfound)) hsame

/-- A call that searched for this version without success left the channel without it: a channel
whose search found its entry is at the current version. -/
def AttemptsKept (s : Watched) : Prop :=
  ∀ (i : Nat) (channel : MumudvbChannel), s.channels[i]? = some channel → ∀ a ∈ s.attempts i,
    a.channel.serviceId = channel.serviceId ∧
      (Rebuilds a.vars a.channel → Announced a.vars a.channel →
        channel.generatedSdtVersion = s.vars.sdtVersion)

theorem AttemptsKept.step (h : AttemptsKept s) (hstep : WatchedStep s e s') : AttemptsKept s' := by
  obtain ⟨⟨vars', channels'⟩, table', attempts'⟩ := s'
  obtain ⟨hsdt, -, -, hattempts⟩ := hstep
  by_cases hversion : vars'.sdtVersion = s.vars.sdtVersion
  case neg =>
    -- a new version: nothing has been searched in it
    rw [if_neg hversion] at hattempts
    intro i channel _ a ha
    rw [hattempts] at ha
    cases ha
  case pos =>
    rw [if_pos hversion] at hattempts
    subst hattempts
    cases hsdt with
    | @global mem updated _ call =>
      intro i channel hfound a ha
      obtain ⟨before, hbefore, hid, hgenerated⟩ : ∃ before, s.channels[i]? = some before ∧
          channel.serviceId = before.serviceId ∧
          channel.generatedSdtVersion = before.generatedSdtVersion := by
        cases updated with
        | true =>
          rw [clearSkips, if_pos rfl, List.getElem?_map, Option.map_eq_some_iff] at hfound
          obtain ⟨before, hbefore, rfl⟩ := hfound
          exact ⟨before, hbefore, rfl, rfl⟩
        | false => exact ⟨channel, hfound, rfl, rfl⟩
      obtain ⟨hsame, hat⟩ := h i before hbefore a ha
      exact ⟨hsame.trans hid.symm, fun hre hann => by rw [hgenerated, hat hre hann, hversion]⟩
    | @packet j before buf sent st found active call =>
      obtain ⟨-, hstays, hfinds⟩ := call_version call
      refine forall_set found ?_ ?_
      · intro a ha
        simp only [record, Function.update_self, List.mem_cons] at ha
        have hid := (sdtCall call).settings.serviceId
        rcases ha with rfl | ha
        · exact ⟨hid.symm, fun hre hann => (hfinds hre hann).trans hversion.symm⟩
        · obtain ⟨hsame, hat⟩ := h j before found a ha
          exact ⟨hsame.trans hid.symm, fun hre hann => (hstays (hat hre hann)).trans hversion.symm⟩
      · intro i channel hij hfound a ha
        simp only [record, Function.update_of_ne (Ne.symm hij)] at ha
        obtain ⟨hsame, hat⟩ := h i channel hfound a ha
        exact ⟨hsame, fun hre hann => (hat hre hann).trans hversion.symm⟩
    | @configure j before after found same =>
      refine forall_set found ?_ fun i channel _ => h i channel
      intro a ha
      obtain ⟨hsame, hat⟩ := h j before found a ha
      exact ⟨hsame.trans same.serviceId.symm, fun hre hann => same.version.trans (hat hre hann)⟩
    | @restart j before found =>
      refine forall_set found ?_ ?_
      · intro a ha
        simp only [record, Function.update_self] at ha
        cases ha
      · intro i channel hij hfound a ha
        simp only [record, Function.update_of_ne (Ne.symm hij)] at ha
        exact h i channel hfound a ha
    | add serviceId =>
      intro i channel hfound a ha
      by_cases hlast : i = s.channels.length
      · subst hlast
        simp only [record, Function.update_self] at ha
        cases ha
      · simp only [record, Function.update_of_ne hlast] at ha
        rw [List.getElem?_append, List.getElem?_singleton] at hfound
        split at hfound
        · exact h i channel hfound a ha
        · split at hfound
          · omega
          · cases hfound

theorem attemptsKept {past : List Event} (hrun : Run watchedSystem past s) : AttemptsKept s := by
  refine hrun.invariant (P := fun _ s => AttemptsKept s) ?_ (fun _ _ _ _ h => h.step)
  rintro s ⟨-, hnone⟩ i channel - a ha
  rw [hnone] at ha
  cases ha

/-- What an SDT packet does: the stored section gives the version; the version and `full_sdt_ok`
come from nowhere else. -/
def GlobalOutcome (vars : RewriteParameters) (updated : Bool) (vars' : RewriteParameters) : Prop :=
  (StoresSection vars updated vars' ∧
    vars'.sdtVersion = versionNumber vars'.fullSdt.dataFull.cells) ∨
  (¬ StoresSection vars updated vars' ∧ vars'.sdtVersion = vars.sdtVersion ∧
    vars'.fullSdtOk = vars.fullSdtOk)

theorem sdtGlobalLoop_stores {fuel : Nat} {mem : Option Packet} {updated : Bool}
    (h : sdtGlobalLoop fuel mem vars = .ok (updated, vars')) :
    GlobalOutcome vars updated vars' := by
  induction fuel generalizing mem vars with
  | zero => cases h
  | succ fuel ih =>
    rw [sdtGlobalLoop, bind_eq_ok] at h
    obtain ⟨⟨avail, fullSdt⟩, -, h⟩ := h
    dsimp only at h
    have hkept : ∀ others, ¬ StoresSection { vars with sdtNeedOthers := others } false
        { vars with sdtNeedOthers := others } := by
      rintro others (h | ⟨h, h'⟩)
      · cases h
      · exact absurd (h.symm.trans h') (by decide)
    split at h
    · split at h
      · have hlater := ih h
        exact hlater
      · split at h
        · cases h
          exact .inr ⟨hkept vars.sdtNeedOthers, rfl, rfl⟩
        · obtain ⟨seen, -, h⟩ := bind_eq_ok.mp h
          split at h
          case isTrue hothers =>
            cases h
            exact .inl ⟨.inr ⟨hothers, rfl⟩, rfl⟩
          case isFalse =>
            cases h
            exact .inl ⟨.inl rfl, rfl⟩
    · cases h
      exact .inr ⟨hkept vars.sdtNeedOthers, rfl, rfl⟩

theorem globalPacket_stores {mem : TableMemory} {updated : Bool}
    (h : sdtRewriteNewGlobalPacket mem vars = .ok (updated, vars')) :
    GlobalOutcome vars updated vars' := by
  obtain ⟨vars₁, hfirst, h⟩ := bind_eq_ok.mp h
  obtain ⟨⟨stored, vars₂⟩, hloop, h⟩ := bind_eq_ok.mp h
  obtain ⟨hothers, hversion, hok⟩ : vars₁.sdtNeedOthers = vars.sdtNeedOthers ∧
      vars₁.sdtVersion = vars.sdtVersion ∧ vars₁.fullSdtOk = vars.fullSdtOk := by
    split at hfirst
    · cases hfirst
      exact ⟨rfl, rfl, rfl⟩
    · obtain ⟨needsUpdate, -, hfirst⟩ := bind_eq_ok.mp hfirst
      split at hfirst <;> cases hfirst <;> exact ⟨rfl, rfl, rfl⟩
  have hcase : GlobalOutcome vars stored vars₂ := by
    rw [GlobalOutcome, StoresSection, ← hothers, ← hversion, ← hok]
    split at hloop
    · exact sdtGlobalLoop_stores hloop
    · cases hloop
      refine .inr ⟨?_, rfl, rfl⟩
      rintro (h | ⟨h, h'⟩)
      · cases h
      · exact absurd (h.symm.trans h') (by decide)
  dsimp only at h
  split at h
  case isTrue hstored =>
    cases h
    exact hstored ▸ hcase
  case isFalse hstored =>
    rw [Bool.not_eq_true] at hstored
    subst hstored
    cases h
    exact hcase

/-- The stored section has the version of the one it holds. -/
theorem Holds.version {sdt : List UInt8} (h : Holds vars sdt) (hlen : sdtLen ≤ sdt.length) :
    versionNumber vars.fullSdt.dataFull.cells = versionNumber sdt := by
  have h8 : 8 ≤ sdt.length := Nat.le_trans (by decide) hlen
  have hcells : 8 ≤ vars.fullSdt.dataFull.cells.length := by
    rw [vars.fullSdt.dataFull.length_cells]
    decide
  rw [Holds, onlySectionAt_zero] at h
  obtain ⟨rest, hrest⟩ := h
  rw [← versionNumber_makeOnlySection hcells, ← hrest, ← versionNumber_makeOnlySection h8,
    versionNumber, versionNumber, byteAt_append_left (by rw [length_makeOnlySection]; omega)]

/-- The version on the air is the current one. -/
theorem current_version {past : List Event} (hrun : Run watchedSystem past s) :
    s.vars.fullSdtOk = true → s.vars.sdtVersion = s.table.version := by
  refine hrun.invariant (P := fun _ s => s.vars.fullSdtOk = true →
    s.vars.sdtVersion = s.table.version) ?_ ?_
  · rintro s ⟨⟨⟨forceEit, hvars⟩, -⟩, -⟩ hok
    rw [hvars] at hok
    cases hok
  · rintro past s e ⟨⟨vars', channels'⟩, table', attempts'⟩ ih ⟨hsdt, htable, honAir, -⟩ hok
    cases hsdt with
    | @global mem updated _ call =>
      obtain ⟨hstores, hversion⟩ | ⟨-, hversion, hsame⟩ := globalPacket_stores call
      · obtain ⟨sdt, hmem, hholds⟩ := honAir mem updated rfl call hstores
        have hsection := table'.isSection sdt hmem
        rw [hversion, hholds.version hsection.header, hsection.version]
      · rw [hversion, htable hversion]
        exact ih (hsame ▸ hok)
    | @packet i channel buf sent st found active call =>
      obtain ⟨hversion, -⟩ := call_version call
      rw [hversion, htable hversion]
      refine ih ?_
      cases sdtRewriteNewChannelPacket_spec call with
      | waits | repeats => exact hok
      | fails stored => exact stored
      | rebuilds due => exact due.stored
    | _ =>
      rw [htable rfl]
      exact ih hok

theorem onlyAbsent_of_examined (h : AttemptsKept s) (hstep : WatchedStep s e s')
    (hexamined : Examined s e) : OnlyAbsent s s' := by
  intro i channel channel' hfound hfound' hactive hskip hid sdt hsdt hcontains
  obtain ⟨buf, sent, st, rfl, hcall, rfl, hvars⟩ :=
    step_skips hstep.sdt hfound hfound' hactive hskip
  have hsame := (sdtCall hcall).settings.serviceId
  rw [hsame] at hid hcontains
  obtain ⟨hversion, -⟩ := call_version hcall
  obtain ⟨hre, hnone, hseen⟩ := (call_givesUp_iff hcall hactive hid).mp hskip
  rw [hstep.sameTable (by rw [hvars, hversion])] at hsdt
  obtain ⟨⟨a, ha, hsearched, hholds⟩, hfits⟩ := hexamined hre hnone hseen sdt hsdt hcontains
  rcases List.mem_cons.mp ha with rfl | ha
  · exact hnone (hfits _ hholds)
  · -- an earlier search found the entry: then the channel is not out of date
    obtain ⟨hid', hat⟩ := h i channel hfound a ha
    rw [← hid'] at hfits
    exact hre.outdated (hat hsearched (hfits _ hholds))

theorem examined_of_onlyAbsent (hstep : WatchedStep s e s') (habsent : OnlyAbsent s s') :
    Examined s e := by
  obtain ⟨⟨vars', channels'⟩, table', attempts'⟩ := s'
  cases hstep.sdt with
  | @packet i channel buf sent st found active call =>
    intro hre hnone hseen sdt hsdt hcontains
    have hsame := (sdtCall call).settings.serviceId
    have hskip := (call_givesUp_iff call active hre.serviceId).mpr ⟨hre, hnone, hseen⟩
    obtain ⟨hversion, -⟩ := call_version call
    have htable : table' = s.table := hstep.sameTable hversion
    refine absurd (hsame ▸ hcontains) (habsent i channel st.channel found
      (List.getElem?_set_self (List.getElem?_eq_some_iff.mp found).1) active hskip
      (hsame ▸ hre.serviceId) sdt (htable ▸ hsdt))
  | _ => trivial

/-- A run gives up absent services only, if and only if at every call that gives up each section of
the current version that contains the service had been searched for the channel, and had an entry
that fits. -/
theorem examined_run_iff (past : List Event) (s : Watched) :
    Run (watchedSystem.restrict Examined) past s ↔ Run absentSystem past s := by
  refine run_congr ?_ (fun past s e s' hrun _ => ⟨fun hstep => ?_, fun hstep => ?_⟩) past s
  · rfl
  · have hkept := attemptsKept hrun.of_restrict
    exact ⟨hstep.2, onlyAbsent_of_examined hkept hstep.2 hstep.1⟩
  · exact ⟨examined_of_onlyAbsent hstep.1 hstep.2, hstep.1⟩

/-- What is watched takes no part in the run. -/
theorem run_sdt {past : List Event} (hrun : Run watchedSystem past s) :
    Run sdtSystem past s.toSdtState := by
  induction hrun with
  | start initial => exact .start initial.1
  | next _ step ih => exact .next ih step.sdt

/-! ## Computed runs -/

/-- An SDT packet, a call for a channel, or a channel that becomes ready. -/
inductive Input where
  | packet (mem : TableMemory)
  | call (i : Nat) (buf : Packet)
  | ready (i : Nat)

/-- The next state when the version on the air stays the same. -/
def watch (s : Watched) (e : Event) (sdt : SdtState) : Watched :=
  ⟨sdt, s.table,
    if sdt.vars.sdtVersion = s.vars.sdtVersion then record s.attempts e else fun _ => []⟩

def followPacket (s : Watched) (mem : TableMemory) : Checked (Option Watched) := do
  let (updated, vars) ← sdtRewriteNewGlobalPacket mem s.vars
  let onAir := s.table.sections.any fun sdt => decide (Holds vars sdt)
  if (updated || s.vars.sdtNeedOthers) && !onAir then return none
  else return some (watch s (.global mem) ⟨vars, clearSkips updated s.channels⟩)

def followCall (s : Watched) (i : Nat) (buf : Packet) : Checked (Option Watched) :=
  match s.channels[i]? with
  | none => .ok none
  | some channel =>
    if channel.sdtRewriteSkip then .ok none
    else do
      let (_, st) ← sdtRewriteNewChannelPacket s.vars channel buf
      return some (watch s (.packet i s.vars channel buf) ⟨st.vars, s.channels.set i st.channel⟩)

def followReady (s : Watched) (i : Nat) : Option Watched :=
  (s.channels[i]?).map fun channel => watch s (.configure i)
    ⟨s.vars, s.channels.set i { channel with channelReady := .ready }⟩

/-- The state after an input. -/
def followOne (s : Watched) : Input → Checked (Option Watched)
  | .packet mem => followPacket s mem
  | .call i buf => followCall s i buf
  | .ready i => .ok (followReady s i)

theorem followOne_step {input : Input} (h : followOne s input = .ok (some s')) :
    ∃ e, WatchedStep s e s' := by
  cases input with
  | packet mem =>
    obtain ⟨⟨updated, vars⟩, hcall, h⟩ := bind_eq_ok.mp h
    dsimp only at h
    split at h
    case isTrue => cases h
    case isFalse hair =>
      cases h
      refine ⟨_, .global hcall, fun _ => rfl, ?_, rfl⟩
      intro mem' updated' hevent hcall' hstores
      cases hevent
      obtain rfl : updated = updated' := (Prod.mk.inj (Except.ok.inj (hcall.symm.trans hcall'))).1
      have hdue : (updated || s.vars.sdtNeedOthers) = true := by
        rcases hstores with hstores | ⟨hstores, -⟩
        · rw [hstores, Bool.true_or]
        · rw [hstores, Bool.or_true]
      simp only [hdue, Bool.true_and, Bool.not_eq_true, Bool.not_eq_false', List.any_eq_true,
        decide_eq_true_eq] at hair
      exact hair
  | call i buf =>
    rw [followOne, followCall] at h
    split at h
    case h_1 => cases h
    case h_2 channel hfound =>
      split at h
      case isTrue => cases h
      case isFalse hactive =>
        obtain ⟨⟨sent, st⟩, hcall, h⟩ := bind_eq_ok.mp h
        cases h
        exact ⟨_, .packet hfound (Bool.not_eq_true _ ▸ hactive) hcall, fun _ => rfl,
          (fun _ _ h => by cases h), rfl⟩
  | ready i =>
    obtain ⟨channel, hfound, rfl⟩ := Option.map_eq_some_iff.mp (Except.ok.inj h)
    exact ⟨_, .configure hfound ⟨rfl, rfl, rfl, rfl⟩, fun _ => rfl, (fun _ _ h => by cases h), rfl⟩

/-- The state after these inputs. -/
def follow : Watched → List Input → Checked (Option Watched)
  | s, [] => .ok (some s)
  | s, input :: inputs => do
    match ← followOne s input with
    | none => return none
    | some s => follow s inputs

theorem run_follow {past : List Event} {inputs : List Input} (hrun : Run watchedSystem past s)
    (h : follow s inputs = .ok (some s')) : ∃ past', Run watchedSystem past' s' := by
  induction inputs generalizing s past with
  | nil =>
    cases h
    exact ⟨past, hrun⟩
  | cons input inputs ih =>
    obtain ⟨r, hone, h⟩ := bind_eq_ok.mp h
    cases r with
    | none => cases h
    | some s₁ =>
      obtain ⟨e, hstep⟩ := followOne_step hone
      exact ih (.next hrun hstep) h

/-- One of the two sections of an SDT, with one service. -/
def partOf (number serviceId : UInt8) (crc : List UInt8) : List UInt8 :=
  [0x42, 0xf0, 0x18, 0x00, 0x01, 0xc1, number, 0x01, 0x00, 0x01, 0xff, 0x00, serviceId, 0xfc, 0x80,
    0x07, 0x48, 0x05, 0x01, 0x01, 0x41, 0x01, 0x42] ++ crc

def firstPart : List UInt8 := partOf 0 1 [0x50, 0xf2, 0xc5, 0xa6]
def secondPart : List UInt8 := partOf 1 2 [0x49, 0x15, 0x61, 0x7e]

def twoParts : SdtTable where
  version := 0
  sections := [firstPart, secondPart]
  isSection := by
    intro sdt hsdt
    rcases List.mem_pair.mp hsdt with rfl | rfl <;>
      exact ⟨by decide, by decide, by decide, by decide, by decide⟩

/-- The packet with the first part, or the one with the second. -/
def firstMemory : TableMemory :=
  ⟨[0x47, 0x40, 0x11, 0x10, 0x00] ++ firstPart ++ List.replicate 164 0xff, by decide +kernel⟩
def secondMemory : TableMemory :=
  ⟨[0x47, 0x40, 0x11, 0x11, 0x00] ++ secondPart ++ List.replicate 164 0xff, by decide +kernel⟩

/-- A channel for service 2 is ready, one for service 1 is not. -/
def twoChannels : Watched where
  vars := { initRewrV with rewriteSdt := .on, sdtForceEit := .undefined }
  channels := [readyFor 2, mumuInitChan { zeroedChannel with serviceId := 1 }]
  table := twoParts
  attempts := fun _ => []

theorem initial_twoChannels : watchedSystem.Initial twoChannels := by
  refine ⟨⟨⟨.undefined, rfl⟩, fun channel hchannel => ?_⟩, rfl⟩
  rcases List.mem_pair.mp hchannel with rfl | rfl <;> exact ⟨rfl, rfl, rfl, rfl⟩

/-- The first part is stored and searched for the ready channel, which asks for another one; when
the second part is stored, the other channel becomes ready. -/
def late : List Input :=
  [.packet firstMemory, .packet secondMemory, .call 0 firstMemory.packet, .packet firstMemory,
    .ready 1]

/-- The states before and after the first call for the other channel. -/
def lastCall : Checked (Option (Watched × Watched)) := do
  match ← follow twoChannels late with
  | none => return none
  | some s => return (← followOne s (.call 1 firstMemory.packet)).map fun s' => (s, s')

theorem lastCall_run (h : lastCall = .ok (some (s, s'))) :
    ∃ past e, Run watchedSystem past s ∧ WatchedStep s e s' := by
  obtain ⟨r, hfollow, h⟩ := bind_eq_ok.mp h
  cases r with
  | none => cases h
  | some s₁ =>
    obtain ⟨r', hone, h⟩ := bind_eq_ok.mp h
    obtain ⟨s₂, rfl, hpair⟩ := Option.map_eq_some_iff.mp (Except.ok.inj h)
    cases hpair
    obtain ⟨past, hrun⟩ := run_follow (.start initial_twoChannels) hfollow
    obtain ⟨e, hstep⟩ := followOne_step hone
    exact ⟨past, e, hrun, hstep⟩

/-- Its only call finds the second part and all section numbers seen: it is given up, although the
first part contains its service. -/
theorem not_onlyAbsent_late : ∃ past s e s', Run watchedSystem past s ∧ WatchedStep s e s' ∧
    ¬ OnlyAbsent s s' := by
  have h : lastCall.map (fun r => r.map fun p => (decide (firstPart ∈ p.2.table.sections),
      (p.1.channels[1]?).map (·.sdtRewriteSkip),
      (p.2.channels[1]?).map fun channel => (channel.sdtRewriteSkip, channel.serviceId))) =
      .ok (some (true, some false, some (true, 1))) := by decide +kernel
  obtain ⟨r, hr, h⟩ := map_eq_ok h
  obtain ⟨⟨s, s'⟩, rfl, hvalues⟩ := Option.map_eq_some_iff.mp h
  simp only [Prod.mk.injEq, Option.map_eq_some_iff, decide_eq_true_eq] at hvalues
  obtain ⟨hmem, ⟨channel, hfound, hactive⟩, channel', hfound', hskip, hid⟩ := hvalues
  obtain ⟨past, e, hrun, hstep⟩ := lastCall_run hr
  refine ⟨past, s, e, s', hrun, hstep, fun habsent => ?_⟩
  refine habsent 1 channel channel' hfound hfound' hactive hskip (by rw [hid]; decide) firstPart
    hmem ?_
  rw [hid]
  exact .here (by decide) (by decide)

end MuMuDVB.SdtSkips
