import MuMuDVB.GrowingList
import MuMuDVB.RecordedRun
import MuMuDVB.TableReads

/-!
# The table of channels

Sections of the PAT come in any order and of any version. The services of a
section that is read get a channel as long as there is room; the table of the
channels, seen as a list of service ids, only grows at its end.
-/
namespace MuMuDVB.ChannelTable

open CheckedMemory RecordedRun GrowingList MuMuDVB.TsHeader MuMuDVB.Ts MuMuDVB.TsAssembler
open MuMuDVB.Autoconf MuMuDVB.AutoconfPat
open MuMuDVB.AutoconfCat (maxChannels)
open MuMuDVB.RewritePat (programNumber)

/-- A section that passed the CRC check, in the structure that hands it out. -/
structure AcceptedSection where
  pkt : MumudvbTsPacket
  accepted : Accepted (pkt.dataFull.cells.take pkt.lenFull)

def AcceptedSection.bytes (e : AcceptedSection) : List UInt8 := e.pkt.dataFull.cells

/-- The services that the section lists. -/
def AcceptedSection.services (e : AcceptedSection) : List Int :=
  (patPrograms e.bytes).map fun prog => (programNumber prog : Int)

structure State where
  autoP : AutoP
  chanP : MumuChanP
  /-- the tables of channels before, the last one first; nothing reads this -/
  earlier : List MumuChanP

/-- The section is in `data_full` when it is read. -/
def receive (s : AutoP) (e : AcceptedSection) : AutoP :=
  { s with pat := { s.pat with temp := e.pkt } }

inductive Step : State → AcceptedSection → State → Prop where
  | read {s : State} {e : AcceptedSection} {autoP : AutoP} {chanP : MumuChanP}
      (call : autoconfReadPat (receive s.autoP e) s.chanP = .ok (autoP, chanP)) :
      Step s e ⟨autoP, chanP, s.chanP :: s.earlier⟩

def serviceIds (chanP : MumuChanP) : List Int := chanP.channels.map fun chan => chan.http.serviceId

/-- Different, unless it is the id of a channel without a service. -/
def Apart (a b : Int) : Prop := a ≠ 0 → a ≠ b

def system : System State AcceptedSection where
  Initial s := (∃ options, s.autoP = initAconfV options) ∧ (serviceIds s.chanP).Pairwise Apart ∧
    s.earlier = []
  Step := Step

/-- No room for another channel. -/
def Full (chanP : MumuChanP) : Prop := maxChannels - 1 ≤ chanP.channels.length

/-- The service has a channel. -/
def HasChannel (chanP : MumuChanP) (service : Int) : Prop :=
  ∃ chan ∈ chanP.channels, chan.http.serviceId = service

/-- Every service of the section has a channel, unless the table is full. -/
def Complete (chanP : MumuChanP) (e : AcceptedSection) : Prop :=
  ∀ service ∈ e.services, HasChannel chanP service ∨ Full chanP

structure TableKept (past : List AcceptedSection) (s : State) : Prop where
  number : ∀ before ∈ s.earlier, before.channels.length ≠ s.chanP.channels.length →
    s.chanP.channels.length < maxChannels
  distinct : (serviceIds s.chanP).Pairwise Apart
  complete : ∀ e ∈ past, currentNextIndicator e.bytes = 1 → Complete s.chanP e
  keeps : ∀ before ∈ s.earlier, ∀ (i : Nat) (chan : AutoChannel),
    before.channels[i]? = some chan → ∃ chan' : AutoChannel,
      s.chanP.channels[i]? = some chan' ∧ chan'.http.serviceId = chan.http.serviceId

/-- An applicable section that is skipped lists no service without a channel. -/
def NothingMissed (s : State) (e : AcceptedSection) : Prop :=
  currentNextIndicator e.bytes = 1 → s.autoP.pat.Skips e.bytes → Complete s.chanP e

variable {chanP chanP' : MumuChanP} {prog : List UInt8} {s s' : State} {e : AcceptedSection}

theorem serviceIds_map {f : AutoChannel → AutoChannel} (hf : ∀ chan, (f chan).http = chan.http) :
    serviceIds (chanP.map f) = serviceIds chanP := by
  simp only [serviceIds, MumuChanP.map, List.map_map]
  exact List.map_congr_left fun chan _ => by rw [Function.comp_apply, hf]

theorem markExisting_http (chan : AutoChannel) : (markExisting chan).http = chan.http := by
  rw [markExisting]
  split <;> rfl

theorem sweep_http (chan : AutoChannel) : (sweep chan).http = chan.http := by
  rw [sweep]
  split <;> rfl

/-- One program, seen on the list of service ids. -/
theorem serviceIds_updated (h : Updated prog chanP chanP') :
    serviceIds chanP' = enter (maxChannels - 1) (serviceIds chanP) (programNumber prog : Int) := by
  cases h with
  | @found i chan chan' here service update =>
    have hmem : (programNumber prog : Int) ∈ serviceIds chanP :=
      List.mem_map.mpr ⟨chan, List.mem_of_getElem? here, service⟩
    rw [enter_of_mem hmem, serviceIds, MumuChanP.set, List.map_set]
    obtain ⟨pmtPid, hserver⟩ := updateProgram_server update
    have hsame : chan'.http.serviceId = chan.http.serviceId := by rw [hserver]
    rw [hsame]
    refine List.ext_getElem? fun j => ?_
    by_cases hij : i = j
    · subst hij
      have hi := (List.getElem?_eq_some_iff.mp here).1
      rw [List.getElem?_set_self (by rw [List.length_map]; exact hi), serviceIds,
        List.getElem?_map, here, Option.map_some]
    · rw [List.getElem?_set_ne hij]
      rfl
  | @created chan chan' chanP' none room new update behind =>
    have hmem : (programNumber prog : Int) ∉ serviceIds chanP := by
      intro hmem
      obtain ⟨old, hold, hservice⟩ := List.mem_map.mp hmem
      exact none old hold hservice
    obtain ⟨pmtPid, hserver⟩ := updateProgram_server update
    have hservice : chan'.http.serviceId = programNumber prog := by
      rw [hserver, newChannel_server new]
    rw [enter_of_not_mem hmem (by rw [serviceIds, List.length_map]; exact room), serviceIds, behind,
      List.map_append, List.map_singleton, hservice, serviceIds]
  | full none full =>
    rw [enter_of_full (by rw [serviceIds, List.length_map]; exact full)]

theorem serviceIds_programs {progs : List (List UInt8)}
    (h : progs.foldlM autoconfPatUpdateChan chanP = .ok chanP') :
    serviceIds chanP' = (progs.map fun prog => (programNumber prog : Int)).foldl
      (enter (maxChannels - 1)) (serviceIds chanP) := by
  induction progs generalizing chanP with
  | nil =>
    cases h
    rfl
  | cons prog progs ih =>
    rw [List.foldlM_cons] at h
    obtain ⟨chanP₁, hupdate, h⟩ := bind_eq_ok.mp h
    rw [ih h, serviceIds_updated (autoconfPatUpdateChan_cases hupdate), List.map_cons,
      List.foldl_cons]

theorem serviceIds_startSection (s : AutoP) (pat : List UInt8) (noted : Tracker) :
    serviceIds (startSection s chanP pat noted).2 = serviceIds chanP := by
  rw [startSection]
  split
  · rfl
  · exact serviceIds_map markExisting_http

theorem serviceIds_finishPat (s : AutoP) (pat : List UInt8) :
    serviceIds (finishPat s chanP pat).2 = serviceIds chanP := by
  rw [finishPat]
  split
  · rfl
  · exact serviceIds_map sweep_http

/-- A section, seen on the list of service ids: it is skipped, it is not applicable, or its services
are entered. -/
theorem serviceIds_read {s s' : AutoP} {pat : List UInt8} (h : PatRead s chanP pat s' chanP') :
    serviceIds chanP' = serviceIds chanP ∧ (s.pat.Skips pat ∨ currentNextIndicator pat = 0) ∨
      ¬ s.pat.Skips pat ∧ serviceIds chanP' =
        ((patPrograms pat).map fun prog => (programNumber prog : Int)).foldl
          (enter (maxChannels - 1)) (serviceIds chanP) := by
  cases h with
  | skipped skip => exact .inl ⟨rfl, .inl skip⟩
  | next unseen stored next => exact .inl ⟨serviceIds_startSection s pat _, .inr next⟩
  | read unseen stored current programs =>
    refine .inr ⟨unseen, ?_⟩
    rw [serviceIds_finishPat, serviceIds_programs programs, serviceIds_startSection]

theorem hasChannel_iff {service : Int} : HasChannel chanP service ↔ service ∈ serviceIds chanP := by
  rw [serviceIds, List.mem_map]
  rfl

theorem full_iff : Full chanP ↔ maxChannels - 1 ≤ (serviceIds chanP).length := by
  rw [serviceIds, List.length_map]
  rfl

theorem complete_of_prefix (h : serviceIds chanP <+: serviceIds chanP')
    (hcomplete : Complete chanP e) : Complete chanP' e := by
  intro service hservice
  have hbefore := hcomplete service hservice
  rw [hasChannel_iff, full_iff] at hbefore ⊢
  exact mem_or_full_of_prefix h hbefore

/-- What a step does to the list of service ids. -/
structure Grows (s : State) (e : AcceptedSection) (s' : State) : Prop where
  earlier : s'.earlier = s.chanP :: s.earlier
  grows : serviceIds s.chanP <+: serviceIds s'.chanP
  number : serviceIds s'.chanP = serviceIds s.chanP ∨
    (serviceIds s'.chanP).length ≤ maxChannels - 1
  distinct : (serviceIds s.chanP).Pairwise Apart → (serviceIds s'.chanP).Pairwise Apart
  read : currentNextIndicator e.bytes = 1 →
    if s.autoP.pat.Skips e.bytes then serviceIds s'.chanP = serviceIds s.chanP
    else Complete s'.chanP e

theorem grows_of_step (h : Step s e s') : Grows s e s' := by
  cases h with
  | @read autoP chanP call =>
    have hskips : (receive s.autoP e).pat.Skips e.bytes ↔ s.autoP.pat.Skips e.bytes := Iff.rfl
    rcases serviceIds_read (autoconfReadPat_cases call) with ⟨hsame, hwhy⟩ | ⟨hread, hentered⟩
    · refine ⟨rfl, hsame ▸ List.prefix_rfl, .inl hsame, fun h => hsame ▸ h, fun hcurrent => ?_⟩
      rcases hwhy with hskip | hnext
      · rw [if_pos (hskips.mp hskip)]
        exact hsame
      · exact absurd (hnext.symm.trans hcurrent) (by decide)
    · refine ⟨rfl, ?_, ?_, fun h => ?_, fun hcurrent => ?_⟩
      · rw [hentered]
        exact prefix_foldl_enter _ _ _
      · rw [hentered]
        exact length_foldl_enter _ _
      · rw [hentered]
        exact pairwise_foldl_enter (R := Apart) (fun _ _ hne _ => hne) _ h
      · rw [if_neg fun hskip => hread (hskips.mpr hskip)]
        intro service hservice
        rw [hasChannel_iff, full_iff]
        simp only [hentered]
        exact mem_foldl_enter _ _ hservice

/-- A longer list keeps the channels where they are. -/
theorem keeps_of_prefix (h : serviceIds chanP <+: serviceIds chanP') {i : Nat} {chan : AutoChannel}
    (hchan : chanP.channels[i]? = some chan) : ∃ chan' : AutoChannel,
      chanP'.channels[i]? = some chan' ∧ chan'.http.serviceId = chan.http.serviceId := by
  have hid : (serviceIds chanP)[i]? = some chan.http.serviceId := by
    rw [serviceIds, List.getElem?_map, hchan, Option.map_some]
  have hid' := (List.prefix_iff_getElem?.mp h i (List.getElem?_eq_some_iff.mp hid).1)
  rw [(List.getElem?_eq_some_iff.mp hid).2, serviceIds, List.getElem?_map] at hid'
  obtain ⟨chan', hchan', hsame⟩ := Option.map_eq_some_iff.mp hid'
  exact ⟨chan', hchan', hsame⟩

theorem earlier_prefix {past : List AcceptedSection} (hrun : Run system past s) :
    ∀ before ∈ s.earlier, serviceIds before <+: serviceIds s.chanP ∧
      (before.channels.length ≠ s.chanP.channels.length →
        s.chanP.channels.length < maxChannels) := by
  refine hrun.invariant (P := fun _ s => ∀ before ∈ s.earlier,
    serviceIds before <+: serviceIds s.chanP ∧
      (before.channels.length ≠ s.chanP.channels.length →
        s.chanP.channels.length < maxChannels)) ?_ ?_
  · intro s hinitial before hbefore
    rw [hinitial.2.2] at hbefore
    cases hbefore
  · intro past s e s' ih hstep before hbefore
    have hgrows := grows_of_step hstep
    have hlength : ∀ chanP, (serviceIds chanP).length = chanP.channels.length :=
      fun chanP => List.length_map _
    have hnumber := hgrows.number.imp (congrArg List.length) id
    simp only [hlength] at hnumber
    rw [hgrows.earlier] at hbefore
    have hmax : maxChannels - 1 < maxChannels := by decide
    rcases List.mem_cons.mp hbefore with rfl | hbefore
    · refine ⟨hgrows.grows, fun hne => ?_⟩
      rcases hnumber with hsame | hle
      · exact absurd hsame.symm hne
      · exact Nat.lt_of_le_of_lt hle hmax
    · obtain ⟨hpre, hlt⟩ := ih before hbefore
      refine ⟨hpre.trans hgrows.grows, fun hne => ?_⟩
      rcases hnumber with hsame | hle
      · rw [hsame] at hne ⊢
        exact hlt hne
      · exact Nat.lt_of_le_of_lt hle hmax

/-- In every state of a run the table of channels is kept, if and only if every applicable section
that is skipped lists only services that have a channel, or the table is full. -/
theorem tableKept_run_iff (past : List AcceptedSection) (s : State) :
    Run (system.restrict NothingMissed) past s ↔ Along system TableKept past s := by
  refine along_iff ?_ ?_ past s
  · rintro s ⟨-, hdistinct, hearlier⟩
    refine ⟨?_, hdistinct, fun e he => absurd he List.not_mem_nil, ?_⟩
    · rw [hearlier]
      exact fun before hbefore => absurd hbefore List.not_mem_nil
    · rw [hearlier]
      exact fun before hbefore => absurd hbefore List.not_mem_nil
  · intro past s e s' hrun hkept hstep
    have hgrows := grows_of_step hstep
    have hearlier := earlier_prefix (.next hrun hstep)
    constructor
    · intro hkept' hcurrent hskip
      have hsame := hgrows.read hcurrent
      rw [if_pos hskip] at hsame
      have hcomplete := hkept'.complete e List.mem_cons_self hcurrent
      exact complete_of_prefix (hsame ▸ List.prefix_rfl) hcomplete
    · intro hmissed
      refine ⟨fun before hbefore => (hearlier before hbefore).2, hgrows.distinct hkept.distinct,
        fun e' he' hcurrent => ?_,
        fun before hbefore i chan => keeps_of_prefix (hearlier before hbefore).1⟩
      rcases List.mem_cons.mp he' with rfl | he'
      · by_cases hskip : s.autoP.pat.Skips e'.bytes
        · exact complete_of_prefix hgrows.grows (hmissed hcurrent hskip)
        · have hread := hgrows.read hcurrent
          rw [if_neg hskip] at hread
          exact hread
      · exact complete_of_prefix hgrows.grows (hkept.complete e' he' hcurrent)

/-- The sections are read one after the other. -/
def readAll (s : State) (sections : List AcceptedSection) : Checked State :=
  sections.foldlM (fun s e => do
    let (autoP, chanP) ← autoconfReadPat (receive s.autoP e) s.chanP
    return ⟨autoP, chanP, s.chanP :: s.earlier⟩) s

theorem run_readAll {sections past : List AcceptedSection} (hrun : Run system past s)
    (h : readAll s sections = .ok s') : Run system (sections.reverse ++ past) s' := by
  rw [← List.map_id sections]
  refine hrun.foldlM id (fun s e s' hcall => ?_) h
  obtain ⟨⟨autoP, chanP⟩, hpat, hs'⟩ := bind_eq_ok.mp hcall
  cases hs'
  exact Step.read hpat

/-- Section 0 of version 1, first as the next table and then in force. -/
def masked : List AcceptedSection :=
  [⟨CatCollection.handedOut TableReads.nextPat (by decide), by decide +kernel⟩,
    ⟨CatCollection.handedOut TableReads.currentPat (by decide), by decide +kernel⟩]

/-- The service of a section that is in force has no channel. -/
theorem not_tableKept_masked : ∃ past s, Run system past s ∧ ¬ TableKept past s := by
  have h : (readAll ⟨TableReads.started, TableReads.noChannels, []⟩ masked).map (fun s =>
      s.chanP.channels.length) = .ok 0 := by decide +kernel
  obtain ⟨s, hread, hnone⟩ := map_eq_ok h
  refine ⟨_, s, run_readAll (.start ⟨⟨_, rfl⟩, List.Pairwise.nil, rfl⟩) hread, fun hkept => ?_⟩
  have hcomplete := hkept.complete ⟨CatCollection.handedOut TableReads.currentPat (by decide),
    by decide +kernel⟩ List.mem_cons_self (by decide +kernel) 1 (by decide +kernel)
  rcases hcomplete with ⟨chan, hchan, -⟩ | hfull
  · rw [List.length_eq_zero_iff.mp hnone] at hchan
    cases hchan
  · rw [Full, hnone] at hfull
    exact absurd hfull (by decide)

end MuMuDVB.ChannelTable
