import MuMuDVB.ChannelTable
import MuMuDVB.PidFilters

/-!
# Services that leave the table

A new version of the PAT marks the channels that are ready, a program takes its
mark away, and the marks that are left in the end are swept. A service that was
not ready when the version changed is never marked, and the status of its
channel can come up afterwards.
-/
namespace MuMuDVB.RemovedServices

open CheckedMemory RecordedRun MuMuDVB.TsHeader MuMuDVB.Ts MuMuDVB.Channel MuMuDVB.Autoconf
open MuMuDVB.AutoconfPat MuMuDVB.AutoconfTables MuMuDVB.ChannelTable
open MuMuDVB.UnicastClients (UnicastChannel UnicastVars)
open MuMuDVB.ChannelStatus (NetP televisionTypes radioTypes updateChanStatus updateChannelNet)
open MuMuDVB.PidFilters (isAlmostReady)
open MuMuDVB.RewritePat (programNumber)

/-- The part of the channels that the server and the status updates see. -/
def server (chanP : MumuChanP) : List UnicastChannel :=
  chanP.channels.map AutoChannel.toUnicastChannel

def putServer (chanP : MumuChanP) (channels : List UnicastChannel) : MumuChanP :=
  ⟨List.zipWith (fun chan channel => { chan with toUnicastChannel := channel }) chanP.channels
    channels, by
    rw [List.length_zipWith]
    exact Nat.le_trans (Nat.min_le_left _ _) chanP.atMost⟩

/-- `autoconf_update_chan_status`. -/
def autoconfUpdateChanStatus (auto : ChannelStatus.AutoP) (chanP : MumuChanP) : MumuChanP :=
  putServer chanP (ChannelStatus.autoconfUpdateChanStatus auto (server chanP))

/-- `update_chan_net`, the rest of the server being in some state. -/
def updateChanNet (net : NetP) (vars : UnicastVars) (chanP : MumuChanP) : MumuChanP :=
  putServer chanP (ChannelStatus.updateChanNet net { vars with channels := server chanP }).channels

structure State where
  autoP : AutoP
  chanP : MumuChanP
  /-- the services that the sections of the stored version list, as far as they have come; nothing
  reads this -/
  listed : List Int

inductive Event where
  | pat (e : AcceptedSection)
  | sdt (e : AcceptedSection)
  | status
  | net (net : NetP) (vars : UnicastVars)

/-- A section of a version that is not the stored one starts a new list. -/
def listedAfter (s : State) (e : AcceptedSection) : List Int :=
  if (versionNumber e.bytes : Int) = s.autoP.pat.version then s.listed ++ e.services
  else e.services

def receiveSdt (s : AutoP) (e : AcceptedSection) : AutoP :=
  { s with sdt := { s.sdt with temp := e.pkt } }

/-- Sections of the PAT and the SDT are read, and the status of the channels is updated. -/
inductive Step (env : Surroundings) : State → Event → State → Prop where
  | pat {s : State} {e : AcceptedSection} {autoP : AutoP} {chanP : MumuChanP}
      (call : autoconfReadPat (receive s.autoP e) s.chanP = .ok (autoP, chanP)) :
      Step env s (.pat e) ⟨autoP, chanP, listedAfter s e⟩
  | sdt {s : State} {e : AcceptedSection} {autoP : AutoP} {chanP : MumuChanP}
      (call : autoconfReadSdt env (receiveSdt s.autoP e) s.chanP = .ok (autoP, chanP)) :
      Step env s (.sdt e) ⟨autoP, chanP, s.listed⟩
  | status {s : State} :
      Step env s .status { s with chanP := autoconfUpdateChanStatus s.autoP.options s.chanP }
  | net {s : State} {net : NetP} {vars : UnicastVars} :
      Step env s (.net net vars) { s with chanP := updateChanNet net vars s.chanP }

def system (env : Surroundings) : System State Event where
  Initial s := (∃ options, s.autoP = initAconfV options) ∧ s.listed = []
  Step := Step env

/-- The services whose channels are up and were detected are listed. -/
def UpListed (channels : List UnicastChannel) (listed : List Int) : Prop :=
  ∀ c ∈ channels, c.serviceIdFrom = .detected → isAlmostReady c.channelReady = true →
    c.http.serviceId ∈ listed

/-- Once all sections of the PAT have been seen, removed services are not up. -/
def RemovedDown (_ : List Event) (s : State) : Prop :=
  s.autoP.pat.allSectionsSeen = true → UpListed (server s.chanP) s.listed

/-- The section is the last one of its version that is missing. -/
def Completes (s : AutoP) (pat : List UInt8) : Prop :=
  ¬ s.pat.Skips pat ∧ currentNextIndicator pat ≠ 0 ∧
    ∃ noted, (s.pat.renew pat).store pat = .ok noted ∧ noted.sectionsMissing pat = 0

/-- A channel that is up and that the section does not find marked: it is not ready, or it is and
the version is the stored one. -/
def Unmarked (s : State) (e : AcceptedSection) (c : UnicastChannel) : Prop :=
  c.channelReady = .almostReady ∨
    c.channelReady = .ready ∧ (versionNumber e.bytes : Int) = s.autoP.pat.version

/-- What `autoconf_update_chan_status` asks of a channel before it comes up. -/
def PassesChecks (auto : ChannelStatus.AutoP) (c : UnicastChannel) : Prop :=
  ¬ (auto.autoconfScrambled = false ∧ c.freeCaMode = true) ∧ c.pmtPid ≠ 0 ∧
    ¬ (auto.serviceIdList ≠ [] ∧ c.http.serviceId ∉ auto.serviceIdList) ∧
    c.http.serviceId ∉ auto.serviceIdListIgnore ∧
    (c.serviceType ∈ televisionTypes ∨ c.serviceType ∈ radioTypes ∧ auto.autoconfRadios = true)

/-- No channel slips through: at the end of a PAT the channels without a mark that are up are
listed, and so are the channels that a status update finds fit to come up. -/
def NoneSlips (s : State) : Event → Prop
  | .pat e => Completes (receive s.autoP e) e.bytes → ∀ c ∈ server s.chanP,
      c.serviceIdFrom = .detected → Unmarked s e c → c.http.serviceId ∈ listedAfter s e
  | .status => s.autoP.pat.allSectionsSeen = true → ∀ c ∈ server s.chanP,
      c.serviceIdFrom = .detected → c.channelReady ≠ .removed →
      PassesChecks s.autoP.options c → c.http.serviceId ∈ s.listed
  | _ => True

variable {env : Surroundings} {chanP chanP' : MumuChanP} {prog : List UInt8}
  {channels : List UnicastChannel} {listed : List Int}

theorem server_putServer (h : channels.length = chanP.channels.length) :
    server (putServer chanP channels) = channels := by
  simp only [server, putServer]
  generalize chanP.channels = chans at h
  induction chans generalizing channels with
  | nil => simpa using h
  | cons chan chans ih =>
    cases channels with
    | nil => cases h
    | cons channel channels =>
      rw [List.length_cons, List.length_cons, Nat.add_right_cancel_iff] at h
      rw [List.zipWith_cons_cons, List.map_cons, ih h]

theorem length_server (chanP : MumuChanP) : (server chanP).length = chanP.channels.length :=
  List.length_map _

/-- The same service, up or not as before. -/
structure SameService (c c' : UnicastChannel) : Prop where
  http : c'.http = c.http
  serviceIdFrom : c'.serviceIdFrom = c.serviceIdFrom
  up : isAlmostReady c'.channelReady = isAlmostReady c.channelReady

theorem SameService.refl (c : UnicastChannel) : SameService c c := ⟨rfl, rfl, rfl⟩

theorem SameService.trans {a b c : UnicastChannel} (h : SameService a b) (h' : SameService b c) :
    SameService a c :=
  ⟨h'.http.trans h.http, h'.serviceIdFrom.trans h.serviceIdFrom, h'.up.trans h.up⟩

/-- The same services, one by one. -/
abbrev SameServices : List UnicastChannel → List UnicastChannel → Prop := List.Forall₂ SameService

theorem sameServices_refl (channels : List UnicastChannel) : SameServices channels channels :=
  List.forall₂_same.mpr fun c _ => .refl c

theorem SameServices.trans {as bs cs : List UnicastChannel} (h : SameServices as bs)
    (h' : SameServices bs cs) : SameServices as cs := by
  induction h generalizing cs with
  | nil => exact h'
  | cons hab _ ih =>
    cases h' with
    | cons hbc hrest => exact .cons (hab.trans hbc) (ih hrest)

theorem sameServices_set {i : Nat} {c c' : UnicastChannel} (h : channels[i]? = some c)
    (hsame : SameService c c') : SameServices channels (channels.set i c') := by
  induction channels generalizing i with
  | nil => cases h
  | cons a channels ih =>
    cases i with
    | zero =>
      cases h
      exact .cons hsame (sameServices_refl _)
    | succ i => exact .cons (.refl a) (ih h)

theorem UpListed.same {channels' : List UnicastChannel} (h : UpListed channels listed)
    (hsame : SameServices channels channels') : UpListed channels' listed := by
  intro c' hc' hdetected hup
  obtain ⟨i, hi⟩ := List.mem_iff_getElem?.mp hc'
  obtain ⟨hlength, hat⟩ := List.forall₂_iff_get.mp hsame
  obtain ⟨hlt', rfl⟩ := List.getElem?_eq_some_iff.mp hi
  have hlt : i < channels.length := by omega
  obtain ⟨hhttp, hfrom, hready⟩ := hat i hlt hlt'
  simp only [List.get_eq_getElem] at hhttp hfrom hready
  rw [hhttp]
  exact h _ (List.getElem_mem hlt) (hfrom ▸ hdetected) (hready ▸ hup)

theorem updateChannelNet_same (net : NetP) (vars : UnicastVars) (i : Nat) :
    SameServices vars.channels (updateChannelNet net vars i).channels := by
  rw [updateChannelNet]
  split
  · exact sameServices_refl _
  case h_2 channel hfound =>
    split
    case isFalse => exact sameServices_refl _
    case isTrue halmost =>
      have hup : ∀ socket, SameService channel
          { ChannelStatus.readyChannel net i channel with socketIn := socket } :=
        fun socket => ⟨rfl, rfl, by rw [halmost]; rfl⟩
      dsimp only
      split
      · have hchannels : (UnicastClients.unicastCreateListeningSocket vars .listenChannel i
            (net.socket i)).channels = vars.channels := by
          rw [UnicastClients.unicastCreateListeningSocket]
          split <;> rfl
        dsimp only
        rw [hchannels]
        exact sameServices_set hfound (hup _)
      · exact sameServices_set hfound (hup channel.socketIn)

theorem server_updateChanNet (net : NetP) (vars : UnicastVars) (chanP : MumuChanP) :
    SameServices (server chanP) (server (updateChanNet net vars chanP)) := by
  have hfold : ∀ (is : List Nat) (vars : UnicastVars),
      SameServices vars.channels (is.foldl (updateChannelNet net) vars).channels := by
    intro is
    induction is with
    | nil => exact fun vars => sameServices_refl _
    | cons i is ih => exact fun vars => (updateChannelNet_same net vars i).trans (ih _)
  have hsame := hfold (List.range (server chanP).length) { vars with channels := server chanP }
  rw [updateChanNet, server_putServer]
  · exact hsame
  · rw [← length_server]
    exact hsame.length_eq.symm

/-- What the SDT says about a service does not touch the status. -/
theorem parseSdtDescriptor_same {read : Nat → Checked UInt8} {convert : List UInt8 → List UInt8}
    {fuel buf remaining : Nat} {chan chan' : AutoChannel}
    (h : parseSdtDescriptor read convert fuel buf remaining chan = .ok chan') :
    SameService chan.toUnicastChannel chan'.toUnicastChannel := by
  induction fuel generalizing buf remaining chan with
  | zero => cases h
  | succ fuel ih =>
    rw [parseSdtDescriptor] at h
    split at h
    case isFalse =>
      cases h
      exact .refl _
    case isTrue =>
      obtain ⟨descriptorTag, -, h⟩ := bind_eq_ok.mp h
      obtain ⟨len, -, h⟩ := bind_eq_ok.mp h
      dsimp only at h
      split at h
      case isTrue =>
        cases h
        exact .refl _
      case isFalse =>
        obtain ⟨chan₁, hservice, h⟩ := bind_eq_ok.mp h
        refine SameService.trans ?_ (ih h)
        split at hservice
        · obtain ⟨serviceType, -, hservice⟩ := bind_eq_ok.mp hservice
          obtain ⟨providerLen, -, hservice⟩ := bind_eq_ok.mp hservice
          obtain ⟨nameLen, -, hservice⟩ := bind_eq_ok.mp hservice
          obtain ⟨bytes, -, hservice⟩ := bind_eq_ok.mp hservice
          cases hservice
          exact ⟨rfl, rfl, rfl⟩
        · cases hservice
          exact .refl _

theorem server_modify {i : Nat} {f : AutoChannel → Checked AutoChannel}
    (hf : ∀ chan chan', f chan = .ok chan' →
      SameService chan.toUnicastChannel chan'.toUnicastChannel)
    (h : chanP.modify i f = .ok chanP') : SameServices (server chanP) (server chanP') := by
  rw [MumuChanP.modify] at h
  split at h
  case h_1 chan hfound =>
    obtain ⟨chan', hchan', h⟩ := bind_eq_ok.mp h
    cases h
    rw [server, server, MumuChanP.set, List.map_set]
    exact sameServices_set (by rw [List.getElem?_map, hfound, Option.map_some]) (hf _ _ hchan')
  case h_2 => cases h

theorem sdtLoop_same {read : Nat → Checked UInt8} {convert : List UInt8 → List UInt8}
    {lenFull fuel delta : Nat} (h : sdtLoop read convert lenFull fuel delta chanP = .ok chanP') :
    SameServices (server chanP) (server chanP') := by
  induction fuel generalizing delta chanP with
  | zero => cases h
  | succ fuel ih =>
    rw [sdtLoop] at h
    split at h
    case isFalse =>
      cases h
      exact sameServices_refl _
    case isTrue =>
      obtain ⟨serviceId, -, h⟩ := bind_eq_ok.mp h
      obtain ⟨flags, -, h⟩ := bind_eq_ok.mp h
      obtain ⟨loopLen, -, h⟩ := bind_eq_ok.mp h
      obtain ⟨chanP₁, hservice, h⟩ := bind_eq_ok.mp h
      refine SameServices.trans ?_ (ih h)
      split at hservice
      · refine server_modify (fun chan chan' hchan => ?_) hservice
        have hsame := parseSdtDescriptor_same hchan
        exact ⟨hsame.http, hsame.serviceIdFrom, hsame.up⟩
      · cases hservice
        exact sameServices_refl _

theorem autoconfReadSdt_same {s s' : AutoP}
    (h : autoconfReadSdt env s chanP = .ok (s', chanP')) :
    s'.pat = s.pat ∧ SameServices (server chanP) (server chanP') := by
  rw [autoconfReadSdt] at h
  split at h
  · cases h
    exact ⟨rfl, sameServices_refl _⟩
  · rcases Tracker.read_cases h with ⟨-, hsame⟩ | ⟨-, tracker, -, -, h⟩
    · cases hsame
      exact ⟨rfl, sameServices_refl _⟩
    · obtain ⟨networkId, -, h⟩ := bind_eq_ok.mp h
      obtain ⟨chanP₁, hloop, h⟩ := bind_eq_ok.mp h
      dsimp only at h
      split at h
      · cases h
        exact ⟨rfl, sdtLoop_same hloop⟩
      · cases h
        exact ⟨rfl, sdtLoop_same hloop⟩

theorem mem_server_map {f : AutoChannel → AutoChannel} {c : UnicastChannel} :
    c ∈ server (chanP.map f) ↔ ∃ chan ∈ chanP.channels, (f chan).toUnicastChannel = c := by
  rw [server, MumuChanP.map, List.map_map, List.mem_map]
  rfl

theorem mem_server {chan : AutoChannel} (h : chan ∈ chanP.channels) :
    chan.toUnicastChannel ∈ server chanP :=
  List.mem_map_of_mem h

/-- A program changes or adds the channel of its service only. -/
theorem updated_old (h : Updated prog chanP chanP') {c : UnicastChannel}
    (hc : c ∈ server chanP') : c ∈ server chanP ∨ c.http.serviceId = programNumber prog := by
  cases h with
  | @found i chan chan' here service update =>
    rw [server, MumuChanP.set, List.map_set] at hc
    rcases List.mem_or_eq_of_mem_set hc with hold | rfl
    · exact .inl hold
    · obtain ⟨pmtPid, hserver⟩ := updateProgram_server update
      rw [hserver]
      exact .inr service
  | @created chan chan' chanP' none room new update behind =>
    rw [server, behind, List.map_append, List.mem_append, List.map_singleton,
      List.mem_singleton] at hc
    rcases hc with hold | rfl
    · exact .inl hold
    · obtain ⟨pmtPid, hserver⟩ := updateProgram_server update
      rw [hserver, newChannel_server new]
      exact .inr rfl
  | full => exact .inl hc

theorem updated_kept (h : Updated prog chanP chanP') {c : UnicastChannel}
    (hc : c ∈ server chanP) (hother : c.http.serviceId ≠ programNumber prog) :
    c ∈ server chanP' := by
  cases h with
  | @found i chan chan' here service update =>
    rw [server, MumuChanP.set, List.map_set]
    obtain ⟨j, hj⟩ := List.mem_iff_getElem?.mp hc
    have hij : i ≠ j := by
      rintro rfl
      rw [server, List.getElem?_map, here, Option.map_some] at hj
      cases hj
      exact hother service
    exact List.mem_of_getElem? ((List.getElem?_set_ne hij).trans hj)
  | created none room new update behind =>
    rw [server, behind, List.map_append]
    exact List.mem_append_left _ hc
  | full => exact hc

theorem programs_old {progs : List (List UInt8)}
    (h : progs.foldlM autoconfPatUpdateChan chanP = .ok chanP') {c : UnicastChannel}
    (hc : c ∈ server chanP') :
    c ∈ server chanP ∨ c.http.serviceId ∈ progs.map fun prog => (programNumber prog : Int) := by
  induction progs generalizing chanP with
  | nil =>
    cases h
    exact .inl hc
  | cons prog progs ih =>
    rw [List.foldlM_cons] at h
    obtain ⟨chanP₁, hupdate, h⟩ := bind_eq_ok.mp h
    rw [List.map_cons, List.mem_cons]
    rcases ih h with hmiddle | hlater
    · rcases updated_old (autoconfPatUpdateChan_cases hupdate) hmiddle with hold | hservice
      · exact .inl hold
      · exact .inr (.inl hservice)
    · exact .inr (.inr hlater)

theorem programs_kept {progs : List (List UInt8)}
    (h : progs.foldlM autoconfPatUpdateChan chanP = .ok chanP') {c : UnicastChannel}
    (hc : c ∈ server chanP)
    (hother : c.http.serviceId ∉ progs.map fun prog => (programNumber prog : Int)) :
    c ∈ server chanP' := by
  induction progs generalizing chanP with
  | nil =>
    cases h
    exact hc
  | cons prog progs ih =>
    rw [List.foldlM_cons] at h
    obtain ⟨chanP₁, hupdate, h⟩ := bind_eq_ok.mp h
    rw [List.map_cons, List.mem_cons, not_or] at hother
    exact ih h (updated_kept (autoconfPatUpdateChan_cases hupdate) hc hother.1) hother.2

/-- Neither the mark nor the sweep is for it. -/
def Plain (c : UnicastChannel) : Prop := c.channelReady = .almostReady ∨ c.channelReady = .ready

theorem isAlmostReady_iff {status : ChanStatus} : isAlmostReady status = true ↔
    status = .almostReady ∨ status = .ready ∨ status = .readyExisting := by
  cases status <;> simp [isAlmostReady, ChanStatus.isReady]

theorem Plain.up {c : UnicastChannel} (h : Plain c) : isAlmostReady c.channelReady = true :=
  isAlmostReady_iff.mpr (h.imp_right .inl)

theorem Unmarked.plain {s : State} {e : AcceptedSection} {c : UnicastChannel}
    (h : Unmarked s e c) : Plain c :=
  h.imp_right And.left

section pat

variable {s : State} {e : AcceptedSection} {noted : Tracker} {c : UnicastChannel}

theorem startSection_old (hdetected : c.serviceIdFrom = .detected) (hplain : Plain c)
    (hc : c ∈ server (startSection (receive s.autoP e) s.chanP e.bytes noted).2) :
    c ∈ server s.chanP ∧ Unmarked s e c := by
  rw [startSection] at hc
  split at hc
  case isTrue hsame => exact ⟨hc, hplain.imp_right fun hready => ⟨hready, hsame⟩⟩
  case isFalse =>
    obtain ⟨chan, hchan, rfl⟩ := mem_server_map.mp hc
    rw [markExisting] at hdetected hplain ⊢
    split at hplain
    case isTrue => rcases hplain with h | h <;> cases h
    case isFalse hnot =>
      rw [if_neg hnot] at hdetected ⊢
      refine ⟨mem_server hchan, .inl (hplain.resolve_right fun hready => hnot ⟨hready, hdetected⟩)⟩

theorem startSection_kept (hunmarked : Unmarked s e c) (hc : c ∈ server s.chanP) :
    c ∈ server (startSection (receive s.autoP e) s.chanP e.bytes noted).2 := by
  rw [startSection]
  split
  case isTrue => exact hc
  case isFalse hother =>
    obtain ⟨chan, hchan, rfl⟩ := List.mem_map.mp hc
    have halmost := hunmarked.resolve_right fun h => hother h.2
    refine mem_server_map.mpr ⟨chan, hchan, ?_⟩
    rw [markExisting, if_neg]
    rintro ⟨hready, -⟩
    exact absurd (halmost.symm.trans hready) (by decide)

theorem sweep_old (hup : isAlmostReady c.channelReady = true) (hc : c ∈ server (chanP.map sweep)) :
    c ∈ server chanP ∧ Plain c := by
  obtain ⟨chan, hchan, rfl⟩ := mem_server_map.mp hc
  rw [sweep] at hup ⊢
  split at hup
  case isTrue => cases hup
  case isFalse hnot =>
    rw [if_neg hnot]
    have hplain := isAlmostReady_iff.mp hup
    have hchan : chan.toUnicastChannel ∈ server chanP := mem_server hchan
    exact ⟨hchan, hplain.imp_right fun h => h.resolve_right hnot⟩

theorem sweep_kept (hplain : Plain c) (hc : c ∈ server chanP) : c ∈ server (chanP.map sweep) := by
  obtain ⟨chan, hchan, rfl⟩ := List.mem_map.mp hc
  refine mem_server_map.mpr ⟨chan, hchan, ?_⟩
  rw [sweep, if_neg]
  intro hexisting
  rcases hplain with h | h <;> exact absurd (h.symm.trans hexisting) (by decide)

theorem subset_listedAfter (hsame : (versionNumber e.bytes : Int) = s.autoP.pat.version)
    {service : Int} (h : service ∈ s.listed ∨ service ∈ e.services) :
    service ∈ listedAfter s e := by
  rw [listedAfter, if_pos hsame]
  exact List.mem_append.mpr h

theorem services_listedAfter {service : Int} (h : service ∈ e.services) :
    service ∈ listedAfter s e := by
  rw [listedAfter]
  split
  · exact List.mem_append_right _ h
  · exact h

/-- A section that is not the last one of its version: the channels that are up were up before, or
their service is in the section. -/
theorem removedDown_section {past : List Event} {autoP : AutoP} (hbefore : RemovedDown past s)
    (hsame : autoP.pat.allSectionsSeen = true → s.autoP.pat.allSectionsSeen = true ∧
      (versionNumber e.bytes : Int) = s.autoP.pat.version ∧
      ∀ c ∈ server chanP, c ∈ server s.chanP ∨ c.http.serviceId ∈ e.services) :
    RemovedDown (.pat e :: past) ⟨autoP, chanP, listedAfter s e⟩ := by
  intro hall c hc hdetected hup
  obtain ⟨hbeforeAll, hversion, hold⟩ := hsame hall
  refine subset_listedAfter hversion ?_
  exact (hold c hc).imp_left fun hc => hbefore hbeforeAll c hc hdetected hup

/-- The last section of a version. -/
theorem upListed_sweep {chanP₁ : MumuChanP}
    (hprograms : (patPrograms e.bytes).foldlM autoconfPatUpdateChan
      (startSection (receive s.autoP e) s.chanP e.bytes noted).2 = .ok chanP₁) :
    UpListed (server (chanP₁.map sweep)) (listedAfter s e) ↔ ∀ c ∈ server s.chanP,
      c.serviceIdFrom = .detected → Unmarked s e c → c.http.serviceId ∈ listedAfter s e := by
  constructor
  · intro hlisted c hc hdetected hunmarked
    by_cases hservice : c.http.serviceId ∈ e.services
    · exact services_listedAfter hservice
    · have hkept := programs_kept hprograms (startSection_kept hunmarked hc) hservice
      exact hlisted c (sweep_kept hunmarked.plain hkept) hdetected hunmarked.plain.up
  · intro hunmarked c hc hdetected hup
    obtain ⟨hc, hplain⟩ := sweep_old hup hc
    rcases programs_old hprograms hc with hc | hservice
    · obtain ⟨hc, hun⟩ := startSection_old hdetected hplain hc
      exact hunmarked c hc hdetected hun
    · exact services_listedAfter hservice

theorem removedDown_pat {past : List Event} {autoP : AutoP} (hbefore : RemovedDown past s)
    (h : PatRead (receive s.autoP e) s.chanP e.bytes autoP chanP) :
    RemovedDown (.pat e :: past) ⟨autoP, chanP, listedAfter s e⟩ ↔ NoneSlips s (.pat e) := by
  have hnoted : ∀ noted, ((receive s.autoP e).pat.renew e.bytes).store e.bytes = .ok noted →
      noted.allSectionsSeen = true → s.autoP.pat.allSectionsSeen = true ∧
        (versionNumber e.bytes : Int) = s.autoP.pat.version := by
    intro noted hstored hall
    obtain ⟨t', hstore, hnoted⟩ := (receive s.autoP e).pat.store_renew e.bytes
    rw [hstored] at hstore
    cases hstore
    exact ⟨(hnoted.allSectionsSeen.mp hall).1, (hnoted.allSectionsSeen.mp hall).2.symm⟩
  have hstart : ∀ noted, (versionNumber e.bytes : Int) = s.autoP.pat.version →
      (startSection (receive s.autoP e) s.chanP e.bytes noted).2 = s.chanP := by
    intro noted (hsame : _ = (receive s.autoP e).pat.version)
    rw [startSection, if_pos hsame]
  cases h with
  | skipped skip =>
    refine iff_of_true (removedDown_section hbefore fun hall => ?_) fun hends => absurd skip hends.1
    exact ⟨hall, skip.1, fun c hc => .inl hc⟩
  | @next noted unseen stored next =>
    refine iff_of_true (removedDown_section hbefore fun hall => ?_) fun hends =>
      absurd next hends.2.1
    rw [(TableReads.startSection_again _ _ _ noted).1] at hall
    obtain ⟨hbeforeAll, hsame⟩ := hnoted noted stored hall
    exact ⟨hbeforeAll, hsame, fun c hc => .inl (hstart noted hsame ▸ hc)⟩
  | @read noted chanP₁ unseen stored current programs =>
    have hpat := (TableReads.startSection_again (receive s.autoP e) s.chanP e.bytes noted).1
    rw [finishPat, hpat]
    by_cases hmissing : noted.sectionsMissing e.bytes = 0
    · rw [if_neg (not_not.mpr hmissing)]
      have hends : Completes (receive s.autoP e) e.bytes :=
        ⟨unseen, current, noted, stored, hmissing⟩
      have hlisted := upListed_sweep programs
      exact ⟨fun hdown _ => hlisted.mp (hdown rfl), fun hslips _ => hlisted.mpr (hslips hends)⟩
    · rw [if_pos hmissing]
      refine iff_of_true (removedDown_section hbefore fun hall => ?_) ?_
      · rw [hpat] at hall
        obtain ⟨hbeforeAll, hsame⟩ := hnoted noted stored hall
        refine ⟨hbeforeAll, hsame, fun c hc => ?_⟩
        have hold := programs_old programs hc
        rw [hstart noted hsame] at hold
        exact hold
      · rintro ⟨-, -, noted', hstored', hnone⟩
        rw [stored] at hstored'
        cases hstored'
        exact absurd hnone hmissing

end pat

section status

variable {auto : ChannelStatus.AutoP} {c : UnicastChannel}

/-- What `autoconf_update_chan_status` makes of a channel that is autodetected and not removed. -/
theorem updateChanStatus_detected (hdetected : c.serviceIdFrom = .detected)
    (hpresent : c.channelReady ≠ .removed) : updateChanStatus auto c = c ∨
      updateChanStatus auto c = { c with channelReady := .noStreaming } ∨
      PassesChecks auto c := by
  rw [updateChanStatus, if_neg hpresent, if_neg (not_not.mpr hdetected)]
  split
  · exact .inr (.inl rfl)
  split
  · exact .inr (.inl rfl)
  split
  · exact .inr (.inl rfl)
  split
  · exact .inr (.inl rfl)
  split
  case isTrue hscrambled hpid hlist hignore htype =>
    exact .inr (.inr ⟨hscrambled, hpid, hlist, hignore, htype⟩)
  case isFalse => exact .inl rfl

theorem updateChanStatus_passes (hdetected : c.serviceIdFrom = .detected)
    (hpresent : c.channelReady ≠ .removed) (hpasses : PassesChecks auto c) :
    updateChanStatus auto c = { c with channelReady := .almostReady } := by
  obtain ⟨hscrambled, hpid, hlist, hignore, htype⟩ := hpasses
  rw [updateChanStatus, if_neg hpresent, if_neg (not_not.mpr hdetected), if_neg hscrambled,
    if_neg hpid, if_neg hlist, if_neg hignore, if_pos htype]

theorem updateChanStatus_service :
    (updateChanStatus auto c).http = c.http ∧
      (updateChanStatus auto c).serviceIdFrom = c.serviceIdFrom := by
  obtain ⟨status, hstatus⟩ := ChannelStatus.updateChanStatus_eq auto c
  rw [hstatus]
  exact ⟨rfl, rfl⟩

theorem upListed_status (hlisted : UpListed channels listed) :
    UpListed (ChannelStatus.autoconfUpdateChanStatus auto channels) listed ↔
      ∀ c ∈ channels, c.serviceIdFrom = .detected → c.channelReady ≠ .removed →
        PassesChecks auto c → c.http.serviceId ∈ listed := by
  rw [UpListed, ChannelStatus.autoconfUpdateChanStatus, List.forall_mem_map]
  refine forall₂_congr fun c hc => ?_
  obtain ⟨hhttp, hfrom⟩ := @updateChanStatus_service auto c
  rw [hhttp, hfrom]
  refine imp_congr_right fun hdetected => ?_
  constructor
  · intro hup hpresent hpasses
    rw [updateChanStatus_passes hdetected hpresent hpasses] at hup
    exact hup rfl
  · intro hpasses hup
    by_cases hpresent : c.channelReady = .removed
    · rw [updateChanStatus, if_pos hpresent, hpresent] at hup
      cases hup
    · rcases @updateChanStatus_detected auto c hdetected hpresent with hsame | hdown | hpass
      · exact hlisted c hc hdetected (hsame ▸ hup)
      · rw [hdown] at hup
        cases hup
      · exact hpasses hpresent hpass

end status

/-- In every state of a run removed services are down once all sections of the PAT have been seen,
if and only if no channel slips through. -/
theorem removedDown_run_iff (past : List Event) (s : State) :
    Run ((system env).restrict NoneSlips) past s ↔ Along (system env) RemovedDown past s := by
  refine along_iff ?_ ?_ past s
  · rintro s ⟨⟨options, hinit⟩, -⟩ hall
    rw [hinit] at hall
    cases hall
  · intro past s e s' _ hdown hstep
    cases hstep with
    | pat call => exact removedDown_pat hdown (autoconfReadPat_cases call)
    | sdt call =>
      obtain ⟨hpat, hsame⟩ := autoconfReadSdt_same call
      refine iff_of_true (fun hall => (hdown ?_).same hsame) trivial
      rw [hpat] at hall
      exact hall
    | status =>
      have hserver : server (autoconfUpdateChanStatus s.autoP.options s.chanP) =
          ChannelStatus.autoconfUpdateChanStatus s.autoP.options (server s.chanP) :=
        server_putServer (by rw [ChannelStatus.autoconfUpdateChanStatus, List.length_map,
          length_server])
      refine forall_congr' fun hall => ?_
      rw [hserver]
      exact upListed_status (hdown hall)
    | net => exact iff_of_true (fun hall => (hdown hall).same (server_updateChanNet _ _ _)) trivial

/-- What the program does with a section or at an update, behind the sections zeros. -/
def handle (s : State) : Event → Checked State
  | .pat e => do
    let (autoP, chanP) ← autoconfReadPat (receive s.autoP e) s.chanP
    return ⟨autoP, chanP, listedAfter s e⟩
  | .sdt e => do
    let (autoP, chanP) ← autoconfReadSdt TableReads.plain (receiveSdt s.autoP e) s.chanP
    return ⟨autoP, chanP, s.listed⟩
  | .status => .ok { s with chanP := autoconfUpdateChanStatus s.autoP.options s.chanP }
  | .net net vars => .ok { s with chanP := updateChanNet net vars s.chanP }

theorem step_handle {s s' : State} {e : Event} (h : handle s e = .ok s') :
    (system TableReads.plain).Step s e s' := by
  cases e with
  | pat e =>
    obtain ⟨⟨autoP, chanP⟩, hcall, h⟩ := bind_eq_ok.mp h
    cases h
    exact .pat hcall
  | sdt e =>
    obtain ⟨⟨autoP, chanP⟩, hcall, h⟩ := bind_eq_ok.mp h
    cases h
    exact .sdt hcall
  | status =>
    cases h
    exact .status
  | net net vars =>
    cases h
    exact .net

/-- Version 2 has service 2 in the place of service 1. -/
def secondPat : List UInt8 :=
  [0x00, 0xb0, 0x0d, 0x00, 0x01, 0xc5, 0x00, 0x00, 0x00, 0x02, 0xe1, 0x01, 0xd7, 0xcd, 0x0b, 0xb0]

/-- Service 1 is a television service. -/
def firstSdt : List UInt8 :=
  [0x42, 0xf0, 0x16, 0x00, 0x01, 0xc1, 0x00, 0x00, 0x00, 0x01, 0xff, 0x00, 0x01, 0xfc, 0x80, 0x05,
    0x48, 0x03, 0x01, 0x00, 0x00, 0x26, 0xa1, 0x45, 0xb0]

theorem length_currentPat : TableReads.currentPat.length ≤ maxTsSize := by decide

theorem currentPat_accepted : TsAssembler.Accepted
    ((CatCollection.handedOut TableReads.currentPat length_currentPat).dataFull.cells.take
      (CatCollection.handedOut TableReads.currentPat length_currentPat).lenFull) := by
  decide +kernel

/-- Service 1 leaves the table before its channel has been up. -/
def leaving : List Event :=
  [.pat ⟨CatCollection.handedOut TableReads.currentPat length_currentPat, currentPat_accepted⟩,
    .pat ⟨CatCollection.handedOut secondPat (by decide), by decide +kernel⟩,
    .sdt ⟨CatCollection.handedOut firstSdt (by decide), by decide +kernel⟩, .status]

/-- The channel of a service that is not in the table any more is almost ready. -/
theorem not_removedDown_leaving : ∃ past s, Run (system TableReads.plain) past s ∧
    ¬ RemovedDown past s := by
  have h : (leaving.foldlM handle ⟨TableReads.started, TableReads.noChannels, []⟩).map (fun s =>
      (s.autoP.pat.allSectionsSeen, s.listed, (server s.chanP)[0]?.map fun c =>
        (c.serviceIdFrom, c.channelReady, c.http.serviceId))) =
      .ok (true, [2], some (.detected, .almostReady, 1)) := by decide +kernel
  obtain ⟨s, hplay, hvalues⟩ := map_eq_ok h
  simp only [Prod.mk.injEq, Option.map_eq_some_iff] at hvalues
  obtain ⟨hall, hlisted, c, hfound, hdetected, hready, hservice⟩ := hvalues
  have hrun := Run.foldlM id (fun _ _ _ => step_handle) (.start ⟨⟨_, rfl⟩, rfl⟩) hplay
  refine ⟨_, s, hrun, fun hdown => ?_⟩
  have hmem := hdown hall c (List.mem_of_getElem? hfound) hdetected (by rw [hready]; rfl)
  rw [hservice, hlisted] at hmem
  exact absurd hmem (by decide)

end MuMuDVB.RemovedServices
