import MuMuDVB.AutoconfPat
import MuMuDVB.AutoconfPmt
import MuMuDVB.RecordedRun

/-!
# The PIDs of the channels

A program of the PAT puts the PMT PID among the PIDs of its channel, wherever
it finds a place; a PMT replaces all of them but the first. How many fit is
checked for the elementary streams only.
-/
namespace MuMuDVB.PidLists

open CheckedMemory RecordedRun MuMuDVB.TsHeader MuMuDVB.Ts MuMuDVB.TsAssembler
open MuMuDVB.Autoconf MuMuDVB.AutoconfPat MuMuDVB.AutoconfPmt
open MuMuDVB.AutoconfCat (CaSystem maxCaSystems maxChannels)
open MuMuDVB.RewritePat (programNumber networkPid)

/-- A call of `autoconf_pat_update_chan`, a call of `autoconf_read_pmt` for a channel, with the CA
systems that are stored and what is in its arrays before, or something else. -/
inductive Event where
  | pat (prog : List UInt8)
  | pmt (i : Nat) (pmt : Pmt) (list : Buffer CaSystem maxCaSystems)
      (stack : Buffer PidEntry maxPids)
  | elsewhere

/-- The same PIDs in every channel. -/
def SamePids (chanP chanP' : MumuChanP) : Prop :=
  List.Forall₂ (fun chan chan' => chan'.pidI = chan.pidI ∧ chan'.pmtPid = chan.pmtPid)
    chanP.channels chanP'.channels

/-- What a call makes of the channels, or the fault in which it ends. -/
inductive Step (chanP : MumuChanP) : Event → Checked MumuChanP → Prop where
  | pat {prog : List UInt8} : Step chanP (.pat prog) (autoconfPatUpdateChan chanP prog)
  | pmt {i : Nat} {pmt : Pmt} {list : Buffer CaSystem maxCaSystems}
      {stack : Buffer PidEntry maxPids} {chan : AutoChannel}
      (found : chanP.channels[i]? = some chan) :
      Step chanP (.pmt i pmt list stack)
        ((autoconfReadPmt list pmt stack chan).map fun r => chanP.set i r.2)
  | elsewhere {chanP' : MumuChanP} (same : SamePids chanP chanP') :
      Step chanP .elsewhere (.ok chanP')

def WithinBounds (chanP : MumuChanP) : Prop := ∀ chan ∈ chanP.channels, chan.pidI.numPids ≤ maxPids

/-- The lists may be full at the start; after a fault there is nothing more. -/
def boundedSystem : System (Checked MumuChanP) Event where
  Initial s := ∃ chanP, s = .ok chanP ∧ WithinBounds chanP
  Step s e s' := ∃ chanP, s = .ok chanP ∧ Step chanP e s'

/-- No write was outside the lists, and none is too long. -/
def Bounded (_ : List Event) (s : Checked MumuChanP) : Prop :=
  ∃ chanP, s = .ok chanP ∧ WithinBounds chanP

/-- The channel of a program. -/
def programChannel (chanP : MumuChanP) (prog : List UInt8) : Option Nat :=
  lastIndex (hasService (programNumber prog)) chanP.channels

/-- There is room: in the channel of a program for its PMT PID, if it is not there already, and in
the channel of a PMT and in the temporary lists for its PIDs. -/
def HasRoom (s : Checked MumuChanP) (e : Event) : Prop :=
  ∀ chanP, s = .ok chanP → match e with
    | .pat prog => ∀ i chan, programChannel chanP prog = some i → chanP.channels[i]? = some chan →
        chan.pidI.pmtPidF = .user ∨ (networkPid prog : Int) ∈ chan.pidI.pids ∨
          chan.pidI.numPids < maxPids
    | .pmt i pmt list stack => ∀ chan, chanP.channels[i]? = some chan → ¬ pmt.IsForeign chan →
        pmt.Fits list stack chan
    | .elsewhere => True

section pat

variable {chan chan' : AutoChannel} {prog : List UInt8} {chanP chanP' : MumuChanP}

/-- What leaves the PIDs alone unless the PMT PID is of the user. -/
structure KeepsPids (chan chan' : AutoChannel) : Prop where
  pmtPidF : chan'.pidI.pmtPidF = chan.pidI.pmtPidF
  numPids : chan.pidI.numPids ≤ maxPids → chan'.pidI.numPids ≤ maxPids
  pidI : chan.pidI.pmtPidF ≠ .user → chan'.pidI = chan.pidI

/-- The PMT PID of the user is only put where there is room. -/
theorem addUserPmtPid_keeps (chan : AutoChannel) :
    ∃ chan', addUserPmtPid chan = .ok chan' ∧ KeepsPids chan chan' := by
  rw [addUserPmtPid]
  split
  case isFalse => exact ⟨chan, rfl, rfl, id, fun _ => rfl⟩
  case isTrue hadd =>
    obtain ⟨huser, -, hroom⟩ := hadd
    have hlt : chan.pidI.numPids < chan.pidI.entries.cells.length := by
      rw [Buffer.length_cells]
      omega
    obtain ⟨entries, hwrite, -⟩ := chan.pidI.entries.write_ok chan.pidI.numPids
      [{ chan.pidI.entries.cells[chan.pidI.numPids] with pid := chan.pmtPid, type := .pmt }]
      (by rw [List.length_singleton]; omega)
    rw [Buffer.read_ok _ (List.getElem?_eq_getElem hlt), bind_ok, hwrite]
    exact ⟨_, rfl, rfl, fun _ => by simp only; omega, fun hfree => absurd huser hfree⟩

theorem mumuInitChan_keeps (chan : AutoChannel) :
    ∃ chan', mumuInitChan chan = .ok chan' ∧ KeepsPids chan chan' := by
  obtain ⟨chan', hadd, hkeeps⟩ := addUserPmtPid_keeps { chan with
    numPacket := 0
    hasTraffic := true
    numScrambledPackets := 0
    scrambledChannel := false
    generatedPatVersion := -1
    generatedSdtVersion := -1
    pmtPacket := some (chan.pmtPacket.getD zeroed) }
  exact ⟨chan', hadd, hkeeps.pmtPidF, hkeeps.numPids, hkeeps.pidI⟩

theorem keepUp_keeps (chan : AutoChannel) :
    ∃ chan', keepUp chan = .ok chan' ∧ KeepsPids chan chan' := by
  rw [keepUp]
  split
  · exact ⟨_, rfl, rfl, id, fun _ => rfl⟩
  · split
    · obtain ⟨chan', hinit, hkeeps⟩ := mumuInitChan_keeps { chan with channelReady := .notReady }
      exact ⟨chan', hinit, hkeeps.pmtPidF, hkeeps.numPids, hkeeps.pidI⟩
    · exact ⟨chan, rfl, rfl, id, fun _ => rfl⟩

theorem lastIndex_pids_lt {i : Nat} {p : PidI} {q : Int → Bool} (h : lastIndex q p.pids = some i) :
    i < p.numPids := by
  obtain ⟨pid, hpid, -⟩ := lastIndex_some h
  have hlt := (List.getElem?_eq_some_iff.mp hpid).1
  rw [PidI.pids, List.length_map, List.length_take] at hlt
  omega

/-- The PMT PID has its place, or there is room behind the others. -/
theorem setPmtPid_iff (hnum : chan.pidI.numPids ≤ maxPids) :
    (∃ chan', setPmtPid prog chan = .ok chan') ↔
      (networkPid prog : Int) ∈ chan.pidI.pids ∨ chan.pidI.numPids < maxPids := by
  rw [setPmtPid]
  cases hfound : lastIndex (fun pid => pid = (networkPid prog : Int)) chan.pidI.pids with
  | some i =>
    have hlt := lastIndex_pids_lt hfound
    obtain ⟨pid, hpid, hsame⟩ := lastIndex_some hfound
    obtain rfl := of_decide_eq_true hsame
    obtain ⟨entries, hwrite, -⟩ := chan.pidI.entries.write_ok i
      [⟨networkPid prog, .pmt, [0x2d, 0x2d, 0x2d]⟩] (by rw [List.length_singleton]; omega)
    rw [Option.getD_some, hwrite]
    exact iff_of_true ⟨_, rfl⟩ (.inl (List.mem_of_getElem? hpid))
  | none =>
    have hnot : (networkPid prog : Int) ∉ chan.pidI.pids := fun hmem =>
      of_decide_eq_false (lastIndex_eq_none.mp hfound _ hmem) rfl
    rw [or_iff_right hnot, Option.getD_none]
    refine Iff.trans ?_ (Buffer.write_ok_iff chan.pidI.entries chan.pidI.numPids
      [⟨networkPid prog, .pmt, [0x2d, 0x2d, 0x2d]⟩])
    constructor
    · rintro ⟨chan', h⟩
      obtain ⟨entries, hwrite, -⟩ := bind_eq_ok.mp h
      exact ⟨entries, hwrite⟩
    · rintro ⟨entries, hwrite⟩
      rw [hwrite]
      exact ⟨_, rfl⟩

/-- The PMT PID is there, and the list is not too long if it was not. -/
theorem setPmtPid_ok (h : setPmtPid prog chan = .ok chan') :
    (chan.pidI.numPids ≤ maxPids → chan'.pidI.numPids ≤ maxPids) ∧
      (chan'.pmtPid : Int) ∈ chan'.pidI.pids := by
  obtain ⟨entries, hwrite, h⟩ := bind_eq_ok.mp h
  cases h
  have hroom := (Buffer.write_ok_iff _ _ _).mp ⟨entries, hwrite⟩
  rw [List.length_singleton] at hroom
  obtain ⟨entries', hwrite', hcell, -⟩ := chan.pidI.entries.write_cell
    ⟨networkPid prog, .pmt, [0x2d, 0x2d, 0x2d]⟩ (Nat.lt_of_succ_le hroom)
  cases hwrite.symm.trans hwrite'
  have hmem : ∀ i num, i < num →
      entries.cells[i]? = some ⟨networkPid prog, .pmt, [0x2d, 0x2d, 0x2d]⟩ →
      (networkPid prog : Int) ∈ (entries.cells.take num).map PidEntry.pid := by
    intro i num hnum hcell
    rw [← List.getElem?_take_of_lt hnum] at hcell
    exact List.mem_map.mpr ⟨_, List.mem_of_getElem? hcell, rfl⟩
  cases hfound : lastIndex (fun pid => pid = (networkPid prog : Int)) chan.pidI.pids with
  | some i =>
    have hlt := lastIndex_pids_lt hfound
    rw [hfound] at hcell
    rw [if_neg (Option.some_ne_none i)]
    exact ⟨id, hmem i _ hlt hcell⟩
  | none =>
    rw [hfound] at hroom hcell
    rw [if_pos rfl]
    exact ⟨fun _ => hroom, hmem _ _ (Nat.lt_succ_self _) hcell⟩

theorem updateProgram_iff (hnum : chan.pidI.numPids ≤ maxPids) :
    (∃ chan', updateProgram prog chan = .ok chan') ↔ chan.pidI.pmtPidF = .user ∨
      (networkPid prog : Int) ∈ chan.pidI.pids ∨ chan.pidI.numPids < maxPids := by
  obtain ⟨chan₁, hkeep, hkeeps⟩ := keepUp_keeps chan
  rw [updateProgram, hkeep, bind_ok, hkeeps.pmtPidF]
  by_cases huser : chan.pidI.pmtPidF = .user
  · rw [if_neg (not_not.mpr huser)]
    exact iff_of_true ⟨_, rfl⟩ (.inl huser)
  · rw [if_pos huser, or_iff_right huser, ← hkeeps.pidI huser,
      ← setPmtPid_iff (hkeeps.numPids hnum)]
    constructor
    · rintro ⟨chan', h⟩
      obtain ⟨chan₂, hset, -⟩ := bind_eq_ok.mp h
      exact ⟨chan₂, hset⟩
    · rintro ⟨chan₂, hset⟩
      rw [hset]
      exact ⟨_, rfl⟩

theorem updateProgram_ok (h : updateProgram prog chan = .ok chan') :
    (chan.pidI.numPids ≤ maxPids → chan'.pidI.numPids ≤ maxPids) ∧
      (chan'.pidI.pmtPidF ≠ .user → (chan'.pmtPid : Int) ∈ chan'.pidI.pids) := by
  obtain ⟨chan₁, hkeep, hkeeps⟩ := keepUp_keeps chan
  rw [updateProgram, hkeep, bind_ok] at h
  obtain ⟨chan₂, hset, h⟩ := bind_eq_ok.mp h
  cases h
  split at hset
  case isTrue =>
    obtain ⟨hbound, hmem⟩ := setPmtPid_ok hset
    exact ⟨fun hnum => hbound (hkeeps.numPids hnum), fun _ => hmem⟩
  case isFalse huser =>
    cases hset
    exact ⟨hkeeps.numPids, fun hfree => absurd (not_not.mp huser) hfree⟩

theorem newChannel_empty (serviceId : Nat) :
    ∃ chan, newChannel serviceId = .ok chan ∧ chan.pidI.numPids = 0 :=
  ⟨_, rfl, rfl⟩

theorem autoconfPatUpdateChan_iff (h : WithinBounds chanP) :
    (∃ chanP', autoconfPatUpdateChan chanP prog = .ok chanP') ↔
      ∀ i chan, programChannel chanP prog = some i → chanP.channels[i]? = some chan →
        chan.pidI.pmtPidF = .user ∨ (networkPid prog : Int) ∈ chan.pidI.pids ∨
          chan.pidI.numPids < maxPids := by
  rw [autoconfPatUpdateChan, programChannel]
  cases hfound : lastIndex (hasService (programNumber prog)) chanP.channels with
  | some i =>
    obtain ⟨chan, hchan, -⟩ := lastIndex_some hfound
    have hupdate := @updateProgram_iff chan prog (h chan (List.mem_of_getElem? hchan))
    simp only [MumuChanP.modify, hchan, Option.some.injEq]
    constructor
    · rintro ⟨chanP', hmodify⟩ j chan' rfl hchan'
      obtain ⟨updated, hok, -⟩ := bind_eq_ok.mp hmodify
      cases hchan.symm.trans hchan'
      exact hupdate.mp ⟨updated, hok⟩
    · intro hroom
      obtain ⟨updated, hok⟩ := hupdate.mpr (hroom i chan rfl hchan)
      rw [hok]
      exact ⟨_, rfl⟩
  | none =>
    refine iff_of_true ?_ fun i chan h => by cases h
    dsimp only
    split
    case isFalse => exact ⟨chanP, rfl⟩
    case isTrue =>
      obtain ⟨chan, hnew, hempty⟩ := newChannel_empty (programNumber prog)
      obtain ⟨chan', hupdate⟩ := (@updateProgram_iff chan prog (by omega)).mpr
        (.inr (.inr (show chan.pidI.numPids < maxPids by rw [hempty]; decide)))
      rw [hnew, bind_ok, hupdate]
      exact ⟨_, rfl⟩

theorem withinBounds_updated (h : WithinBounds chanP) (hupdated : Updated prog chanP chanP') :
    WithinBounds chanP' := by
  cases hupdated with
  | @found i old new here service update =>
    exact forall_mem_set_of h here fun hold => (updateProgram_ok update).1 hold
  | @created fresh chan' chanP' none room new update behind =>
    intro chan hchan
    rw [behind, List.mem_append, List.mem_singleton] at hchan
    rcases hchan with hold | rfl
    · exact h chan hold
    · obtain ⟨empty, hempty, hnum⟩ := newChannel_empty (programNumber prog)
      cases new.symm.trans hempty
      exact (updateProgram_ok update).1 (by rw [hnum]; exact Nat.zero_le _)
  | full => exact h

end pat

theorem SamePids.getElem? {chanP chanP' : MumuChanP} (h : SamePids chanP chanP') {i : Nat}
    {chan' : AutoChannel} (hchan' : chanP'.channels[i]? = some chan') : ∃ chan : AutoChannel,
      chanP.channels[i]? = some chan ∧ chan'.pidI = chan.pidI ∧ chan'.pmtPid = chan.pmtPid := by
  obtain ⟨hlength, hat⟩ := List.forall₂_iff_get.mp h
  obtain ⟨hlt', rfl⟩ := List.getElem?_eq_some_iff.mp hchan'
  have hlt : i < chanP.channels.length := hlength ▸ hlt'
  exact ⟨_, List.getElem?_eq_getElem hlt, hat i hlt hlt'⟩

/-- In every run every write is inside the lists and none gets too long, if and only if there is
room at every step. -/
theorem bounded_run_iff (past : List Event) (s : Checked MumuChanP) :
    Run (boundedSystem.restrict HasRoom) past s ↔ Along boundedSystem Bounded past s := by
  refine along_iff (fun s hinitial => hinitial) ?_ past s
  rintro past s e s' - ⟨chanP, rfl, hbounds⟩ ⟨chanP₀, hsame, hstep⟩
  cases hsame
  have hroom : HasRoom (.ok chanP) e ↔ _ := ⟨fun h => h chanP rfl, fun h chanP₀ hsame => by
    cases hsame
    exact h⟩
  rw [hroom]
  cases hstep with
  | @pat prog =>
    refine Iff.trans ⟨?_, ?_⟩ (autoconfPatUpdateChan_iff hbounds)
    · rintro ⟨chanP', hok, -⟩
      exact ⟨chanP', hok⟩
    · rintro ⟨chanP', hok⟩
      exact ⟨chanP', hok, withinBounds_updated hbounds (autoconfPatUpdateChan_cases hok)⟩
  | @pmt i pmt list stack chan found =>
    have hnum := hbounds chan (List.mem_of_getElem? found)
    by_cases hforeign : pmt.IsForeign chan
    · rw [autoconfReadPmt_foreign hforeign]
      refine iff_of_true ⟨_, rfl, forall_mem_set hbounds i hnum⟩ fun chan' hchan' hown => ?_
      cases found.symm.trans hchan'
      exact absurd hforeign hown
    · have hfits := @autoconfReadPmt_iff list pmt stack chan hnum hforeign
      constructor
      · rintro ⟨chanP', hok, -⟩ chan' hchan' -
        cases found.symm.trans hchan'
        obtain ⟨r, hread, -⟩ := map_eq_ok hok
        exact hfits.mp ⟨r, hread⟩
      · intro hall
        obtain ⟨⟨read, chan'⟩, hread⟩ := hfits.mpr (hall chan found hforeign)
        rw [hread]
        exact ⟨_, rfl, forall_mem_set hbounds i (autoconfReadPmt_ok hforeign hread).numPids⟩
  | elsewhere same =>
    refine iff_of_true ⟨_, rfl, fun chan' hchan' => ?_⟩ trivial
    obtain ⟨i, hi⟩ := List.mem_iff_getElem?.mp hchan'
    obtain ⟨chan, hchan, hpids, -⟩ := same.getElem? hi
    rw [hpids]
    exact hbounds chan (List.mem_of_getElem? hchan)

/-- What `data_full` has of the memory. -/
def firstBytes (byte : Nat → UInt8) : Buffer UInt8 maxTsSize where
  cells := (List.range maxTsSize).map byte
  size := (List.length_map _).trans List.length_range

/-- A PMT section of `lenFull` bytes, given by the memory. -/
def pmtOf (byte : Nat → UInt8) (lenFull : Nat)
    (accepted : Accepted ((firstBytes byte).cells.take lenFull)) : Pmt where
  pkt := { zeroed with dataFull := firstBytes byte, lenFull := lenFull }
  byte := byte
  inside i h := by
    rw [firstBytes, byteAt, List.getD_eq_getElem?_getD, List.getElem?_map, List.getElem?_range h,
      Option.map_some, Option.getD_some]
  accepted := accepted

/-- Service 1 with its PMT on PID 0x100. -/
def firstProgram : List UInt8 := [0x00, 0x01, 0xe1, 0x00]

/-- 127 video streams, and the PCR on a PID of its own. -/
def denseByte (i : Nat) : UInt8 :=
  if i < pmtLen then
    byteAt [0x02, 0xb2, 0x88, 0x00, 0x01, 0xc1, 0x00, 0x00, 0xe2, 0x00, 0xf0, 0x00] i
  else if i < 647 then
    byteAt [0x02, 0xe1, UInt8.ofNat ((i - pmtLen) / pmtInfoLen), 0xf0, 0x00]
      ((i - pmtLen) % pmtInfoLen)
  else byteAt [0x0b, 0x52, 0x3d, 0xee] (i - 647)

def densePmt : Pmt := pmtOf denseByte 651 (by decide +kernel)

def noSystems : Buffer CaSystem maxCaSystems := Buffer.fill _ ⟨-1, 0⟩

def zeros : Buffer PidEntry maxPids := Buffer.fill _ noEntry

/-- The PCR takes the last place of the temporary lists, and the copy goes past the end. -/
theorem not_bounded_dense : ∃ past s, Run boundedSystem past s ∧ ¬ Bounded past s := by
  have h : (autoconfPatUpdateChan ⟨[], Nat.zero_le _⟩ firstProgram).map (fun chanP =>
      chanP.channels[0]?.map fun chan =>
        (autoconfReadPmt noSystems densePmt zeros chan).map Prod.fst) =
      .ok (some (.error .outOfBounds)) := by decide +kernel
  obtain ⟨chanP, hpat, h⟩ := map_eq_ok h
  obtain ⟨chan, hchan, hread⟩ := Option.map_eq_some_iff.mp h
  have hstart : Run boundedSystem [] (.ok ⟨[], Nat.zero_le _⟩) :=
    .start ⟨_, rfl, fun chan hmem => by cases hmem⟩
  refine ⟨[.pmt 0 densePmt noSystems zeros, .pat firstProgram], _,
    .next (.next hstart ⟨_, rfl, .pat⟩) ⟨chanP, hpat, .pmt hchan⟩, ?_⟩
  rintro ⟨chanP', hok, -⟩
  obtain ⟨r, hr, -⟩ := map_eq_ok hok
  rw [hr] at hread
  cases hread

/-- The channels, and which of them a program of the PAT has updated; nothing reads that. -/
structure State where
  chanP : MumuChanP
  fromPat : List Nat

/-- The channel that a program updates: that of its service, or a new one. -/
def updated (chanP : MumuChanP) (prog : List UInt8) : Option Nat :=
  (programChannel chanP prog).or
    (if chanP.channels.length < maxChannels - 1 then some chanP.channels.length else none)

def fromPatAfter (s : State) : Event → List Nat
  | .pat prog => (updated s.chanP prog).toList ++ s.fromPat
  | _ => s.fromPat

/-- The calls that return. -/
def patSystem : System State Event where
  Initial s := s.fromPat = []
  Step s e s' := Step s.chanP e (.ok s'.chanP) ∧ s'.fromPat = fromPatAfter s e

/-- The PMT PID and the PIDs are not of the user. -/
def IsFree (chan : AutoChannel) : Prop := chan.pidI.pmtPidF ≠ .user ∧ chan.pidI.pidF ≠ .user

instance (chan : AutoChannel) : Decidable (IsFree chan) := inferInstanceAs (Decidable (_ ∧ _))

/-- A PMT PID that was taken from a PAT is among the PIDs. -/
def PmtStreamed (_ : List Event) (s : State) : Prop :=
  ∀ i chan, s.chanP.channels[i]? = some chan → i ∈ s.fromPat → IsFree chan →
    (chan.pmtPid : Int) ∈ chan.pidI.pids

/-- The PMT PID is the first PID of the channel, or the PMT gives it back. -/
def GivesBack (s : State) : Event → Prop
  | .pmt i pmt list stack => ∀ chan, s.chanP.channels[i]? = some chan → i ∈ s.fromPat →
      IsFree chan → ¬ pmt.IsForeign chan →
      (chan.pmtPid : Int) ∈ (chan.pidI.entries.cells.take 1 ++
        pmt.collected list stack chan.pidI.numPids).map PidEntry.pid
  | _ => True

/-- What a program leaves: its channel has its PMT PID, and the others are as they were. -/
theorem pmtStreamed_pat {s s' : State} {past : List Event} {prog : List UInt8}
    (h : PmtStreamed past s) (hcall : autoconfPatUpdateChan s.chanP prog = .ok s'.chanP)
    (hfrom : s'.fromPat = fromPatAfter s (.pat prog)) : PmtStreamed (.pat prog :: past) s' := by
  intro i chan hchan hmem hfree
  rw [hfrom, fromPatAfter, updated, programChannel] at hmem
  rw [autoconfPatUpdateChan] at hcall
  cases hfound : lastIndex (hasService (programNumber prog)) s.chanP.channels with
  | some j =>
    obtain ⟨old, hold, -⟩ := lastIndex_some hfound
    simp only [hfound, MumuChanP.modify, hold] at hcall
    rw [hfound, Option.some_or, Option.toList_some, List.singleton_append, List.mem_cons] at hmem
    obtain ⟨new, hupdate, hnew⟩ := bind_eq_ok.mp hcall
    rw [← Except.ok.inj hnew, MumuChanP.set] at hchan
    by_cases hij : j = i
    · subst hij
      rw [List.getElem?_set_self (List.getElem?_eq_some_iff.mp hold).1] at hchan
      cases hchan
      exact (updateProgram_ok hupdate).2 hfree.1
    · rw [List.getElem?_set_ne hij] at hchan
      exact h i chan hchan (hmem.resolve_left (Ne.symm hij)) hfree
  | none =>
    simp only [hfound] at hcall
    rw [hfound, Option.none_or] at hmem
    split at hcall
    case isTrue hroom =>
      rw [if_pos hroom, Option.toList_some, List.singleton_append, List.mem_cons] at hmem
      obtain ⟨fresh, -, hcall⟩ := bind_eq_ok.mp hcall
      obtain ⟨new, hupdate, hnew⟩ := bind_eq_ok.mp hcall
      rw [← Except.ok.inj hnew] at hchan
      by_cases hlt : i < s.chanP.channels.length
      · rw [List.getElem?_append_left hlt] at hchan
        exact h i chan hchan (hmem.resolve_left (Nat.ne_of_lt hlt)) hfree
      · rw [List.getElem?_append_right (Nat.le_of_not_lt hlt)] at hchan
        obtain rfl := List.mem_singleton.mp (List.mem_of_getElem? hchan)
        exact (updateProgram_ok hupdate).2 hfree.1
    case isFalse hfull =>
      rw [if_neg hfull, Option.toList_none, List.nil_append] at hmem
      rw [← Except.ok.inj hcall] at hchan
      exact h i chan hchan hmem hfree

/-- In every state of a run the PMT PIDs that were taken from a PAT are among the PIDs, if and only
if every PMT that is read for such a channel finds its PID in the first place or gives it back. -/
theorem pmtStreamed_run_iff (past : List Event) (s : State) :
    Run (patSystem.restrict GivesBack) past s ↔ Along patSystem PmtStreamed past s := by
  refine along_iff ?_ ?_ past s
  · intro s hinitial i chan hchan hmem
    rw [hinitial] at hmem
    cases hmem
  · rintro past s e ⟨chanP', fromPat'⟩ - h ⟨hstep, hfrom⟩
    generalize hcall : Except.ok chanP' = x at hstep
    cases hstep with
    | pat => exact iff_of_true (pmtStreamed_pat h hcall.symm hfrom) trivial
    | @pmt i pmt list stack chan found =>
      obtain ⟨⟨read, new⟩, hread, rfl⟩ := map_eq_ok hcall.symm
      obtain rfl : fromPat' = s.fromPat := hfrom
      by_cases hforeign : pmt.IsForeign chan
      · rw [autoconfReadPmt_foreign hforeign] at hread
        cases hread
        refine iff_of_true ?_ fun chan' hchan' _ _ hown => ?_
        · exact forall_set found (h i chan found) fun j chan' _ => h j chan'
        · cases found.symm.trans hchan'
          exact absurd hforeign hown
      · have hinto := autoconfReadPmt_ok hforeign hread
        have hfree : IsFree new ↔ IsFree chan := by rw [IsFree, IsFree, hinto.pmtPidF, hinto.pidF]
        have hpid : new.pmtPid = chan.pmtPid := congrArg (fun c => c.pmtPid) hinto.server
        have hnew : IsFree chan → ((new.pmtPid : Int) ∈ new.pidI.pids ↔
            (chan.pmtPid : Int) ∈ (chan.pidI.entries.cells.take 1 ++
              pmt.collected list stack chan.pidI.numPids).map PidEntry.pid) := by
          intro hchan
          rw [hinto.pids, if_neg hchan.2, hpid]
        constructor
        · intro hstreamed chan' hchan' hmem hchan hown
          cases found.symm.trans hchan'
          have hself : (s.chanP.channels.set i new)[i]? = some new :=
            List.getElem?_set_self (List.getElem?_eq_some_iff.mp found).1
          exact (hnew hchan).mp (hstreamed i new hself hmem (hfree.mpr hchan))
        · intro hgives
          refine forall_set found (fun hmem hchan => ?_) fun j chan' _ => h j chan'
          have hchan := hfree.mp hchan
          exact (hnew hchan).mpr (hgives chan found hmem hchan hforeign)
    | elsewhere same =>
      cases hcall
      obtain rfl : fromPat' = s.fromPat := hfrom
      refine iff_of_true (fun i chan' hchan' hmem hfree => ?_) trivial
      obtain ⟨chan, hchan, hpids, hpid⟩ := same.getElem? hchan'
      rw [IsFree, hpids] at hfree
      rw [hpids, hpid]
      exact h i chan hchan hmem hfree

/-- The calls one after the other. -/
def handle (s : State) : Event → Checked State
  | .pat prog => do
    let chanP ← autoconfPatUpdateChan s.chanP prog
    return ⟨chanP, fromPatAfter s (.pat prog)⟩
  | .pmt i pmt list stack =>
    match s.chanP.channels[i]? with
    | some chan => do
      let r ← autoconfReadPmt list pmt stack chan
      return ⟨s.chanP.set i r.2, s.fromPat⟩
    | none => .error .outOfBounds
  | .elsewhere => .ok s

theorem step_handle {s s' : State} {e : Event} (h : handle s e = .ok s') :
    patSystem.Step s e s' := by
  cases e with
  | pat prog =>
    obtain ⟨chanP, hcall, h⟩ := bind_eq_ok.mp h
    cases h
    exact ⟨hcall ▸ .pat, rfl⟩
  | pmt i pmt list stack =>
    rw [handle] at h
    split at h
    case h_1 chan hfound =>
      obtain ⟨r, hcall, h⟩ := bind_eq_ok.mp h
      cases h
      have hstep := @Step.pmt s.chanP i pmt list stack chan hfound
      rw [hcall] at hstep
      exact ⟨hstep, rfl⟩
    case h_2 => cases h
  | elsewhere =>
    cases h
    exact ⟨.elsewhere (List.forall₂_same.mpr fun chan _ => ⟨rfl, rfl⟩), rfl⟩

/-- One video stream, with the PCR. -/
def videoBytes : List UInt8 :=
  [0x02, 0xb0, 0x12, 0x00, 0x01, 0xc1, 0x00, 0x00, 0xe2, 0x00, 0xf0, 0x00, 0x02, 0xe2, 0x00, 0xf0,
    0x00, 0xec, 0x3c, 0x72, 0xa2]

def videoPmt : Pmt := pmtOf (byteAt videoBytes) 21 (by decide +kernel)

/-- The PMT of service 1 moves to PID 0x101. -/
def moving : List Event :=
  [.pat firstProgram, .pmt 0 videoPmt noSystems zeros, .pat [0x00, 0x01, 0xe1, 0x01],
    .pmt 0 videoPmt noSystems zeros]

/-- The new PMT PID stood behind the other PIDs, and the PMT has replaced it. -/
theorem not_pmtStreamed_moving : ∃ past s, Run patSystem past s ∧ ¬ PmtStreamed past s := by
  have h : (moving.foldlM handle ⟨⟨[], Nat.zero_le _⟩, []⟩).map (fun s =>
      (s.fromPat, s.chanP.channels[0]?.map fun chan =>
        (decide (IsFree chan), chan.pmtPid, chan.pidI.pids))) =
      .ok ([0, 0], some (true, 0x101, [0x100, 0x200])) := by decide +kernel
  obtain ⟨s, hplay, hvalues⟩ := map_eq_ok h
  simp only [Prod.mk.injEq, Option.map_eq_some_iff] at hvalues
  obtain ⟨hfrom, chan, hchan, hfree, hpmtPid, hpids⟩ := hvalues
  have hstart : Run patSystem [] ⟨⟨[], Nat.zero_le _⟩, []⟩ := .start rfl
  refine ⟨_, s, hstart.foldlM id (fun _ _ _ => step_handle) hplay, fun hstreamed => ?_⟩
  have hmem := hstreamed 0 chan hchan (by rw [hfrom]; decide) (of_decide_eq_true hfree)
  rw [hpmtPid, hpids] at hmem
  exact absurd hmem (by decide)

end MuMuDVB.PidLists
