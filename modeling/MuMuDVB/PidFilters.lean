import Mathlib.Logic.Function.Basic
import MuMuDVB.RecordedRun
import MuMuDVB.Channel

/-!
# The filters of the card

`update_chan_filters` compares the PIDs that the channels need with the state of
each PID, closes the filters that are not needed any more, and has
`create_card_fd` and `set_filters` open the new ones. A loop over the PIDs that
touches only the entries of its PID is a table.
-/
namespace MuMuDVB.PidFilters

open CheckedMemory RecordedRun MuMuDVB.Channel

inductive PidStatus where
  | notAsked | asked | filtered
  deriving DecidableEq, Repr

/-- PID 8192 stands for the whole transport stream. -/
abbrev PidTable (α : Type) := Fin 8193 → α

@[simp] abbrev maxMandatoryPidNumber : Nat := 32
@[simp] abbrev psipPid : Nat := 8187

/-- The state of the PIDs and the file descriptors of the card, zero for none. -/
structure Filters where
  askedPid : PidTable PidStatus
  fdDemuxer : PidTable Int
  fdDvr : Int

/-- `channel_ready >= ALMOST_READY`. -/
def isAlmostReady : ChanStatus → Bool
  | .almostReady => true
  | status => status.isReady

/-- `asked_pid[pid]=PID_ASKED`. -/
def storeAsked (table : PidTable PidStatus) (pid : Int) : Checked (PidTable PidStatus) :=
  if h : 0 ≤ pid ∧ pid < 8193 then
    .ok (Function.update table ⟨pid.toNat, by omega⟩ .asked)
  else .error .outOfBounds

/-- The PIDs of one channel. -/
def storeChannel (table : PidTable PidStatus) (channel : MumudvbChannel) :
    Checked (PidTable PidStatus) :=
  if isAlmostReady channel.channelReady then channel.pids.foldlM storeAsked table else .ok table

/-- The table that `update_chan_filters` fills first. -/
def neededPids (t2miPid : Int) (channels : List MumudvbChannel) : Checked (PidTable PidStatus) := do
  let table ← channels.foldlM storeChannel fun _ => .notAsked
  if 0 < t2miPid then storeAsked table t2miPid else return table

/-- The filter is closed. -/
def Closes (pid : Fin 8193) (stored needed : PidStatus) : Prop :=
  maxMandatoryPidNumber ≤ pid.val ∧ stored = .asked ∧ needed ≠ .asked ∧ pid.val ≠ psipPid

instance (pid : Fin 8193) (stored needed : PidStatus) : Decidable (Closes pid stored needed) :=
  inferInstanceAs (Decidable (_ ∧ _))

/-- The PID is asked for. -/
def Adds (pid : Fin 8193) (stored needed : PidStatus) : Prop :=
  maxMandatoryPidNumber ≤ pid.val ∧ needed = .asked ∧ stored ≠ .asked ∧ stored ≠ .filtered

instance (pid : Fin 8193) (stored needed : PidStatus) : Decidable (Adds pid stored needed) :=
  inferInstanceAs (Decidable (_ ∧ _))

/-- The loop of `update_chan_filters` that compares the tables. -/
def compareAsked (needed : PidTable PidStatus) (s : Filters) : Filters where
  askedPid pid :=
    if Closes pid (s.askedPid pid) (needed pid) then .notAsked
    else if Adds pid (s.askedPid pid) (needed pid) then .asked
    else s.askedPid pid
  fdDemuxer pid := if Closes pid (s.askedPid pid) (needed pid) then 0 else s.fdDemuxer pid
  fdDvr := s.fdDvr

/-- What `open` returns for each device, negative if it fails. -/
structure Opened where
  demuxer : PidTable Int
  dvr : Int

/-- `create_card_fd` opens the demuxer for the PID. -/
def LacksFd (s : Filters) (pid : Fin 8193) : Prop :=
  s.askedPid pid ≠ .notAsked ∧ s.fdDemuxer pid = 0

instance (s : Filters) (pid : Fin 8193) : Decidable (LacksFd s pid) :=
  inferInstanceAs (Decidable (_ ∧ _))

/-- `create_card_fd`: the loop ends at the first device that cannot be opened. -/
def createCardFd (opened : Opened) (s : Filters) : Bool × Filters :=
  let reached (pid : Fin 8193) : Bool :=
    ∀ before < pid, LacksFd s before → 0 ≤ opened.demuxer before
  let allOpen : Bool := ∀ pid, LacksFd s pid → 0 ≤ opened.demuxer pid
  let fdDvr := if allOpen ∧ s.fdDvr = 0 then opened.dvr else s.fdDvr
  (allOpen && 0 ≤ fdDvr, { s with
    fdDemuxer := fun pid => if LacksFd s pid ∧ reached pid then opened.demuxer pid
      else s.fdDemuxer pid
    fdDvr })

/-- `set_filters`. -/
def setFilters (s : Filters) : Filters :=
  { s with askedPid := fun pid => if s.askedPid pid = .asked then .filtered else s.askedPid pid }

/-- `update_chan_filters`; a device that could not be opened is reported only. -/
def updateChanFilters (t2miPid : Int) (channels : List MumudvbChannel) (opened : Opened)
    (s : Filters) : Checked Filters := do
  let needed ← neededPids t2miPid channels
  let (_, s) := createCardFd opened (compareAsked needed s)
  return setFilters s

/-- The PIDs of the tables that are always asked for. -/
def mandatoryPids : List Nat := [0, 1, 16, 17, 18, 20]

/-- The state that `main` sets up, on an ATSC card or not. -/
def initialFilters (atsc : Bool) : Filters where
  askedPid pid := if pid.val ∈ mandatoryPids ∨ atsc = true ∧ pid.val = psipPid then .asked
    else .notAsked
  fdDemuxer _ := 0
  fdDvr := 0

/-- The PID is in the list of a channel that is almost ready at least, or is the T2-MI PID. -/
def Needed (t2miPid : Int) (channels : List MumudvbChannel) (pid : Fin 8193) : Prop :=
  (∃ channel ∈ channels, isAlmostReady channel.channelReady = true ∧ (pid : Int) ∈ channel.pids) ∨
    0 < t2miPid ∧ t2miPid = pid

theorem storeAsked_iff {table table' : PidTable PidStatus} {i : Int}
    (h : storeAsked table i = .ok table') (pid : Fin 8193) :
    table' pid = .asked ↔ table pid = .asked ∨ i = pid := by
  rw [storeAsked] at h
  split at h
  case isFalse => cases h
  case isTrue hrange =>
    cases h
    have hbound : i.toNat < 8193 := by omega
    have hindex : pid = ⟨i.toNat, hbound⟩ ↔ i = pid := by
      rw [Fin.ext_iff]
      show pid.val = i.toNat ↔ i = pid.val
      omega
    by_cases hsame : pid = ⟨i.toNat, hbound⟩
    · rw [← hindex, hsame, Function.update_self]
      simp
    · rw [Function.update_of_ne hsame, ← hindex]
      simp [hsame]

theorem storeAll_iff {table table' : PidTable PidStatus} {pids : List Int}
    (h : pids.foldlM storeAsked table = .ok table') (pid : Fin 8193) :
    table' pid = .asked ↔ table pid = .asked ∨ (pid : Int) ∈ pids := by
  induction pids generalizing table with
  | nil =>
    cases h
    simp
  | cons i pids ih =>
    rw [List.foldlM_cons] at h
    obtain ⟨table₁, hstore, h⟩ := bind_eq_ok.mp h
    rw [ih h, storeAsked_iff hstore, List.mem_cons, or_assoc, eq_comm (a := i)]

theorem storeChannels_iff {table table' : PidTable PidStatus} {channels : List MumudvbChannel}
    (h : channels.foldlM storeChannel table = .ok table') (pid : Fin 8193) :
    table' pid = .asked ↔ table pid = .asked ∨ ∃ channel ∈ channels,
      isAlmostReady channel.channelReady = true ∧ (pid : Int) ∈ channel.pids := by
  induction channels generalizing table with
  | nil =>
    cases h
    simp
  | cons channel channels ih =>
    rw [List.foldlM_cons] at h
    obtain ⟨table₁, hstore, h⟩ := bind_eq_ok.mp h
    have hone : table₁ pid = .asked ↔ table pid = .asked ∨
        isAlmostReady channel.channelReady = true ∧ (pid : Int) ∈ channel.pids := by
      rw [storeChannel] at hstore
      split at hstore
      case isTrue hready => rw [storeAll_iff hstore]; simp [hready]
      case isFalse hready =>
        cases hstore
        simp [hready]
    rw [ih h, hone, or_assoc]
    simp

/-- The first table asks for exactly the PIDs that are needed. -/
theorem neededPids_iff {t2miPid : Int} {channels : List MumudvbChannel}
    {table : PidTable PidStatus} (h : neededPids t2miPid channels = .ok table) (pid : Fin 8193) :
    table pid = .asked ↔ Needed t2miPid channels pid := by
  obtain ⟨table₁, hchannels, h⟩ := bind_eq_ok.mp h
  have hstored := storeChannels_iff hchannels pid
  simp only [reduceCtorEq, false_or] at hstored
  split at h
  case isTrue ht2mi => rw [storeAsked_iff h, hstored, Needed]; simp [ht2mi]
  case isFalse ht2mi =>
    cases h
    rw [hstored, Needed]
    simp [ht2mi]

/-- What a call makes of the state of a PID. -/
theorem updateChanFilters_askedPid {t2miPid : Int} {channels : List MumudvbChannel}
    {opened : Opened} {s s' : Filters}
    (h : updateChanFilters t2miPid channels opened s = .ok s') :
    ∃ needed, neededPids t2miPid channels = .ok needed ∧ ∀ pid, s'.askedPid pid =
      if (compareAsked needed s).askedPid pid = .asked then .filtered
      else (compareAsked needed s).askedPid pid := by
  obtain ⟨needed, hneeded, h⟩ := bind_eq_ok.mp h
  cases h
  exact ⟨needed, hneeded, fun _ => rfl⟩

/-- The filters that the claim of synchronisation is about. -/
def Managed (pid : Fin 8193) : Prop := maxMandatoryPidNumber ≤ pid.val ∧ pid.val ≠ psipPid

/-- No filter is waiting to be set. -/
def AllSet (s : Filters) : Prop := ∀ pid, Managed pid → s.askedPid pid ≠ .asked

theorem allSet_initial (atsc : Bool) : AllSet (initialFilters atsc) := by
  intro pid ⟨hpid, hpsip⟩
  have hmandatory : pid.val ∉ mandatoryPids := by
    intro hmem
    have hsmall : ∀ n ∈ mandatoryPids, n < 32 := by decide
    exact absurd (hsmall _ hmem) (by simpa using hpid)
  simp [initialFilters, hmandatory, hpsip]

/-- A PID that is managed has a filter after a call, if and only if it had one or is needed: the
state of an open filter is never the one that the closing test looks for. -/
theorem updateChanFilters_open {t2miPid : Int} {channels : List MumudvbChannel}
    {opened : Opened} {s s' : Filters} (hset : AllSet s)
    (h : updateChanFilters t2miPid channels opened s = .ok s') {pid : Fin 8193}
    (hpid : Managed pid) :
    s'.askedPid pid ≠ .asked ∧ (s'.askedPid pid ≠ .notAsked ↔
      s.askedPid pid ≠ .notAsked ∨ Needed t2miPid channels pid) := by
  obtain ⟨needed, hneeded, hasked⟩ := updateChanFilters_askedPid h
  have hnever : ¬ Closes pid (s.askedPid pid) (needed pid) :=
    fun hcloses => hset pid hpid hcloses.2.1
  rw [hasked, ← neededPids_iff hneeded pid]
  simp only [compareAsked, if_neg hnever]
  by_cases hadds : Adds pid (s.askedPid pid) (needed pid)
  · rw [if_pos hadds, if_pos rfl]
    exact ⟨by decide, fun _ => .inr hadds.2.1, fun _ => by decide⟩
  · rw [if_neg hadds, if_neg (hset pid hpid)]
    refine ⟨hset pid hpid, .inl, ?_⟩
    rintro (hopen | hneeds)
    · exact hopen
    · intro hclosed
      exact hadds ⟨hpid.1, hneeds, hset pid hpid, by rw [hclosed]; decide⟩

/-- A change of the channels, and what the devices return in the call that follows. -/
structure Event where
  channels : List MumudvbChannel
  opened : Opened

/-- Each change is followed by a call. -/
def system (t2miPid : Int) : System Filters Event where
  Initial s := ∃ atsc, s = initialFilters atsc
  Step s e s' := updateChanFilters t2miPid e.channels e.opened s = .ok s'

/-- A filter is open for exactly the PIDs that are needed. -/
def Synchronised (t2miPid : Int) (channels : List MumudvbChannel) (s : Filters) : Prop :=
  ∀ pid, Managed pid → (s.askedPid pid ≠ .notAsked ↔ Needed t2miPid channels pid)

/-- The runs in which each call leaves the filters synchronised. -/
def synchronisedSystem (t2miPid : Int) : System Filters Event where
  Initial := (system t2miPid).Initial
  Step s e s' := (system t2miPid).Step s e s' ∧ Synchronised t2miPid e.channels s'

/-- Every PID with an open filter is still needed. -/
def NoneDisappears (t2miPid : Int) (s : Filters) (e : Event) : Prop :=
  ∀ pid, Managed pid → s.askedPid pid ≠ .notAsked → Needed t2miPid e.channels pid

variable {t2miPid : Int} {past : List Event} {s s' : Filters} {e : Event}

theorem allSet_run (hrun : Run (system t2miPid) past s) : AllSet s := by
  refine hrun.invariant (P := fun _ s => AllSet s) ?_ ?_
  · rintro s ⟨atsc, rfl⟩
    exact allSet_initial atsc
  · exact fun _ _ _ _ hset hstep pid hpid => (updateChanFilters_open hset hstep hpid).1

theorem synchronised_iff (hset : AllSet s) (hstep : (system t2miPid).Step s e s') :
    Synchronised t2miPid e.channels s' ↔ NoneDisappears t2miPid s e := by
  constructor
  · intro hsync pid hpid hopen
    exact (hsync pid hpid).mp ((updateChanFilters_open hset hstep hpid).2.mpr (.inl hopen))
  · intro hnone pid hpid
    rw [(updateChanFilters_open hset hstep hpid).2]
    exact ⟨fun h => h.elim (hnone pid hpid) id, .inr⟩

/-- The filters are synchronised after every call of a run, if and only if at no call a PID with an
open filter is needed no more. -/
theorem noneDisappears_run_iff (t2miPid : Int) (past : List Event) (s : Filters) :
    Run ((system t2miPid).restrict (NoneDisappears t2miPid)) past s ↔
      Run (synchronisedSystem t2miPid) past s := by
  refine run_congr ?_ (fun past s e s' hrun _ => ⟨fun hstep => ?_, fun hstep => ?_⟩) past s
  · rfl
  · exact ⟨hstep.2, (synchronised_iff (allSet_run hrun.of_restrict) hstep.2).mpr hstep.1⟩
  · exact ⟨(synchronised_iff (allSet_run hrun.of_restrict) hstep.1).mp hstep.2, hstep.1⟩

/-- A channel with one PID that is ready up to its network. -/
def onePid : List MumudvbChannel :=
  [{ zeroedChannel with channelReady := .almostReady, pids := [100] }]

/-- Devices that open. -/
def allOpened : Opened := ⟨fun pid => pid.val + 3, 9000⟩

/-- A PID is asked for, and then no channel has it. -/
def dropPid : Checked (Filters × Filters) := do
  let s ← updateChanFilters 0 onePid allOpened (initialFilters false)
  let s' ← updateChanFilters 0 [] allOpened s
  return (s, s')

/-- Its filter stays open. -/
theorem not_synchronised_dropped : ∃ past s e s', Run (system 0) past s ∧
    (system 0).Step s e s' ∧ ¬ Synchronised 0 e.channels s' := by
  have h : dropPid.map (fun states => states.2.askedPid 100) = .ok .filtered := by decide +kernel
  obtain ⟨⟨s, s'⟩, hdrop, hopen⟩ := map_eq_ok h
  obtain ⟨s₁, hfirst, hdrop⟩ := bind_eq_ok.mp hdrop
  obtain ⟨s₂, hsecond, hdrop⟩ := bind_eq_ok.mp hdrop
  cases hdrop
  refine ⟨[⟨onePid, allOpened⟩], s, ⟨[], allOpened⟩, s', .next (.start ⟨false, rfl⟩) hfirst,
    hsecond, fun hsync => ?_⟩
  have hneeded : Needed 0 [] 100 :=
    (hsync 100 ⟨by decide, by decide⟩).mp (by rw [show s'.askedPid 100 = _ from hopen]; decide)
  rcases hneeded with ⟨channel, hmem, -⟩ | ⟨hpositive, -⟩
  · cases hmem
  · exact absurd hpositive (by decide)

/-- A demuxer is open for asked PIDs only. -/
def OpenIsAsked (s : Filters) : Prop := ∀ pid, s.fdDemuxer pid ≠ 0 → s.askedPid pid ≠ .notAsked

/-- With devices that open, the loop of `create_card_fd` reaches every PID. -/
theorem createCardFd_opens {opened : Opened} (hopens : ∀ pid, 0 < opened.demuxer pid) (r : Filters)
    (pid : Fin 8193) : (createCardFd opened r).2.fdDemuxer pid =
      if LacksFd r pid then opened.demuxer pid else r.fdDemuxer pid := by
  have hreached : ∀ before < pid, LacksFd r before → 0 ≤ opened.demuxer before :=
    fun before _ _ => Int.le_of_lt (hopens before)
  simp only [createCardFd, decide_eq_true hreached, and_true]

theorem setFilters_open (r : Filters) (pid : Fin 8193) :
    (setFilters r).askedPid pid ≠ .notAsked ↔ r.askedPid pid ≠ .notAsked := by
  by_cases hasked : r.askedPid pid = .asked <;> simp [setFilters, hasked]

/-- While the devices open, a PID has a demuxer after a call if and only if it is asked for. -/
theorem updateChanFilters_fd {channels : List MumudvbChannel} {opened : Opened}
    (hopens : ∀ pid, 0 < opened.demuxer pid) (hasked : OpenIsAsked s)
    (h : updateChanFilters t2miPid channels opened s = .ok s') (pid : Fin 8193) :
    s'.fdDemuxer pid ≠ 0 ↔ s'.askedPid pid ≠ .notAsked := by
  obtain ⟨needed, -, h⟩ := bind_eq_ok.mp h
  rw [← Except.ok.inj h, setFilters_open]
  show (createCardFd opened (compareAsked needed s)).2.fdDemuxer pid ≠ 0 ↔
    (compareAsked needed s).askedPid pid ≠ .notAsked
  have hpositive := hopens pid
  rw [createCardFd_opens hopens]
  by_cases hlacks : LacksFd (compareAsked needed s) pid
  · rw [if_pos hlacks]
    exact ⟨fun _ => hlacks.1, fun _ => by omega⟩
  · rw [if_neg hlacks]
    refine ⟨fun hfd => ?_, fun hne hzero => hlacks ⟨hne, hzero⟩⟩
    -- a demuxer that the comparison leaves open belongs to a PID that stays asked for
    simp only [compareAsked] at hfd ⊢
    by_cases hcloses : Closes pid (s.askedPid pid) (needed pid)
    · exact absurd (if_pos hcloses) hfd
    · rw [if_neg hcloses] at hfd ⊢
      by_cases hadds : Adds pid (s.askedPid pid) (needed pid)
      · rw [if_pos hadds]
        decide
      · rw [if_neg hadds]
        exact hasked pid hfd

/-- The calls during which every device opens. -/
def DevicesOpen (_ : Filters) (e : Event) : Prop := ∀ pid, 0 < e.opened.demuxer pid

theorem openIsAsked_run (hrun : Run ((system t2miPid).restrict DevicesOpen) past s) :
    OpenIsAsked s := by
  induction hrun with
  | start initial =>
    obtain ⟨atsc, rfl⟩ := initial
    exact fun pid hfd => absurd rfl hfd
  | next _ step ih => exact fun pid hfd => (updateChanFilters_fd step.1 ih step.2 pid).mp hfd

/-- The open demuxers are those of the PIDs that are asked for. -/
theorem fd_run (hrun : Run ((system t2miPid).restrict DevicesOpen) (e :: past) s)
    (pid : Fin 8193) : s.fdDemuxer pid ≠ 0 ↔ s.askedPid pid ≠ .notAsked := by
  cases hrun with
  | next run step => exact updateChanFilters_fd step.1 (openIsAsked_run run) step.2 pid

end MuMuDVB.PidFilters
