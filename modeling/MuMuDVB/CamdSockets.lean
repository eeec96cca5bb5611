import MuMuDVB.RemovedServices

/-!
# The connections to the camd

With software descrambling every channel has a socket to the key server, opened
by `scam_send_capmt` and registered in an epoll set; the getcw thread looks up
the channel of each event by its socket. The table of channels is changed by
the PAT meanwhile, and a channel whose service is back is initialised again.
-/
namespace MuMuDVB.CamdSockets

open CheckedMemory RecordedRun MuMuDVB.TsHeader MuMuDVB.Ts MuMuDVB.Channel MuMuDVB.Autoconf
open MuMuDVB.AutoconfPat MuMuDVB.AutoconfTables MuMuDVB.ChannelTable
open MuMuDVB.AutoconfCat (maxChannels)
open MuMuDVB.RewritePat (programNumber)

@[simp] abbrev maxStaticKeys : Nat := 24

/-- Whether the channel is to be asked, of the CAM or of the camd. -/
inductive CamAsk where
  | noAsk
  | needAsk
  | needUpdate
  | asked
  deriving DecidableEq, Repr

/-- What software descrambling keeps of a channel. -/
structure CamdChannel where
  camdSocket : Int
  needScamAsk : CamAsk
  oddCw : List UInt8
  evenCw : List UInt8
  gotKeyOdd : Bool
  gotKeyEven : Bool
  caIdx : Int
  caIdxRefcnt : Nat

/-- A channel of the table that has not been used. -/
def unusedCamd : CamdChannel := ⟨0, .noAsk, [], [], false, false, 0, 0⟩

/-- A constant key, for the service `sid`. -/
structure StaticKey where
  sid : Int
  odd : List UInt8
  even : List UInt8

/-- The part of `scam_parameters_t` that is set once. -/
structure ScamParameters where
  constKeys : Buffer StaticKey maxStaticKeys
  constKeyCount : Nat

/-- The descriptors that are open, and those in the epoll set. -/
structure Descriptors where
  opened : List Int
  registered : List Int

/-- `close`, which also takes the descriptor out of the epoll set. -/
def Descriptors.close (fds : Descriptors) (fd : Int) : Descriptors :=
  ⟨fds.opened.filter (· ≠ fd), fds.registered.filter (· ≠ fd)⟩

/-- What the system answers to the calls of `scam_send_capmt`: the descriptor of `socket`, and
which of the others succeed. -/
structure Answers where
  socket : Option Int
  connect : Bool
  getFlags : Bool
  setFlags : Bool
  epollAdd : Bool
  wrote : Bool

section code

variable (params : ScamParameters)

/-- The constant key that is used for the service, if there is one. -/
def staticKey (serviceId : Int) : Checked (Option StaticKey) := do
  let chanid := if 0 < params.constKeyCount then
      (params.constKeys.cells.take params.constKeyCount).findIdx fun key => serviceId = key.sid
    else 0
  let key ← params.constKeys.read chanid
  return if serviceId = key.sid ∧ 0 < params.constKeyCount then some key else none

/-- The socket is opened and registered; `false` when `scam_send_capmt` returns here. -/
def openSocket (answers : Answers) (chan : CamdChannel) (fds : Descriptors) :
    Bool × CamdChannel × Descriptors :=
  let fd := answers.socket.getD (-1)
  let opened : Descriptors := { fds with opened := answers.socket.toList ++ fds.opened }
  let chan := { chan with camdSocket := fd }
  if answers.connect = false then (false, { chan with camdSocket := -1 }, opened.close fd)
  else if answers.getFlags = false then (false, chan, opened)
  else if answers.setFlags = false then (false, chan, opened)
  else if answers.epollAdd = false then (false, chan, opened)
  else (true, chan, { opened with registered := fd :: opened.registered })

/-- `scam_send_capmt`; `caPidIndex` is the index in `ca_pid`. -/
def scamSendCapmt (answers : Answers) (caPidIndex serviceId : Int) (chan : CamdChannel)
    (fds : Descriptors) : Checked (CamdChannel × Descriptors) := do
  match ← staticKey params serviceId with
  | some key => return ({ chan with
      oddCw := key.odd
      gotKeyOdd := true
      evenCw := key.even
      gotKeyEven := true
      caIdx := caPidIndex + 1
      caIdxRefcnt := if chan.caIdxRefcnt = 0 then 1 else chan.caIdxRefcnt }, fds)
  | none =>
    let (ready, chan, fds) :=
      if chan.camdSocket < 0 then openSocket answers chan fds else (true, chan, fds)
    if ready = false then return (chan, fds)
    else if answers.wrote = false then
      return ({ chan with camdSocket := -1 }, fds.close chan.camdSocket)
    else return (chan, fds)

/-- The channel to which `getcwthread_func` gives an event: its loop looks at the sockets when
there are no constant keys. -/
def handler (camd : List CamdChannel) (fd : Int) : Option Nat :=
  if 0 < params.constKeyCount then none else camd.findIdx? fun chan => chan.camdSocket = fd

/-- A channel whose connection is gone. -/
def hungUp (chan : CamdChannel) : CamdChannel :=
  { chan with camdSocket := -1, needScamAsk := .needAsk, caIdxRefcnt := 0, caIdx := 0 }

end code

/-- The channels with what software descrambling keeps of them. -/
structure Channels where
  chanP : MumuChanP
  camd : List CamdChannel

/-- The rest of `mumu_init_chan`. -/
def initCamd (chan : CamdChannel) : CamdChannel := { chan with camdSocket := -1 }

/-- The calls of `mumu_init_chan` for a program, in `autoconf_pat_update_chan`. -/
def camdProgram (chanP : MumuChanP) (camd : List CamdChannel) (prog : List UInt8) :
    List CamdChannel :=
  match lastIndex (hasService (programNumber prog)) chanP.channels with
  | some i =>
    if (chanP.channels[i]?).map (·.channelReady) = some .removed then camd.modify i initCamd
    else camd
  | none =>
    if chanP.channels.length < maxChannels - 1 then camd ++ [initCamd unusedCamd] else camd

/-- `autoconf_pat_update_chan` on both. -/
def updateChan (chans : Channels) (prog : List UInt8) : Checked Channels := do
  let chanP ← autoconfPatUpdateChan chans.chanP prog
  return ⟨chanP, camdProgram chans.chanP chans.camd prog⟩

/-- `autoconf_read_pat` on both. -/
def readPat (s : AutoP) (chans : Channels) : Checked (AutoP × Channels) := do
  let pat := s.pat.temp.dataFull.cells
  if ← s.pat.alreadySeen pat then return (s, chans)
  else do
    let noted ← (s.pat.renew pat).store pat
    let (s, chanP) := startSection s chans.chanP pat noted
    if currentNextIndicator pat = 0 then return (s, ⟨chanP, chans.camd⟩)
    else do
      let chans ← (patPrograms pat).foldlM updateChan ⟨chanP, chans.camd⟩
      let (s, chanP) := finishPat { s with transportStreamId := transportStreamId pat }
        chans.chanP pat
      return (s, ⟨chanP, chans.camd⟩)

structure State where
  table : RemovedServices.State
  camd : List CamdChannel
  fds : Descriptors
  /-- the getcw thread has returned -/
  ended : Bool

inductive Event where
  | table (e : RemovedServices.Event)
  | capmt (i : Nat) (answers : Answers) (caPidIndex : Int)
  | hangUp (fd : Int)

/-- A new descriptor is one that is not open; without one there is no connection. -/
def Answers.Fit (answers : Answers) (fds : Descriptors) : Prop :=
  (∀ fd ∈ answers.socket.toList, 0 ≤ fd ∧ fd ∉ fds.opened) ∧
    (answers.socket = none → answers.connect = false)

instance (answers : Answers) (fds : Descriptors) : Decidable (answers.Fit fds) :=
  inferInstanceAs (Decidable (_ ∧ _))

theorem Answers.Fit.new {answers : Answers} {fds : Descriptors} (h : answers.Fit fds) {fd : Int}
    (hsocket : answers.socket = some fd) : 0 ≤ fd ∧ fd ∉ fds.opened :=
  h.1 fd (by rw [hsocket]; exact List.mem_singleton_self fd)

/-- What `getcwthread_func` does about the end of a connection. -/
def hangUp (params : ScamParameters) (s : State) (fd : Int) : State :=
  match handler params s.camd fd with
  | none => s
  | some i =>
    if fd ∈ s.fds.registered then
      { s with
        camd := s.camd.modify i hungUp
        fds := s.fds.close fd }
    else { s with ended := true }

/-- Sections are read and the status of the channels is updated; a CAPMT is sent for a channel;
the end of a connection is handled. -/
inductive Step (params : ScamParameters) (env : Surroundings) : State → Event → State → Prop where
  | pat {s : State} {e : AcceptedSection} {autoP : AutoP} {chans : Channels}
      (call : readPat (receive s.table.autoP e) ⟨s.table.chanP, s.camd⟩ = .ok (autoP, chans)) :
      Step params env s (.table (.pat e)) { s with
        table := ⟨autoP, chans.chanP, RemovedServices.listedAfter s.table e⟩
        camd := chans.camd }
  | table {s : State} {e : RemovedServices.Event} {t : RemovedServices.State}
      (other : ∀ section_, e ≠ .pat section_) (step : RemovedServices.Step env s.table e t) :
      Step params env s (.table e) { s with table := t }
  | capmt {s : State} {i : Nat} {answers : Answers} {caPidIndex : Int} {auto : AutoChannel}
      {chan chan' : CamdChannel} {fds : Descriptors}
      (service : s.table.chanP.channels[i]? = some auto) (here : s.camd[i]? = some chan)
      (fit : answers.Fit s.fds)
      (call : scamSendCapmt params answers caPidIndex auto.http.serviceId chan s.fds =
        .ok (chan', fds)) :
      Step params env s (.capmt i answers caPidIndex) { s with
        camd := s.camd.set i chan'
        fds }
  | hangUp {s : State} {fd : Int} (running : s.ended = false) :
      Step params env s (.hangUp fd) (hangUp params s fd)

/-- At the start no channel has a connection. -/
def system (params : ScamParameters) (env : Surroundings) : System State Event where
  Initial s := (RemovedServices.system env).Initial s.table ∧
    s.camd.length = s.table.chanP.channels.length ∧ (∀ chan ∈ s.camd, chan.camdSocket = -1) ∧
    s.fds = ⟨[], []⟩ ∧ s.ended = false
  Step := Step params env

/-- Every descriptor in the epoll set is the socket of exactly one channel, and that channel is
given its events. -/
def Connected (params : ScamParameters) (s : State) : Prop :=
  ∀ fd ∈ s.fds.registered, ∃ i, (∀ j, (∃ chan, s.camd[j]? = some chan ∧ chan.camdSocket = fd) ↔
    j = i) ∧ handler params s.camd fd = some i

/-- The section is read, and one of its services has channel `i`, which was removed. -/
def ComesBack (s : State) (e : AcceptedSection) (i : Nat) : Prop :=
  ¬ (receive s.table.autoP e).pat.Skips e.bytes ∧ currentNextIndicator e.bytes ≠ 0 ∧
    ∃ prog ∈ patPrograms e.bytes,
      lastIndex (hasService (programNumber prog)) s.table.chanP.channels = some i ∧
      (s.table.chanP.channels[i]?).map (·.channelReady) = some .removed

/-- The call opens a connection that stays. -/
def Connects (answers : Answers) (chan : CamdChannel) : Prop :=
  chan.camdSocket < 0 ∧ answers.connect = true ∧ answers.getFlags = true ∧
    answers.setFlags = true ∧ answers.epollAdd = true ∧ answers.wrote = true

/-- No service comes back whose channel still has a registered socket, and where there are
constant keys no connection is opened. -/
def KeepsSockets (params : ScamParameters) (s : State) : Event → Prop
  | .table (.pat e) => ∀ i chan, ComesBack s e i → s.camd[i]? = some chan →
      chan.camdSocket ∉ s.fds.registered
  | .table _ => True
  | .capmt i answers _ => ∀ auto chan, s.table.chanP.channels[i]? = some auto →
      s.camd[i]? = some chan → 0 < params.constKeyCount → Connects answers chan →
      staticKey params auto.http.serviceId ≠ .ok none
  | .hangUp _ => True

/-! ## Who owns a descriptor -/

/-- The socket of each channel, -1 where there is none. -/
def socketAt (camd : List CamdChannel) (i : Nat) : Int :=
  ((camd[i]?).map CamdChannel.camdSocket).getD (-1)

/-- Sockets are open descriptors, each of one channel, and so is what is registered. -/
structure Owned (sockets : Nat → Int) (fds : Descriptors) : Prop where
  opened : ∀ i, 0 ≤ sockets i → sockets i ∈ fds.opened
  distinct : ∀ i j, 0 ≤ sockets i → sockets i = sockets j → i = j
  registered : ∀ fd ∈ fds.registered, fd ∈ fds.opened
  nonneg : ∀ fd ∈ fds.opened, 0 ≤ fd

/-- What is registered is somebody's socket. -/
def Covered (sockets : Nat → Int) (fds : Descriptors) : Prop :=
  ∀ fd ∈ fds.registered, ∃ i, sockets i = fd

section owners

variable {sockets sockets' : Nat → Int} {fds : Descriptors} {i : Nat} {fd : Int}

/-- Some channels forget their sockets. -/
theorem Owned.forget (h : Owned sockets fds) {R : Nat → Prop} (hR : ∀ i, R i → sockets' i = -1)
    (hother : ∀ i, ¬ R i → sockets' i = sockets i) : Owned sockets' fds := by
  have hsame : ∀ i, 0 ≤ sockets' i → sockets' i = sockets i := by
    intro i hi
    by_cases hRi : R i
    · rw [hR i hRi] at hi
      omega
    · exact hother i hRi
  refine ⟨fun i hi => ?_, fun i j hi hij => ?_, h.registered, h.nonneg⟩
  · have heq := hsame i hi
    rw [heq] at hi ⊢
    exact h.opened i hi
  · have hj : 0 ≤ sockets' j := by omega
    have heq := hsame i hi
    rw [heq, hsame j hj] at hij
    rw [heq] at hi
    exact h.distinct i j hi hij

/-- Then all is still covered exactly when none of these was registered. -/
theorem Owned.covered_forget (h : Owned sockets fds) (hcovered : Covered sockets fds)
    {R : Nat → Prop} (hR : ∀ i, R i → sockets' i = -1)
    (hother : ∀ i, ¬ R i → sockets' i = sockets i) :
    Covered sockets' fds ↔ ∀ i, R i → sockets i ∉ fds.registered := by
  constructor
  · intro hcovered' i hi hmem
    obtain ⟨j, hj⟩ := hcovered' _ hmem
    have hpos := h.nonneg _ (h.registered _ hmem)
    have hRj : ¬ R j := by
      intro hRj
      rw [hR j hRj] at hj
      omega
    rw [hother j hRj] at hj
    exact hRj (h.distinct i j hpos hj.symm ▸ hi)
  · intro hnone fd hfd
    obtain ⟨i, rfl⟩ := hcovered fd hfd
    exact ⟨i, hother i fun hRi => hnone i hRi hfd⟩

/-- A channel gets a new descriptor. -/
theorem Owned.open (h : Owned sockets fds) (hpos : 0 ≤ fd) (hnew : fd ∉ fds.opened)
    (hi : sockets' i = fd) (hother : ∀ j, j ≠ i → sockets' j = sockets j) :
    Owned sockets' { fds with opened := fd :: fds.opened } := by
  have hfresh : ∀ j, j ≠ i → 0 ≤ sockets' j → sockets' j ≠ fd := by
    intro j hj hpos heq
    rw [hother j hj] at hpos heq
    exact hnew (heq ▸ h.opened j hpos)
  refine ⟨fun j hj => ?_, fun j k hj hjk => ?_, fun fd' hfd' => ?_, fun fd' hfd' => ?_⟩
  · by_cases hji : j = i
    · rw [hji, hi]
      exact List.mem_cons_self
    · rw [hother j hji] at hj ⊢
      exact List.mem_cons_of_mem _ (h.opened j hj)
  · by_cases hji : j = i
    · by_cases hki : k = i
      · rw [hji, hki]
      · rw [hji] at hj hjk
        exact absurd (hjk.symm.trans hi) (hfresh k hki (hjk ▸ hj))
    · by_cases hki : k = i
      · rw [hki, hi] at hjk
        exact absurd hjk (hfresh j hji hj)
      · rw [hother j hji] at hj
        rw [hother j hji, hother k hki] at hjk
        exact h.distinct j k hj hjk
  · exact List.mem_cons_of_mem _ (h.registered fd' hfd')
  · rcases List.mem_cons.mp hfd' with rfl | hfd'
    · exact hpos
    · exact h.nonneg fd' hfd'

theorem Covered.open (h : Covered sockets fds) (howned : Owned sockets fds) (hnone : sockets i < 0)
    (hother : ∀ j, j ≠ i → sockets' j = sockets j) (opened : List Int) :
    Covered sockets' { fds with opened } := by
  intro fd hfd
  obtain ⟨j, rfl⟩ := h fd hfd
  refine ⟨j, hother j ?_⟩
  rintro rfl
  exact absurd (howned.nonneg _ (howned.registered _ hfd)) (by omega)

theorem Owned.register (h : Owned sockets fds) (hi : sockets i = fd) (hpos : 0 ≤ fd) :
    Owned sockets { fds with registered := fd :: fds.registered } := by
  refine ⟨h.opened, h.distinct, fun fd' hfd' => ?_, h.nonneg⟩
  rcases List.mem_cons.mp hfd' with rfl | hfd'
  · exact hi ▸ h.opened i (hi ▸ hpos)
  · exact h.registered fd' hfd'

theorem Covered.register (h : Covered sockets fds) (hi : sockets i = fd) :
    Covered sockets { fds with registered := fd :: fds.registered } := by
  intro fd' hfd'
  rcases List.mem_cons.mp hfd' with rfl | hfd'
  · exact ⟨i, hi⟩
  · exact h fd' hfd'

/-- A channel closes its socket. -/
theorem Owned.close (h : Owned sockets fds) (hi : sockets' i = -1)
    (hother : ∀ j, j ≠ i → sockets' j = sockets j) : Owned sockets' (fds.close (sockets i)) := by
  refine ⟨fun j hj => ?_, fun j k hj hjk => ?_, fun fd' hfd' => ?_,
    fun fd' hfd' => h.nonneg fd' (List.mem_filter.mp hfd').1⟩
  · have hji : j ≠ i := by
      rintro rfl
      omega
    rw [hother j hji] at hj ⊢
    refine List.mem_filter.mpr ⟨h.opened j hj, decide_eq_true fun heq => ?_⟩
    exact hji (h.distinct j i hj heq)
  · have hji : j ≠ i := by
      rintro rfl
      omega
    have hki : k ≠ i := by
      rintro rfl
      omega
    rw [hother j hji] at hj
    rw [hother j hji, hother k hki] at hjk
    exact h.distinct j k hj hjk
  · obtain ⟨hmem, hne⟩ := List.mem_filter.mp hfd'
    exact List.mem_filter.mpr ⟨h.registered fd' hmem, hne⟩

theorem Covered.close (h : Covered sockets fds) (hother : ∀ j, j ≠ i → sockets' j = sockets j) :
    Covered sockets' (fds.close (sockets i)) := by
  intro fd' hfd'
  obtain ⟨hmem, hne⟩ := List.mem_filter.mp hfd'
  obtain ⟨j, rfl⟩ := h fd' hmem
  refine ⟨j, hother j ?_⟩
  rintro rfl
  exact of_decide_eq_true hne rfl

end owners

/-! ## Which channels a section initialises again -/

/-- The services of the channels, with their status. -/
def seen (chanP : MumuChanP) : List (Int × ChanStatus) :=
  chanP.channels.map fun chan => (chan.http.serviceId, chan.channelReady)

/-- Channel `i` is the one of the service, and was removed. -/
def IsBack (view : List (Int × ChanStatus)) (service : Int) (i : Nat) : Prop :=
  lastIndex (fun c => c.1 = service) view = some i ∧ (view[i]?).map Prod.snd = some .removed

theorem lastIndex_append {α : Type} (q : α → Bool) (xs : List α) {a : α} (h : q a = false) :
    lastIndex q (xs ++ [a]) = lastIndex q xs := by
  induction xs with
  | nil => simp [lastIndex, h]
  | cons b bs ih => rw [List.cons_append, lastIndex, lastIndex, ih]

theorem lastIndex_hasService (chanP : MumuChanP) (service : Nat) :
    lastIndex (hasService service) chanP.channels =
      lastIndex (fun c => c.1 = (service : Int)) (seen chanP) := by
  rw [seen, lastIndex_map]
  rfl

theorem isBack_seen {chanP : MumuChanP} {service i : Nat} : IsBack (seen chanP) service i ↔
    lastIndex (hasService service) chanP.channels = some i ∧
      (chanP.channels[i]?).map (·.channelReady) = some .removed := by
  rw [IsBack, lastIndex_hasService, seen, List.getElem?_map, Option.map_map]
  rfl

/-- Only the status may change, and not from or to `removed`. -/
theorem isBack_map {chanP : MumuChanP} {f : AutoChannel → AutoChannel}
    (hhttp : ∀ chan, (f chan).http = chan.http)
    (hremoved : ∀ chan, (f chan).channelReady = .removed ↔ chan.channelReady = .removed)
    {service : Int} {i : Nat} :
    IsBack (seen (chanP.map f)) service i ↔ IsBack (seen chanP) service i := by
  rw [IsBack, IsBack, seen, seen, MumuChanP.map, lastIndex_map, lastIndex_map, lastIndex_map]
  simp only [hhttp, List.getElem?_map, Option.map_map]
  refine and_congr_right fun _ => ?_
  cases chanP.channels[i]? with
  | none => simp
  | some chan => simpa using hremoved chan

theorem lastIndex_set {view : List (Int × ChanStatus)} {k : Nat} {c : Int × ChanStatus}
    (h : view[k]? = some c) (c' : Int × ChanStatus) (hsame : c'.1 = c.1) (service : Int) :
    lastIndex (fun c => c.1 = service) (view.set k c') =
      lastIndex (fun c => c.1 = service) view := by
  have hmap : ∀ xs : List (Int × ChanStatus), lastIndex (fun c => c.1 = service) xs =
      lastIndex (fun s => s = service) (xs.map Prod.fst) := fun xs =>
    (lastIndex_map Prod.fst (fun s => s = service) xs).symm
  rw [hmap, hmap, List.map_set]
  congr 1
  refine List.ext_getElem? fun j => ?_
  by_cases hkj : k = j
  · subst hkj
    rw [List.getElem?_set_self (by simpa using (List.getElem?_eq_some_iff.mp h).1),
      List.getElem?_map, h, hsame]
    rfl
  · rw [List.getElem?_set_ne hkj]

/-- The channel of a service is kept up in its place. -/
theorem isBack_set {view : List (Int × ChanStatus)} {k : Nat} {c : Int × ChanStatus}
    (h : view[k]? = some c) {status : ChanStatus} (hstatus : status ≠ .removed)
    (hk : lastIndex (fun c' => c'.1 = c.1) view = some k) {service : Int} {i : Nat} :
    IsBack (view.set k (c.1, status)) service i ↔ service ≠ c.1 ∧ IsBack view service i := by
  rw [IsBack, IsBack, lastIndex_set h (c.1, status) rfl]
  by_cases hik : k = i
  · subst hik
    rw [List.getElem?_set_self (List.getElem?_eq_some_iff.mp h).1, Option.map_some]
    refine iff_of_false (fun hback => hstatus (Option.some.inj hback.2)) ?_
    rintro ⟨hne, hlast, -⟩
    obtain ⟨c', hc', hservice⟩ := lastIndex_some hlast
    rw [h, Option.some.injEq] at hc'
    rw [← hc'] at hservice
    exact hne (of_decide_eq_true hservice).symm
  · rw [List.getElem?_set_ne hik]
    refine ⟨fun hback => ⟨fun heq => ?_, hback⟩, And.right⟩
    rw [heq, hk] at hback
    exact hik (Option.some.inj hback.1)

/-- A new channel is behind the others. -/
theorem isBack_append {view : List (Int × ChanStatus)} {c : Int × ChanStatus}
    (hstatus : c.2 ≠ .removed) (hnone : lastIndex (fun c' => c'.1 = c.1) view = none)
    {service : Int} {i : Nat} :
    IsBack (view ++ [c]) service i ↔ service ≠ c.1 ∧ IsBack view service i := by
  by_cases hservice : service = c.1
  · subst hservice
    refine iff_of_false ?_ (fun hback => hback.1 rfl)
    rintro ⟨hlast, hremoved⟩
    obtain ⟨c', hc', hfound⟩ := lastIndex_some hlast
    rw [hc', Option.map_some, Option.some.injEq] at hremoved
    rcases List.mem_append.mp (List.mem_of_getElem? hc') with hmem | hmem
    · rw [lastIndex_eq_none.mp hnone c' hmem] at hfound
      cases hfound
    · rw [List.mem_singleton.mp hmem] at hremoved
      exact hstatus hremoved
  · rw [IsBack, IsBack, lastIndex_append (fun c => c.1 = service) view
      (decide_eq_false (Ne.symm hservice))]
    refine ⟨fun ⟨hlast, hremoved⟩ => ⟨hservice, hlast, ?_⟩, fun ⟨_, hlast, hremoved⟩ => ⟨hlast, ?_⟩⟩
    all_goals
      obtain ⟨c', hc', -⟩ := lastIndex_some hlast
      have hlt := (List.getElem?_eq_some_iff.mp hc').1
      rw [List.getElem?_append_left hlt] at *
      exact hremoved

/-- A program takes its own service out of those that are back, and no other. -/
theorem isBack_updated {chanP chanP' : MumuChanP} {prog : List UInt8}
    (h : autoconfPatUpdateChan chanP prog = .ok chanP') {service : Int} {i : Nat} :
    IsBack (seen chanP') service i ↔
      service ≠ programNumber prog ∧ IsBack (seen chanP) service i := by
  have hkept : ∀ status, keptUp status ≠ .removed := fun status => by cases status <;> decide
  rw [autoconfPatUpdateChan] at h
  split at h
  case h_1 k hfound =>
    obtain ⟨chan, hhere, hservice⟩ := lastIndex_some hfound
    rw [MumuChanP.modify, hhere] at h
    obtain ⟨chan', hupdate, h⟩ := bind_eq_ok.mp h
    cases h
    obtain ⟨pmtPid, hserver⟩ := updateProgram_server hupdate
    have hhttp : chan'.http.serviceId = chan.http.serviceId := by rw [hserver]
    have hready : chan'.channelReady = keptUp chan.channelReady := by rw [hserver]
    have hseen : (seen chanP)[k]? = some ((programNumber prog : Int), chan.channelReady) := by
      rw [seen, List.getElem?_map, hhere, ← of_decide_eq_true hservice]
      rfl
    rw [lastIndex_hasService] at hfound
    rw [← isBack_set hseen (hkept chan.channelReady) hfound, seen, MumuChanP.set, List.map_set,
      hhttp, hready, of_decide_eq_true hservice]
    rfl
  case h_2 hnone =>
    rw [lastIndex_hasService] at hnone
    split at h
    case isTrue hroom =>
      obtain ⟨chan, hnew, h⟩ := bind_eq_ok.mp h
      obtain ⟨chan', hupdate, h⟩ := bind_eq_ok.mp h
      cases h
      obtain ⟨pmtPid, hserver⟩ := updateProgram_server hupdate
      have hseen : (chan'.http.serviceId, chan'.channelReady) =
          ((programNumber prog : Int), keptUp .notReady) := by
        rw [hserver, newChannel_server hnew]
      rw [← isBack_append (c := ((programNumber prog : Int), keptUp .notReady)) (hkept .notReady)
        hnone, seen, List.map_append, List.map_singleton, hseen]
      rfl
    case isFalse =>
      cases h
      refine ⟨fun hback => ⟨?_, hback⟩, And.right⟩
      rintro rfl
      rw [IsBack, hnone] at hback
      cases hback.1

theorem socketAt_modify (camd : List CamdChannel) (f : CamdChannel → CamdChannel)
    (hf : ∀ chan, (f chan).camdSocket = -1) (k i : Nat) :
    socketAt (camd.modify k f) i = if i = k then -1 else socketAt camd i := by
  rw [socketAt, socketAt, List.getElem?_modify]
  by_cases hik : i = k
  · subst hik
    rw [if_pos rfl]
    cases camd[i]? with
    | none => rfl
    | some chan => simp [hf]
  · rw [if_neg hik]
    cases camd[i]? with
    | none => rfl
    | some chan => simp [Ne.symm hik]

theorem socketAt_append (camd : List CamdChannel) {chan : CamdChannel}
    (h : chan.camdSocket = -1) (i : Nat) : socketAt (camd ++ [chan]) i = socketAt camd i := by
  rw [socketAt, socketAt]
  by_cases hi : i < camd.length
  · rw [List.getElem?_append_left hi]
  · rw [List.getElem?_append_right (by omega), List.getElem?_eq_none (Nat.le_of_not_lt hi)]
    cases hd : i - camd.length with
    | zero => simp [h]
    | succ d => rfl

theorem socketAt_set {camd : List CamdChannel} {k : Nat} (hk : k < camd.length)
    (chan : CamdChannel) (i : Nat) :
    socketAt (camd.set k chan) i = if i = k then chan.camdSocket else socketAt camd i := by
  rw [socketAt, socketAt]
  by_cases hik : i = k
  · subst hik
    rw [if_pos rfl, List.getElem?_set_self hk]
    rfl
  · rw [if_neg hik, List.getElem?_set_ne (Ne.symm hik)]

/-- A program makes the channel that is back forget its socket. -/
theorem socketAt_camdProgram (chanP : MumuChanP) (camd : List CamdChannel) (prog : List UInt8)
    (i : Nat) [Decidable (IsBack (seen chanP) (programNumber prog) i)] :
    socketAt (camdProgram chanP camd prog) i =
      if IsBack (seen chanP) (programNumber prog) i then -1 else socketAt camd i := by
  rw [camdProgram]
  cases hfound : lastIndex (hasService (programNumber prog)) chanP.channels with
  | none =>
    have hback : ¬ IsBack (seen chanP) (programNumber prog) i := by
      rw [isBack_seen, hfound]
      rintro ⟨h, -⟩
      cases h
    rw [if_neg hback]
    simp only
    split
    · exact socketAt_append camd rfl i
    · rfl
  | some k =>
    simp only
    split
    case isTrue hremoved =>
      rw [socketAt_modify camd initCamd (fun _ => rfl)]
      by_cases hik : i = k
      · subst hik
        rw [if_pos rfl, if_pos (isBack_seen.mpr ⟨hfound, hremoved⟩)]
      · rw [if_neg hik, if_neg]
        rw [isBack_seen, hfound, Option.some.injEq]
        exact fun hback => hik hback.1.symm
    case isFalse hremoved =>
      rw [if_neg]
      rw [isBack_seen, hfound, Option.some.injEq]
      rintro ⟨rfl, hback⟩
      exact hremoved hback

/-- The programs of a section make the channels of the services that are back forget their
sockets, and no other. -/
theorem socketAt_programs {progs : List (List UInt8)} {chans chans' : Channels}
    (h : progs.foldlM updateChan chans = .ok chans') (i : Nat) :
    ((∃ prog ∈ progs, IsBack (seen chans.chanP) (programNumber prog) i) →
      socketAt chans'.camd i = -1) ∧
    ((¬ ∃ prog ∈ progs, IsBack (seen chans.chanP) (programNumber prog) i) →
      socketAt chans'.camd i = socketAt chans.camd i) := by
  classical
  induction progs generalizing chans with
  | nil =>
    cases h
    simp
  | cons prog progs ih =>
    rw [List.foldlM_cons] at h
    obtain ⟨chans₁, hupdate, h⟩ := bind_eq_ok.mp h
    obtain ⟨chanP₁, hchan, hupdate⟩ := bind_eq_ok.mp hupdate
    cases hupdate
    obtain ⟨hreset, hkept⟩ := ih h
    have hfirst := socketAt_camdProgram chans.chanP chans.camd prog i
    simp only [isBack_updated hchan] at hreset hkept
    by_cases hnow : IsBack (seen chans.chanP) (programNumber prog) i
    · rw [if_pos hnow] at hfirst
      refine ⟨fun _ => ?_, fun hnot => absurd ⟨prog, List.mem_cons_self, hnow⟩ hnot⟩
      by_cases hlater : ∃ p ∈ progs, (programNumber p : Int) ≠ programNumber prog ∧
          IsBack (seen chans.chanP) (programNumber p) i
      · exact hreset hlater
      · rw [hkept hlater, hfirst]
    · rw [if_neg hnow] at hfirst
      have hsame : (∃ p ∈ progs, (programNumber p : Int) ≠ programNumber prog ∧
          IsBack (seen chans.chanP) (programNumber p) i) ↔
          ∃ p ∈ prog :: progs, IsBack (seen chans.chanP) (programNumber p) i := by
        constructor
        · rintro ⟨p, hp, -, hback⟩
          exact ⟨p, List.mem_cons_of_mem _ hp, hback⟩
        · rintro ⟨p, hp, hback⟩
          rcases List.mem_cons.mp hp with rfl | hp
          · exact absurd hback hnow
          · exact ⟨p, hp, fun heq => hnow (heq ▸ hback), hback⟩
      rw [hsame] at hreset hkept
      exact ⟨hreset, fun hnot => (hkept hnot).trans hfirst⟩

theorem updateChan_table {chans chans' : Channels} {progs : List (List UInt8)}
    (h : progs.foldlM updateChan chans = .ok chans') :
    progs.foldlM autoconfPatUpdateChan chans.chanP = .ok chans'.chanP := by
  induction progs generalizing chans with
  | nil =>
    cases h
    rfl
  | cons prog progs ih =>
    rw [List.foldlM_cons] at h
    obtain ⟨chans₁, hupdate, h⟩ := bind_eq_ok.mp h
    obtain ⟨chanP₁, hchan, hupdate⟩ := bind_eq_ok.mp hupdate
    cases hupdate
    rw [List.foldlM_cons, hchan]
    exact ih h

/-- The marks at the head of a section are not for removed channels. -/
theorem isBack_startSection (s : AutoP) (chanP : MumuChanP) (pat : List UInt8) (noted : Tracker)
    {service : Int} {i : Nat} :
    IsBack (seen (startSection s chanP pat noted).2) service i ↔
      IsBack (seen chanP) service i := by
  rw [startSection]
  split
  · rfl
  · refine isBack_map markExisting_http fun chan => ?_
    rw [markExisting]
    split
    case isTrue hready => simp [hready.1]
    case isFalse => rfl

/-- The services of the section whose channel `i` is back. -/
def BackIn (s : AutoP) (chanP : MumuChanP) (i : Nat) : Prop :=
  ¬ s.pat.Skips s.pat.temp.dataFull.cells ∧
    currentNextIndicator s.pat.temp.dataFull.cells ≠ 0 ∧
    ∃ prog ∈ patPrograms s.pat.temp.dataFull.cells, IsBack (seen chanP) (programNumber prog) i

/-- What a section of the PAT does to the sockets. -/
theorem readPat_sockets {s s' : AutoP} {chans chans' : Channels}
    (h : readPat s chans = .ok (s', chans')) (i : Nat) :
    (BackIn s chans.chanP i → socketAt chans'.camd i = -1) ∧
      (¬ BackIn s chans.chanP i → socketAt chans'.camd i = socketAt chans.camd i) := by
  rw [readPat] at h
  rcases Tracker.read_cases h with ⟨hskip, hsame⟩ | ⟨hskip, noted, hstored, -, h⟩
  · cases hsame
    exact ⟨fun hback => absurd hskip hback.1, fun _ => rfl⟩
  · dsimp only at h
    split at h
    case isTrue hnext =>
      cases h
      exact ⟨fun hback => absurd hnext hback.2.1, fun _ => rfl⟩
    case isFalse hcurrent =>
      obtain ⟨chans₁, hprograms, h⟩ := bind_eq_ok.mp h
      obtain rfl : _ = chans' := congrArg Prod.snd (Except.ok.inj h)
      obtain ⟨hreset, hkept⟩ := socketAt_programs hprograms i
      simp only [isBack_startSection] at hreset hkept
      exact ⟨fun hback => hreset hback.2.2, fun hnot => hkept fun hback =>
        hnot ⟨hskip, hcurrent, hback⟩⟩

/-- Seen on the table of channels it is `autoconf_read_pat`. -/
theorem readPat_table {s s' : AutoP} {chans chans' : Channels}
    (h : readPat s chans = .ok (s', chans')) :
    autoconfReadPat s chans.chanP = .ok (s', chans'.chanP) := by
  rw [readPat] at h
  rw [autoconfReadPat]
  obtain ⟨seen, hseen, h⟩ := bind_eq_ok.mp h
  rw [hseen, bind_ok]
  split at h
  case isTrue hskip =>
    cases h
    rw [if_pos hskip]
    rfl
  case isFalse hskip =>
    rw [if_neg hskip]
    obtain ⟨noted, hnoted, h⟩ := bind_eq_ok.mp h
    rw [hnoted, bind_ok]
    dsimp only at h ⊢
    split at h
    case isTrue hnext =>
      cases h
      rw [if_pos hnext]
      rfl
    case isFalse hcurrent =>
      rw [if_neg hcurrent]
      obtain ⟨chans₁, hprograms, h⟩ := bind_eq_ok.mp h
      rw [updateChan_table hprograms, bind_ok]
      cases h
      rfl

/-! ## What a call of scam_send_capmt does -/

/-- The call opens a connection that stays: there is no key, and the system gives all. -/
def Establishes (params : ScamParameters) (answers : Answers) (serviceId : Int)
    (chan : CamdChannel) : Prop :=
  Connects answers chan ∧ staticKey params serviceId = .ok none

/-- How a call ends that does not leave a new connection: the socket stays; a new one is open but
not registered; the connection is closed; there is none. -/
inductive Sent (answers : Answers) (chan : CamdChannel) (fds : Descriptors) (chan' : CamdChannel) :
    Descriptors → Prop where
  | kept (same : chan'.camdSocket = chan.camdSocket) : Sent answers chan fds chan' fds
  | opened (none : chan.camdSocket < 0) (new : answers.socket = some chan'.camdSocket) :
      Sent answers chan fds chan' { fds with opened := chan'.camdSocket :: fds.opened }
  | closed (some : 0 ≤ chan.camdSocket) (gone : chan'.camdSocket = -1) :
      Sent answers chan fds chan' (fds.close chan.camdSocket)
  | failed (none : chan.camdSocket < 0) (gone : chan'.camdSocket = -1) :
      Sent answers chan fds chan' fds

theorem filter_ne {xs : List Int} {fd : Int} (h : fd ∉ xs) : xs.filter (· ≠ fd) = xs := by
  refine List.filter_eq_self.mpr fun a ha => decide_eq_true ?_
  rintro rfl
  exact h ha

/-- To open a descriptor and close it again changes nothing. -/
theorem close_opened {sockets : Nat → Int} {fds : Descriptors} {answers : Answers}
    (howned : Owned sockets fds) (hfit : answers.Fit fds) :
    Descriptors.close { fds with opened := answers.socket.toList ++ fds.opened }
      (answers.socket.getD (-1)) = fds := by
  have hnew : answers.socket.getD (-1) ∉ fds.opened := by
    cases hsocket : answers.socket with
    | none =>
      intro hmem
      exact absurd (howned.nonneg _ hmem) (by decide)
    | some fd => exact (hfit.new hsocket).2
  have hregistered := filter_ne fun hmem => hnew (howned.registered _ hmem)
  cases hsocket : answers.socket with
  | none =>
    rw [hsocket] at hnew hregistered
    rw [Descriptors.close, Option.toList_none, List.nil_append]
    simp only
    rw [filter_ne hnew, hregistered]
  | some fd =>
    rw [hsocket] at hnew hregistered
    rw [Descriptors.close, Option.toList_some, List.singleton_append]
    simp only [Option.getD_some] at hnew hregistered ⊢
    rw [hregistered, List.filter_cons_of_neg (by simp), filter_ne hnew]

/-- How far the opening of a connection comes. -/
theorem openSocket_cases {answers : Answers} {chan chan' : CamdChannel} {fds fds' : Descriptors}
    {ready : Bool} {sockets : Nat → Int} (howned : Owned sockets fds) (hfit : answers.Fit fds)
    (h : openSocket answers chan fds = (ready, chan', fds')) :
    (ready = false ∧ ¬ Connects answers chan ∧ chan'.camdSocket = -1 ∧ fds' = fds) ∨
    (ready = false ∧ ¬ Connects answers chan ∧ answers.socket = some chan'.camdSocket ∧
      fds' = { fds with opened := chan'.camdSocket :: fds.opened }) ∨
    (ready = true ∧ (chan.camdSocket < 0 → answers.wrote = true → Connects answers chan) ∧
      answers.socket = some chan'.camdSocket ∧
      fds' = ⟨chan'.camdSocket :: fds.opened, chan'.camdSocket :: fds.registered⟩) := by
  rw [openSocket] at h
  by_cases hconnect : answers.connect = false
  · rw [if_pos hconnect, close_opened howned hfit] at h
    cases h
    exact .inl ⟨rfl, fun hall => by simp [hall.2.1] at hconnect, rfl, rfl⟩
  · rw [if_neg hconnect] at h
    cases hsocket : answers.socket with
    | none => exact absurd (hfit.2 hsocket) hconnect
    | some fd =>
      rw [hsocket] at h
      simp only [Option.getD_some, Option.toList_some, List.singleton_append] at h
      right
      split at h
      case isTrue hget =>
        cases h
        exact .inl ⟨rfl, fun hall => by simp [hall.2.2.1] at hget, rfl, rfl⟩
      case isFalse hget =>
        split at h
        case isTrue hset =>
          cases h
          exact .inl ⟨rfl, fun hall => by simp [hall.2.2.2.1] at hset, rfl, rfl⟩
        case isFalse hset =>
          split at h
          case isTrue hadd =>
            cases h
            exact .inl ⟨rfl, fun hall => by simp [hall.2.2.2.2.1] at hadd, rfl, rfl⟩
          case isFalse hadd =>
            cases h
            simp only [Bool.not_eq_false] at hconnect hget hset hadd
            exact .inr ⟨rfl, fun hnone hwrote => ⟨hnone, hconnect, hget, hset, hadd, hwrote⟩, rfl,
              rfl⟩

/-- What a call leaves: a new connection if it establishes one, and else what `Sent` says. -/
theorem scamSendCapmt_cases {params : ScamParameters} {answers : Answers}
    {caPidIndex serviceId : Int} {chan chan' : CamdChannel} {fds fds' : Descriptors}
    {sockets : Nat → Int} (howned : Owned sockets fds) (hfit : answers.Fit fds)
    (hcall : scamSendCapmt params answers caPidIndex serviceId chan fds = .ok (chan', fds')) :
    (Establishes params answers serviceId chan ∧ answers.socket = some chan'.camdSocket ∧
      fds' = ⟨chan'.camdSocket :: fds.opened, chan'.camdSocket :: fds.registered⟩) ∨
    (¬ Establishes params answers serviceId chan ∧ Sent answers chan fds chan' fds') := by
  obtain ⟨key, hkey, h⟩ := bind_eq_ok.mp hcall
  clear hcall
  cases key with
  | some key =>
    cases h
    refine .inr ⟨fun hest => ?_, .kept rfl⟩
    rw [Establishes, hkey] at hest
    cases hest.2
  | none =>
    simp only at h
    by_cases hsocket : chan.camdSocket < 0
    · rw [if_pos hsocket] at h
      rcases hopen : openSocket answers chan fds with ⟨ready, chan₁, fds₁⟩
      rw [hopen] at h
      simp only at h
      rcases openSocket_cases howned hfit hopen with
        ⟨rfl, hnot, hgone, rfl⟩ | ⟨rfl, hnot, hnew, rfl⟩ | ⟨rfl, hall, hnew, rfl⟩
      · cases h
        exact .inr ⟨fun hest => hnot hest.1, .failed hsocket hgone⟩
      · cases h
        exact .inr ⟨fun hest => hnot hest.1, .opened hsocket hnew⟩
      · simp only [Bool.true_eq_false, if_false] at h
        split at h
        case isTrue hwrote =>
          cases h
          have hfresh := (hfit.new hnew).2
          have hregistered := filter_ne fun hmem => hfresh (howned.registered _ hmem)
          rw [Descriptors.close]
          simp only
          rw [List.filter_cons_of_neg (by simp), List.filter_cons_of_neg (by simp),
            filter_ne hfresh, hregistered]
          refine .inr ⟨fun hest => ?_, .failed hsocket rfl⟩
          simp [hest.1.2.2.2.2.2] at hwrote
        case isFalse hwrote =>
          cases h
          exact .inl ⟨⟨hall hsocket (by simpa using hwrote), hkey⟩, hnew, rfl⟩
    · rw [if_neg hsocket] at h
      simp only [Bool.true_eq_false, if_false] at h
      refine .inr ⟨fun hest => hsocket hest.1.1, ?_⟩
      split at h
      case isTrue =>
        cases h
        exact .closed (by omega) rfl
      case isFalse =>
        cases h
        exact .kept rfl

/-! ## Runs -/

variable {params : ScamParameters} {env : Surroundings} {s s' : State}

abbrev State.sockets (s : State) : Nat → Int := socketAt s.camd

theorem exists_socket {camd : List CamdChannel} {j : Nat} {fd : Int} (hpos : 0 ≤ fd) :
    (∃ chan, camd[j]? = some chan ∧ chan.camdSocket = fd) ↔ socketAt camd j = fd := by
  rw [socketAt]
  cases camd[j]? with
  | none =>
    refine iff_of_false ?_ ?_
    · rintro ⟨chan, hchan, -⟩
      cases hchan
    · rw [Option.map_none, Option.getD_none]
      omega
  | some chan => simp

/-- The loop of the getcw thread finds the owner of a descriptor. -/
theorem handler_eq {fds : Descriptors} (howned : Owned (socketAt s.camd) fds)
    (hkeys : params.constKeyCount = 0) {i : Nat} {fd : Int} (hpos : 0 ≤ fd)
    (hi : socketAt s.camd i = fd) : handler params s.camd fd = some i := by
  rw [handler, if_neg (by omega), List.findIdx?_eq_some_iff_getElem]
  obtain ⟨chan, hchan, hsocket⟩ := (exists_socket hpos).mpr hi
  obtain ⟨hlt, hget⟩ := List.getElem?_eq_some_iff.mp hchan
  refine ⟨hlt, decide_eq_true (by rw [hget, hsocket]), fun j hji hj => ?_⟩
  have hjlt : j < s.camd.length := by omega
  have hother : socketAt s.camd j = fd :=
    (exists_socket hpos).mp ⟨s.camd[j], List.getElem?_eq_getElem hjlt, of_decide_eq_true hj⟩
  have hsame := howned.distinct j i (by omega) (hother.trans hi.symm)
  omega

/-- Seen from the owners: all is covered, and there are no constant keys unless nothing is
registered. -/
theorem connected_iff (howned : Owned s.sockets s.fds) : Connected params s ↔
    Covered s.sockets s.fds ∧ (s.fds.registered = [] ∨ params.constKeyCount = 0) := by
  constructor
  · intro hconnected
    constructor
    · intro fd hfd
      obtain ⟨i, hi, -⟩ := hconnected fd hfd
      have hpos := howned.nonneg _ (howned.registered _ hfd)
      exact ⟨i, (exists_socket hpos).mp ((hi i).mpr rfl)⟩
    · by_contra hnot
      rw [not_or] at hnot
      obtain ⟨fd, hfd⟩ := List.exists_mem_of_ne_nil _ hnot.1
      obtain ⟨i, -, hhandler⟩ := hconnected fd hfd
      rw [handler, if_pos (by omega)] at hhandler
      cases hhandler
  · rintro ⟨hcovered, hkeys⟩ fd hfd
    have hpos := howned.nonneg _ (howned.registered _ hfd)
    obtain ⟨i, hi⟩ := hcovered fd hfd
    have hnone : params.constKeyCount = 0 := hkeys.resolve_left (List.ne_nil_of_mem hfd)
    refine ⟨i, fun j => ?_, handler_eq howned hnone hpos hi⟩
    rw [exists_socket hpos]
    constructor
    · intro hj
      exact howned.distinct j i (hpos.trans_eq hj.symm) (hj.trans hi.symm)
    · rintro rfl
      exact hi

theorem comesBack_iff {e : AcceptedSection} {i : Nat} :
    ComesBack s e i ↔ BackIn (receive s.table.autoP e) s.table.chanP i := by
  simp only [ComesBack, BackIn, isBack_seen]
  rfl

/-- What a step keeps of the owners, whatever the condition. -/
def Keeps (params : ScamParameters) (s : State) (e : Event) (s' : State) : Prop :=
  Owned s.sockets s.fds → Owned s'.sockets s'.fds ∧
    (Connected params s → (Connected params s' ↔ KeepsSockets params s e))

theorem keeps_pat {e : AcceptedSection} {autoP : AutoP} {chans : Channels}
    (h : readPat (receive s.table.autoP e) ⟨s.table.chanP, s.camd⟩ = .ok (autoP, chans))
    (table : RemovedServices.State) :
    Keeps params s (.table (.pat e)) { s with table, camd := chans.camd } := by
  intro howned
  have hreset : ∀ i, ComesBack s e i → socketAt chans.camd i = -1 := fun i hi =>
    (readPat_sockets h i).1 (comesBack_iff.mp hi)
  have hkept : ∀ i, ¬ ComesBack s e i → socketAt chans.camd i = s.sockets i := fun i hi =>
    (readPat_sockets h i).2 fun hback => hi (comesBack_iff.mpr hback)
  have howned' := howned.forget hreset hkept
  refine ⟨howned', fun hconnected => ?_⟩
  obtain ⟨hcovered, hkeys⟩ := (connected_iff howned).mp hconnected
  rw [connected_iff howned', and_iff_left hkeys]
  refine (howned.covered_forget hcovered hreset hkept).trans (forall_congr' fun i => ?_)
  constructor
  · intro hnone chan hback hchan hmem
    refine hnone hback ?_
    have hpos := howned.nonneg _ (howned.registered _ hmem)
    rw [← (exists_socket hpos).mp ⟨chan, hchan, rfl⟩] at hmem
    exact hmem
  · intro hnone hback hmem
    obtain ⟨chan, hchan, hsocket⟩ :=
      (exists_socket (howned.nonneg _ (howned.registered _ hmem))).mpr rfl
    exact hnone chan hback hchan (hsocket ▸ hmem)

theorem keeps_capmt {i : Nat} {answers : Answers} {caPidIndex : Int} {auto : AutoChannel}
    {chan chan' : CamdChannel} {fds : Descriptors}
    (hservice : s.table.chanP.channels[i]? = some auto) (hhere : s.camd[i]? = some chan)
    (hfit : answers.Fit s.fds)
    (hcall : scamSendCapmt params answers caPidIndex auto.http.serviceId chan s.fds =
      .ok (chan', fds)) :
    Keeps params s (.capmt i answers caPidIndex) { s with
      camd := s.camd.set i chan'
      fds } := by
  intro howned
  have hsocket : s.sockets i = chan.camdSocket := by
    rw [State.sockets, socketAt, hhere]
    rfl
  have hlt := (List.getElem?_eq_some_iff.mp hhere).1
  have hi : socketAt (s.camd.set i chan') i = chan'.camdSocket := by
    rw [socketAt_set hlt, if_pos rfl]
  have hother : ∀ j, j ≠ i → socketAt (s.camd.set i chan') j = s.sockets j := fun j hj => by
    rw [socketAt_set hlt, if_neg hj]
  have hcond : KeepsSockets params s (.capmt i answers caPidIndex) ↔
      (0 < params.constKeyCount → ¬ Establishes params answers auto.http.serviceId chan) := by
    constructor
    · exact fun h hkeys hest => h auto chan hservice hhere hkeys hest.1 hest.2
    · rintro h auto' chan'' hauto hchan hkeys hconnects hkey
      rw [hservice, Option.some.injEq] at hauto
      rw [hhere, Option.some.injEq] at hchan
      subst hauto hchan
      exact h hkeys ⟨hconnects, hkey⟩
  rw [hcond]
  rcases scamSendCapmt_cases howned hfit hcall with ⟨hest, hnew, rfl⟩ | ⟨hnot, hsent⟩
  · obtain ⟨hpos, hfresh⟩ := hfit.new hnew
    have hopened := howned.open hpos hfresh hi hother
    have howned' := hopened.register hi hpos
    refine ⟨howned', fun hconnected => ?_⟩
    obtain ⟨hcovered, -⟩ := (connected_iff howned).mp hconnected
    have hcovered' := (hcovered.open howned (hsocket ▸ hest.1.1) hother
      (chan'.camdSocket :: s.fds.opened)).register hi
    rw [connected_iff howned', and_iff_right hcovered']
    simp only [reduceCtorEq, false_or]
    constructor
    · exact fun hkeys hsome => absurd hsome (by omega)
    · intro h
      by_contra hkeys
      exact h (by omega) hest
  · -- nothing new is registered, and what stays registered keeps its owner
    suffices hall : Owned (socketAt (s.camd.set i chan')) fds ∧
        (Covered s.sockets s.fds → Covered (socketAt (s.camd.set i chan')) fds) ∧
        fds.registered ⊆ s.fds.registered by
      obtain ⟨howned', hcovers, hsubset⟩ := hall
      refine ⟨howned', fun hconnected => iff_of_true ?_ fun _ => hnot⟩
      obtain ⟨hcovered, hkeys⟩ := (connected_iff howned).mp hconnected
      refine (connected_iff howned').mpr ⟨hcovers hcovered, hkeys.imp_left fun hnil => ?_⟩
      exact List.subset_nil.mp (hnil ▸ hsubset)
    cases hsent with
    | kept same =>
      have hsame : socketAt (s.camd.set i chan') = s.sockets := by
        funext j
        by_cases hj : j = i
        · rw [hj, hi, same, hsocket]
        · exact hother j hj
      rw [hsame]
      exact ⟨howned, id, fun _ h => h⟩
    | opened none new =>
      obtain ⟨hpos, hfresh⟩ := hfit.new new
      exact ⟨howned.open hpos hfresh hi hother, fun hcovered =>
        hcovered.open howned (hsocket ▸ none) hother _, fun _ h => h⟩
    | closed some gone =>
      rw [← hsocket]
      exact ⟨howned.close (hi.trans gone) hother, fun hcovered => hcovered.close hother,
        fun _ h => (List.mem_filter.mp h).1⟩
    | failed none gone =>
      have hR : ∀ j, j = i → socketAt (s.camd.set i chan') j = -1 := fun j hj => by
        rw [hj, hi, gone]
      refine ⟨howned.forget hR hother, fun hcovered => ?_, fun _ h => h⟩
      refine (howned.covered_forget hcovered hR hother).mpr fun j hj hmem => ?_
      have hpos := howned.nonneg _ (howned.registered _ hmem)
      rw [hj, hsocket] at hpos
      omega

theorem keeps_hangUp (fd : Int) : Keeps params s (.hangUp fd) (hangUp params s fd) := by
  intro howned
  rw [hangUp]
  cases hhandler : handler params s.camd fd with
  | none => exact ⟨howned, fun hconnected => iff_of_true hconnected trivial⟩
  | some i =>
    dsimp only
    split
    case isFalse => exact ⟨howned, fun hconnected => iff_of_true hconnected trivial⟩
    case isTrue hmem =>
      have hsocket : s.sockets i = fd := by
        rw [handler] at hhandler
        split at hhandler
        · cases hhandler
        · obtain ⟨hlt, hfound, -⟩ := List.findIdx?_eq_some_iff_getElem.mp hhandler
          rw [State.sockets, socketAt, List.getElem?_eq_getElem hlt]
          exact of_decide_eq_true hfound
      have hi : socketAt (s.camd.modify i hungUp) i = -1 := by
        rw [socketAt_modify _ _ (fun _ => rfl), if_pos rfl]
      have hother : ∀ j, j ≠ i → socketAt (s.camd.modify i hungUp) j = s.sockets j :=
        fun j hj => by rw [socketAt_modify _ _ (fun _ => rfl), if_neg hj]
      rw [← hsocket]
      have howned' := howned.close hi hother
      refine ⟨howned', fun hconnected => iff_of_true ?_ trivial⟩
      obtain ⟨hcovered, hkeys⟩ := (connected_iff howned).mp hconnected
      refine (connected_iff howned').mpr ⟨hcovered.close hother, hkeys.imp_left fun hnil => ?_⟩
      rw [Descriptors.close, hnil]
      rfl

theorem step_keeps {e : Event} (h : Step params env s e s') : Keeps params s e s' := by
  cases h with
  | pat call => exact keeps_pat call _
  | table other step =>
    intro howned
    refine ⟨howned, fun hconnected => iff_of_true hconnected ?_⟩
    rename_i e t
    cases e with
    | pat section_ => exact absurd rfl (other section_)
    | sdt => trivial
    | status => trivial
    | net => trivial
  | capmt service here fit call => exact keeps_capmt service here fit call
  | hangUp => exact keeps_hangUp _

/-- In every run the descriptors have owners. -/
theorem owned_run {past : List Event} (hrun : Run (system params env) past s) :
    Owned s.sockets s.fds := by
  refine hrun.invariant (P := fun _ s => Owned s.sockets s.fds) ?_ ?_
  · rintro s ⟨-, -, hnone, hfds, -⟩
    have hsocket : ∀ i, s.sockets i = -1 := by
      intro i
      rw [State.sockets, socketAt]
      cases hi : s.camd[i]? with
      | none => rfl
      | some chan => exact hnone chan (List.mem_of_getElem? hi)
    rw [hfds]
    refine ⟨fun i hi => ?_, fun i j hi => ?_, (fun fd h => by cases h), (fun fd h => by cases h)⟩
    all_goals
      rw [hsocket i] at hi
      omega
  · intro past s e s' howned hstep
    exact (step_keeps hstep howned).1

/-- Along a run every registered descriptor has its channel, and that channel its events, if and
only if no service comes back whose channel has a registered socket and no connection is opened
where there are constant keys. -/
theorem connected_run_iff (params : ScamParameters) (env : Surroundings) (past : List Event)
    (s : State) : Run ((system params env).restrict (KeepsSockets params)) past s ↔
      Along (system params env) (fun _ s => Connected params s) past s := by
  refine along_iff ?_ ?_ past s
  · rintro s ⟨-, -, -, hfds, -⟩ fd hfd
    rw [hfds] at hfd
    cases hfd
  · intro past s e s' hrun hconnected hstep
    exact (step_keeps hstep (owned_run hrun)).2 hconnected

/-- What the program does at an event. -/
def handle (params : ScamParameters) (s : State) : Event → Checked State
  | .table (.pat e) => do
    let (autoP, chans) ← readPat (receive s.table.autoP e) ⟨s.table.chanP, s.camd⟩
    return { s with
      table := ⟨autoP, chans.chanP, RemovedServices.listedAfter s.table e⟩
      camd := chans.camd }
  | .table e => do
    let table ← RemovedServices.handle s.table e
    return { s with table }
  | .capmt i answers caPidIndex =>
    match s.table.chanP.channels[i]?, s.camd[i]? with
    | some auto, some chan =>
      if answers.Fit s.fds then do
        let (chan, fds) ← scamSendCapmt params answers caPidIndex auto.http.serviceId chan s.fds
        return { s with
          camd := s.camd.set i chan
          fds }
      else .error .outOfBounds
    | _, _ => .error .outOfBounds
  | .hangUp fd => if s.ended then .error .outOfBounds else .ok (hangUp params s fd)

theorem step_handle {e : Event} (h : handle params s e = .ok s') :
    (system params TableReads.plain).Step s e s' := by
  have htable : ∀ e : RemovedServices.Event, (∀ section_, e ≠ .pat section_) →
      (do
        let table ← RemovedServices.handle s.table e
        return { s with table } : Checked State) = .ok s' →
      (system params TableReads.plain).Step s (.table e) s' := by
    intro e hother h
    obtain ⟨table, hcall, h⟩ := bind_eq_ok.mp h
    cases h
    exact .table hother (RemovedServices.step_handle hcall)
  cases e with
  | table e =>
    cases e with
    | pat e =>
      obtain ⟨⟨autoP, chans⟩, hcall, h⟩ := bind_eq_ok.mp h
      cases h
      exact .pat hcall
    | sdt e => exact htable _ (fun _ h => by cases h) h
    | status => exact htable _ (fun _ h => by cases h) h
    | net net vars => exact htable _ (fun _ h => by cases h) h
  | capmt i answers caPidIndex =>
    rw [handle] at h
    split at h
    case h_1 auto chan hservice hhere =>
      split at h
      case isTrue hfit =>
        obtain ⟨⟨chan', fds⟩, hcall, h⟩ := bind_eq_ok.mp h
        cases h
        exact .capmt hservice hhere hfit hcall
      case isFalse => cases h
    case h_2 => cases h
  | hangUp fd =>
    rw [handle] at h
    split at h
    · cases h
    · next hrunning =>
      cases h
      exact .hangUp (by simpa using hrunning)

/-- No constant keys. -/
def noKeys : ScamParameters := ⟨Buffer.fill _ ⟨0, [], []⟩, 0⟩

def noVars : UnicastClients.UnicastVars := ⟨⟨[]⟩, ⟨[]⟩, none, 0, 0, [], [], 0, []⟩

/-- Version 3 has service 1 again. -/
def thirdPat : List UInt8 := TableReads.onePat 0xc7 [0x4f, 0xcb, 0x33, 0xac]

/-- The sections that are received. -/
def accepted (bytes : List UInt8) (h : bytes.length ≤ maxTsSize)
    (haccepted : TsAssembler.Accepted ((CatCollection.handedOut bytes h).dataFull.cells.take
      (CatCollection.handedOut bytes h).lenFull)) : AcceptedSection :=
  ⟨CatCollection.handedOut bytes h, haccepted⟩

theorem length_firstSdt : RemovedServices.firstSdt.length ≤ maxTsSize := by decide

theorem firstSdt_accepted : TsAssembler.Accepted
    ((CatCollection.handedOut RemovedServices.firstSdt length_firstSdt).dataFull.cells.take
      (CatCollection.handedOut RemovedServices.firstSdt length_firstSdt).lenFull) := by
  decide +kernel

theorem length_secondPat : RemovedServices.secondPat.length ≤ maxTsSize := by decide

theorem secondPat_accepted : TsAssembler.Accepted
    ((CatCollection.handedOut RemovedServices.secondPat length_secondPat).dataFull.cells.take
      (CatCollection.handedOut RemovedServices.secondPat length_secondPat).lenFull) := by
  decide +kernel

theorem length_thirdPat : thirdPat.length ≤ maxTsSize := by decide

theorem thirdPat_accepted : TsAssembler.Accepted
    ((CatCollection.handedOut thirdPat length_thirdPat).dataFull.cells.take
      (CatCollection.handedOut thirdPat length_thirdPat).lenFull) := by
  decide +kernel

/-- Service 1 gets a connection with descriptor 5, leaves the table and comes back. -/
def comingBack : List Event :=
  [.table (.pat (accepted _ _ RemovedServices.currentPat_accepted)),
    .table (.sdt (accepted _ _ firstSdt_accepted)),
    .table .status,
    .table (.net ⟨false, none, fun _ => 0⟩ noVars),
    .capmt 0 ⟨some 5, true, true, true, true, true⟩ 0,
    .table (.pat (accepted _ _ secondPat_accepted)),
    .table (.pat (accepted _ _ thirdPat_accepted))]

/-- Its descriptor is registered, and is no channel's socket. -/
theorem not_connected_comingBack : ¬ ∀ past s, Run (system noKeys TableReads.plain) past s →
    Connected noKeys s := by
  have h : (comingBack.foldlM (handle noKeys)
      ⟨⟨TableReads.started, TableReads.noChannels, []⟩, [], ⟨[], []⟩, false⟩).map (fun s =>
        (s.fds.registered, s.camd.map CamdChannel.camdSocket)) = .ok ([5], [-1, -1]) := by
    decide +kernel
  obtain ⟨s, hplay, hvalues⟩ := map_eq_ok h
  rw [Prod.mk.injEq] at hvalues
  obtain ⟨hregistered, hsockets⟩ := hvalues
  intro hall
  have hrun := Run.foldlM id (fun _ _ _ => step_handle)
    (.start ⟨⟨⟨_, rfl⟩, rfl⟩, rfl, (fun _ h => by cases h), rfl, rfl⟩) hplay
  obtain ⟨i, hi, -⟩ := hall _ s hrun 5 (by rw [hregistered]; exact List.mem_singleton_self 5)
  obtain ⟨chan, hchan, hsocket⟩ := (hi i).mpr rfl
  have hmem : chan.camdSocket ∈ s.camd.map CamdChannel.camdSocket :=
    List.mem_map_of_mem (List.mem_of_getElem? hchan)
  rw [hsockets, hsocket] at hmem
  exact absurd hmem (by decide)

end MuMuDVB.CamdSockets
