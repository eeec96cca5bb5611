import MuMuDVB.FdTable
import MuMuDVB.FuelLoop

/-!
# The events of one poll

The loop over the descriptors while the table that it goes through shrinks and
grows: an entry that is removed is replaced by the last one, and the index steps
back so that this one is looked at too. What is handled is kept for the proofs.
-/
namespace MuMuDVB.FdEvents

open CheckedMemory FuelLoop MuMuDVB.UnicastClients

/-- `struct pollfd` -/
structure PollFd where
  fd : Int
  events : Nat
  revents : Nat

def pollin : Nat := 0x001
def pollpri : Nat := 0x002
def pollerr : Nat := 0x008
def pollhup : Nat := 0x010

/-- `revents & mask` -/
def PollFd.has (p : PollFd) (mask : Nat) : Bool := p.revents &&& mask != 0

/-- "last one set to 0 for poll()" -/
def cleared : PollFd := ⟨0, pollin ||| pollpri, 0⟩

/-- The part of `unicast_parameters_t` that is about the descriptors. -/
structure Tables where
  pfds : List PollFd
  fdInfo : List FdInfo
  pfdsnum : Nat

inductive Kind where
  | hangUp | accept | message
  deriving DecidableEq

structure Handling where
  kind : Kind
  fd : Int
  deriving DecidableEq

structure LoopState where
  tables : Tables
  actualFd : Int
  handled : List Handling

/-- What comes from outside: the connection that the `k`th handling accepts, with a descriptor that
is not one of those in use and the new client, and whether it ends with a connection to be
closed. -/
structure Surroundings where
  accept : Nat → List Int → Option (Int × CheckedHeap.Addr)
  fresh : ∀ k used fd client, accept k used = some (fd, client) → fd ∉ used
  closes : Nat → Bool

/-- The entry at an index, which is to be one of the `n` entries at the start of the turn. -/
def at? {α : Type} (xs : List α) (n : Nat) (i : Int) : Checked α :=
  if 0 ≤ i ∧ i < n then
    match xs[i.toNat]? with
    | some x => .ok x
    | none => .error .outOfBounds
  else .error .outOfBounds

/-- The last entries move to place `i`, and the arrays shrink by one. -/
def moveLast (t : Tables) (i : Nat) : Checked Tables :=
  match t.pfds[t.pfdsnum - 1]?, t.fdInfo[t.pfdsnum - 1]? with
  | some pfd, some info => .ok {
      pfds := ((t.pfds.set i pfd).set (t.pfdsnum - 1) cleared).take t.pfdsnum
      fdInfo := (t.fdInfo.set i info).take (t.pfdsnum - 1)
      pfdsnum := t.pfdsnum - 1 }
  | _, _ => .error .outOfBounds

/-- `unicast_close_connection` -/
def unicastCloseConnection (t : Tables) (socket : Int) : Checked Tables :=
  match (t.pfds.take t.pfdsnum).findIdx? (·.fd == socket) with
  | none => .ok t
  | some i =>
    match (t.fdInfo[i]?) with
    | none => .error .outOfBounds
    | some _ => moveLast t i

/-- A new client is polled. -/
def addClient (t : Tables) (fd : Int) (client : CheckedHeap.Addr) : Tables where
  pfds := t.pfds.set t.pfdsnum ⟨fd, pollin ||| pollpri ||| pollhup ||| pollerr, 0⟩ ++ [cleared]
  fdInfo := t.fdInfo ++ [⟨.client, -1, some client⟩]
  pfdsnum := t.pfdsnum + 1

def LoopState.handle (s : LoopState) (kind : Kind) (fd : Int) : LoopState :=
  { s with handled := s.handled ++ [⟨kind, fd⟩] }

/-- The connection at `actual_fd` is closed; the index steps back if what has moved there has
events. -/
def closeAt (n : Nat) (s : LoopState) (fd : Int) : Checked LoopState := do
  let t ← unicastCloseConnection s.tables fd
  let moved ← at? t.pfds n s.actualFd
  if moved.revents ≠ 0 then return { s with tables := t, actualFd := s.actualFd - 1 }
  else return { s with tables := t }

/-- The test for POLLHUP and POLLERR. -/
def hangUp (n : Nat) (s : LoopState) : Checked LoopState := do
  let pfd ← at? s.tables.pfds n s.actualFd
  if pfd.has pollhup || pfd.has pollerr then
    let info ← at? s.tables.fdInfo n s.actualFd
    if info.type = .client then closeAt n (s.handle .hangUp pfd.fd) pfd.fd
    else return s
  else return s

/-- The test for POLLIN and POLLPRI. -/
def answer (env : Surroundings) (n : Nat) (s : LoopState) : Checked LoopState := do
  let pfd ← at? s.tables.pfds n s.actualFd
  if pfd.has pollin || pfd.has pollpri then
    let info ← at? s.tables.fdInfo n s.actualFd
    if info.type = .client then
      if env.closes s.handled.length then closeAt n (s.handle .message pfd.fd) pfd.fd
      else return s.handle .message pfd.fd
    else
      match env.accept s.handled.length ((s.tables.pfds.take s.tables.pfdsnum).map PollFd.fd) with
      | none => return s.handle .accept pfd.fd
      | some (fd, client) =>
        return { s.handle .accept pfd.fd with tables := addClient s.tables fd client }
  else return s

/-- A turn of the loop of `unicast_handle_fd_event`. -/
def turn (env : Surroundings) (s : LoopState) : Checked (Turn LoopState LoopState) :=
  if s.actualFd < s.tables.pfdsnum then do
    let n := s.tables.pfdsnum
    let s ← hangUp n s
    let s ← answer env n s
    return .again { s with actualFd := s.actualFd + 1 }
  else .ok (.done s)

abbrev Entry := PollFd × FdInfo

def Entry.fd (e : Entry) : Int := e.1.fd

/-- A client that hung up. -/
def Entry.hung (e : Entry) : Bool :=
  (e.1.has pollhup || e.1.has pollerr) && e.2.type == .client

/-- There is something to be read. -/
def Entry.asks (e : Entry) : Bool := e.1.has pollin || e.1.has pollpri

/-- What is done about something to be read. -/
def Entry.answered (e : Entry) : Handling :=
  ⟨if e.2.type = .client then .message else .accept, e.fd⟩

/-- What is to be done about an entry. -/
def Entry.handling (e : Entry) : Option Handling :=
  if e.hung then some ⟨.hangUp, e.fd⟩ else if e.asks then some e.answered else none

def ready (es : List Entry) : List Handling := es.filterMap Entry.handling

/-- The two arrays for a list of entries; that of `poll` has one more at its end. -/
def Tables.of (es : List Entry) (more : PollFd) : Tables where
  pfds := es.map Prod.fst ++ [more]
  fdInfo := es.map Prod.snd
  pfdsnum := es.length

/-- The descriptors that are polled are not the same twice. -/
structure PollTable where
  entries : List Entry
  more : PollFd
  distinct : (entries.map Entry.fd).Nodup

def PollTable.start (t : PollTable) : LoopState := ⟨Tables.of t.entries t.more, 0, []⟩

/-- With enough turns the loop returns, and each entry that is ready has been handled once. -/
def HandledOnce (env : Surroundings) (t : PollTable) : Prop :=
  ∃ fuel s, run (turn env) fuel t.start = .ok s ∧ s.handled.Perm (ready t.entries)

/-- A client that hung up is to be closed while the last entry has events, and the entry before it
has something to be read or is not there. -/
def Slips (s : LoopState) : Prop :=
  ∃ done x mid last, (∃ more, s.tables = Tables.of (done ++ x :: (mid ++ [last])) more) ∧
    s.actualFd = done.length ∧ x.hung ∧ last.1.revents ≠ 0 ∧
    ∀ e, done.getLast? = some e → e.asks

/-- The tables are those of the server, with the events beside the descriptors. -/
structure Follows (s : UnicastVars) (t : Tables) : Prop where
  pfds : s.pfds = t.pfds.map PollFd.fd
  fdInfo : s.fdInfo = t.fdInfo
  pfdsnum : s.pfdsnum = t.pfdsnum

theorem Follows.moveLast {s : UnicastVars} {t t' : Tables} {i : Nat} (hf : Follows s t)
    (h : moveLast t i = .ok t') : ∃ s', moveLastFd s i = .ok s' ∧ Follows s' t' := by
  rw [FdEvents.moveLast] at h
  rw [moveLastFd, hf.pfds, hf.fdInfo, hf.pfdsnum, List.getElem?_map]
  cases hpfd : t.pfds[t.pfdsnum - 1]? with
  | none =>
    rw [hpfd] at h
    cases h
  | some pfd =>
    cases hinfo : t.fdInfo[t.pfdsnum - 1]? with
    | none =>
      rw [hpfd, hinfo] at h
      cases h
    | some info =>
      rw [hpfd, hinfo] at h
      cases h
      refine ⟨_, rfl, ?_, rfl, rfl⟩
      simp [cleared]

theorem Follows.addClient {s : UnicastVars} {t : Tables} (hf : Follows s t) (fd : Int)
    (client : CheckedHeap.Addr) :
    Follows (s.addFd fd ⟨.client, -1, some client⟩) (addClient t fd client) := by
  refine ⟨?_, ?_, ?_⟩
  · rw [UnicastVars.addFd, FdEvents.addClient, hf.pfds, hf.pfdsnum]
    simp [cleared]
  · rw [UnicastVars.addFd, FdEvents.addClient, hf.fdInfo]
  · rw [UnicastVars.addFd, FdEvents.addClient, hf.pfdsnum]

section tables

variable {done rest mid : List Entry} {x last : Entry} {more : PollFd} {n : Nat} {α : Type}

theorem at?_middle {before after : List α} {a : α} (hlt : before.length < n) :
    at? (before ++ a :: after) n before.length = .ok a := by
  rw [at?, if_pos ⟨Int.natCast_nonneg _, Int.ofNat_lt.mpr hlt⟩, Int.toNat_natCast,
    List.getElem?_append_right (Nat.le_refl _), Nat.sub_self]
  rfl

theorem at?_pfds (hlt : done.length < n) :
    at? (Tables.of (done ++ x :: rest) more).pfds n done.length = .ok x.1 := by
  have hlen : done.length = (done.map Prod.fst).length := (List.length_map _).symm
  rw [Tables.of, List.map_append, List.append_assoc]
  rw [hlen] at hlt ⊢
  exact at?_middle hlt

theorem at?_pfds_end (hlt : done.length < n) :
    at? (Tables.of done more).pfds n done.length = .ok more := by
  have hlen : done.length = (done.map Prod.fst).length := (List.length_map _).symm
  rw [Tables.of]
  rw [hlen] at hlt ⊢
  exact at?_middle hlt

theorem at?_fdInfo (hlt : done.length < n) :
    at? (Tables.of (done ++ x :: rest) more).fdInfo n done.length = .ok x.2 := by
  have hlen : done.length = (done.map Prod.snd).length := (List.length_map _).symm
  have hinfo : (Tables.of (done ++ x :: rest) more).fdInfo =
      done.map Prod.snd ++ x.2 :: rest.map Prod.snd := List.map_append
  rw [hinfo]
  rw [hlen] at hlt ⊢
  exact at?_middle hlt

theorem set_middle {before after : List α} {a b : α} {i : Nat} (hi : i = before.length) :
    (before ++ a :: after).set i b = before ++ b :: after := by
  rw [hi, List.set_append_right _ _ (Nat.le_refl _), Nat.sub_self]
  rfl

theorem getElem?_middle {before after : List α} {a : α} {i : Nat} (hi : i = before.length) :
    (before ++ a :: after)[i]? = some a := by
  rw [hi, List.getElem?_append_right (Nat.le_refl _), Nat.sub_self]
  rfl

theorem take_middle {before after : List α} {i : Nat} (hi : i = before.length) :
    (before ++ after).take i = before := by rw [hi, List.take_left]

theorem set_front {before after later : List α} {a b : α} {i : Nat} (hi : i = before.length) :
    ((before ++ a :: after) ++ later).set i b = (before ++ b :: after) ++ later := by
  rw [List.append_assoc, List.cons_append, set_middle hi, List.append_assoc, List.cons_append]

/-- The last entry is closed itself. -/
theorem moveLast_end : moveLast (Tables.of (done ++ [x]) more) done.length =
    .ok (Tables.of done cleared) := by
  have hlen : (done ++ [x]).length - 1 = done.length := by simp
  have hpfds : (done ++ [x]).map Prod.fst ++ [more] = done.map Prod.fst ++ x.1 :: [more] := by
    simp
  have hinfo : (done ++ [x]).map Prod.snd = done.map Prod.snd ++ x.2 :: [] := by simp
  have hfst : done.length = (done.map Prod.fst).length := by rw [List.length_map]
  have hsnd : done.length = (done.map Prod.snd).length := by rw [List.length_map]
  rw [moveLast, Tables.of]
  dsimp only
  rw [hlen, hpfds, hinfo, getElem?_middle hfst, getElem?_middle hsnd]
  dsimp only
  rw [set_middle hfst, set_middle hfst, set_middle hsnd,
    List.append_cons _ cleared, take_middle (by simp), take_middle hsnd, Tables.of]

/-- The last entry moves to the place of the one that is closed. -/
theorem moveLast_middle : moveLast (Tables.of (done ++ x :: (mid ++ [last])) more) done.length =
    .ok (Tables.of (done ++ last :: mid) cleared) := by
  have hlen : (done ++ x :: (mid ++ [last])).length - 1 = done.length + 1 + mid.length := by
    simp
    omega
  have hpfds : (done ++ x :: (mid ++ [last])).map Prod.fst ++ [more] =
      (done.map Prod.fst ++ x.1 :: mid.map Prod.fst) ++ last.1 :: [more] := by simp
  have hinfo : (done ++ x :: (mid ++ [last])).map Prod.snd =
      (done.map Prod.snd ++ x.2 :: mid.map Prod.snd) ++ last.2 :: [] := by simp
  have hfst : done.length + 1 + mid.length =
      (done.map Prod.fst ++ x.1 :: mid.map Prod.fst).length := by
    simp
    omega
  have hsnd : done.length + 1 + mid.length =
      (done.map Prod.snd ++ x.2 :: mid.map Prod.snd).length := by
    simp
    omega
  rw [moveLast, Tables.of]
  dsimp only
  rw [hlen, hpfds, hinfo, getElem?_middle hfst, getElem?_middle hsnd]
  dsimp only
  have hdone : done.length = (done.map Prod.fst).length := by rw [List.length_map]
  have hdone' : done.length = (done.map Prod.snd).length := by rw [List.length_map]
  have hmoved : done.length + 1 + mid.length =
      (done.map Prod.fst ++ last.1 :: mid.map Prod.fst).length := by
    simp
    omega
  have hmoved' : done.length + 1 + mid.length =
      (done.map Prod.snd ++ last.2 :: mid.map Prod.snd).length := by
    simp
    omega
  rw [set_front hdone, set_front hdone', set_middle hmoved, List.append_cons _ cleared,
    take_middle (by simp), take_middle hmoved', Tables.of]
  simp
  omega

theorem polled (es : List Entry) (more : PollFd) :
    (Tables.of es more).pfds.take (Tables.of es more).pfdsnum = es.map Prod.fst :=
  take_middle (List.length_map _).symm

/-- The search finds the entry of the descriptor. -/
theorem findIdx?_fd (hdistinct : ((done ++ x :: rest).map Entry.fd).Nodup) :
    ((done ++ x :: rest).map Prod.fst).findIdx? (·.fd == x.fd) = some done.length := by
  have hdone : (done.map Prod.fst).findIdx? (·.fd == x.fd) = none := by
    rw [List.findIdx?_eq_none_iff]
    intro p hp
    obtain ⟨e, he, rfl⟩ := List.mem_map.mp hp
    rw [List.map_append, List.nodup_append] at hdistinct
    have hne := hdistinct.2.2 _ (List.mem_map_of_mem he) _ (List.mem_map_of_mem List.mem_cons_self)
    exact beq_eq_false_iff_ne.mpr hne
  rw [List.map_append, List.findIdx?_append, hdone, List.map_cons, List.findIdx?_cons,
    if_pos (by rw [Entry.fd, beq_self_eq_true])]
  simp

theorem unicastCloseConnection_of (hdistinct : ((done ++ x :: rest).map Entry.fd).Nodup) :
    unicastCloseConnection (Tables.of (done ++ x :: rest) more) x.fd =
      moveLast (Tables.of (done ++ x :: rest) more) done.length := by
  have hinfo : (Tables.of (done ++ x :: rest) more).fdInfo[done.length]? = some x.2 := by
    rw [Tables.of, List.getElem?_map, getElem?_middle rfl]
    rfl
  rw [unicastCloseConnection, polled, findIdx?_fd hdistinct]
  dsimp only
  rw [hinfo]

variable {handled : List Handling} {env : Surroundings}

theorem closeAt_end (hdistinct : ((done ++ [x]).map Entry.fd).Nodup) (hlt : done.length < n) :
    closeAt n ⟨Tables.of (done ++ [x]) more, done.length, handled⟩ x.fd =
      .ok ⟨Tables.of done cleared, done.length, handled⟩ := by
  rw [closeAt, unicastCloseConnection_of hdistinct, moveLast_end, bind_ok]
  dsimp only
  rw [at?_pfds_end hlt]
  rfl

theorem closeAt_middle (hdistinct : ((done ++ x :: (mid ++ [last])).map Entry.fd).Nodup)
    (hlt : done.length < n) :
    closeAt n ⟨Tables.of (done ++ x :: (mid ++ [last])) more, done.length, handled⟩ x.fd =
      .ok ⟨Tables.of (done ++ last :: mid) cleared,
        if last.1.revents ≠ 0 then done.length - 1 else done.length, handled⟩ := by
  rw [closeAt, unicastCloseConnection_of hdistinct, moveLast_middle, bind_ok]
  dsimp only
  rw [at?_pfds hlt, bind_ok]
  split <;> rfl

theorem hangUp_of (hlt : done.length < n) :
    hangUp n ⟨Tables.of (done ++ x :: rest) more, done.length, handled⟩ =
      if x.hung then closeAt n ⟨Tables.of (done ++ x :: rest) more, done.length,
        handled ++ [⟨.hangUp, x.fd⟩]⟩ x.fd
      else .ok ⟨Tables.of (done ++ x :: rest) more, done.length, handled⟩ := by
  rw [hangUp, at?_pfds hlt, bind_ok, Entry.hung]
  cases x.1.has pollhup || x.1.has pollerr
  · rfl
  · rw [if_pos rfl, at?_fdInfo hlt, bind_ok, Bool.true_and]
    simp only [beq_iff_eq]
    rfl

theorem answer_quiet (hlt : done.length < n) (hasks : x.asks = false) :
    answer env n ⟨Tables.of (done ++ x :: rest) more, done.length, handled⟩ =
      .ok ⟨Tables.of (done ++ x :: rest) more, done.length, handled⟩ := by
  rw [Entry.asks] at hasks
  rw [answer, at?_pfds hlt, bind_ok, hasks]
  rfl

/-- After the last entry there is nothing to be read. -/
theorem answer_end (hlt : done.length < n) :
    answer env n ⟨Tables.of done cleared, done.length, handled⟩ =
      .ok ⟨Tables.of done cleared, done.length, handled⟩ := by
  rw [answer, at?_pfds_end hlt, bind_ok]
  rfl

theorem answer_message (hlt : done.length < n) (hasks : x.asks) (htype : x.2.type = .client) :
    answer env n ⟨Tables.of (done ++ x :: rest) more, done.length, handled⟩ =
      if env.closes handled.length then
        closeAt n ⟨Tables.of (done ++ x :: rest) more, done.length, handled ++ [x.answered]⟩ x.fd
      else .ok ⟨Tables.of (done ++ x :: rest) more, done.length, handled ++ [x.answered]⟩ := by
  rw [Entry.asks] at hasks
  rw [answer, at?_pfds hlt, bind_ok, if_pos hasks, at?_fdInfo hlt, bind_ok, if_pos htype,
    Entry.answered, if_pos htype]
  rfl

/-- The entry of a client that has just connected. -/
def newEntry (fd : Int) (client : CheckedHeap.Addr) : Entry :=
  (⟨fd, pollin ||| pollpri ||| pollhup ||| pollerr, 0⟩, ⟨.client, -1, some client⟩)

theorem addClient_of (es : List Entry) (more : PollFd) (fd : Int) (client : CheckedHeap.Addr) :
    addClient (Tables.of es more) fd client = Tables.of (es ++ [newEntry fd client]) cleared := by
  rw [addClient, Tables.of, Tables.of]
  dsimp only
  rw [set_middle (List.length_map _).symm]
  simp [newEntry]

theorem answer_accept (env : Surroundings) (rest : List Entry) (more : PollFd)
    (handled : List Handling) (hlt : done.length < n) (hasks : x.asks)
    (htype : x.2.type ≠ .client) :
    ∃ more' new, answer env n ⟨Tables.of (done ++ x :: rest) more, done.length, handled⟩ =
        .ok ⟨Tables.of (done ++ x :: (rest ++ new)) more', done.length, handled ++ [x.answered]⟩ ∧
      (new = [] ∨ ∃ e, new = [e] ∧ e.1.revents = 0 ∧
        e.fd ∉ (done ++ x :: rest).map Entry.fd) := by
  rw [Entry.asks] at hasks
  rw [answer, at?_pfds hlt, bind_ok, if_pos hasks, at?_fdInfo hlt, bind_ok, if_neg htype,
    Entry.answered, if_neg htype, polled]
  cases haccept : env.accept handled.length _ with
  | none =>
    refine ⟨more, [], ?_, .inl rfl⟩
    rw [List.append_nil]
    rfl
  | some r =>
    obtain ⟨fd, client⟩ := r
    refine ⟨cleared, [newEntry fd client], ?_, .inr ⟨_, rfl, rfl, ?_⟩⟩
    · dsimp only
      rw [addClient_of, List.append_assoc]
      rfl
    · have hfresh := env.fresh _ _ _ _ haccept
      rwa [List.map_map] at hfresh

end tables

section turns

variable {env : Surroundings} {t : PollTable} {s s' : LoopState}
  {done rest mid pending : List Entry} {x last : Entry} {more : PollFd}

/-- Where the loop is: the entries before the index are done with, those from it on are pending. -/
structure Progress (t : PollTable) (s : LoopState) (done pending : List Entry) : Prop where
  tables : ∃ more, s.tables = Tables.of (done ++ pending) more
  position : pending ≠ [] → s.actualFd = done.length
  reached : (done.length : Int) ≤ s.actualFd
  distinct : ((done ++ pending).map Entry.fd).Nodup
  handled : (s.handled ++ ready pending).Perm (ready t.entries)
  answered : ∀ e ∈ done, e.asks → e.answered ∈ s.handled

/-- A turn brings it down: an entry with events counts for two. -/
def weight : List Entry → Nat
  | [] => 0
  | e :: es => (if e.1.revents = 0 then 1 else 2) + weight es

theorem quiet_of_revents (h : x.1.revents = 0) : x.hung = false ∧ x.asks = false := by
  have hhas : ∀ mask, x.1.has mask = false := by
    intro mask
    rw [PollFd.has, h, Nat.zero_and]
    rfl
  rw [Entry.hung, Entry.asks, hhas, hhas, hhas, hhas]
  exact ⟨rfl, rfl⟩

theorem handling_quiet (hhung : x.hung = false) (hasks : x.asks = false) : x.handling = none := by
  rw [Entry.handling, hhung, hasks]
  rfl

theorem ready_cons_none (h : x.handling = none) : ready (x :: rest) = ready rest := by
  rw [ready, List.filterMap_cons_none h]
  rfl

theorem ready_cons_some {a : Handling} (h : x.handling = some a) :
    ready (x :: rest) = a :: ready rest := by
  rw [ready, List.filterMap_cons_some h]
  rfl

theorem ready_moved : (ready (last :: mid)).Perm (ready (mid ++ [last])) :=
  (List.perm_append_singleton last mid).symm.filterMap _

theorem weight_cons (x : Entry) (rest : List Entry) :
    weight (x :: rest) = (if x.1.revents = 0 then 1 else 2) + weight rest := rfl

theorem weight_lt_cons (x : Entry) (rest : List Entry) : weight rest < weight (x :: rest) := by
  rw [weight_cons]
  split <;> omega

theorem weight_append (es es' : List Entry) : weight (es ++ es') = weight es + weight es' := by
  induction es with
  | nil => exact (Nat.zero_add _).symm
  | cons e es ih => rw [List.cons_append, weight_cons, weight_cons, ih, Nat.add_assoc]

/-- An entry is gone over without anything to handle, or after it was handled. -/
theorem Progress.pass (hp : Progress t s done (x :: rest)) {handled : List Handling}
    (hhandled : (handled ++ ready rest).Perm (ready t.entries))
    (hsub : ∀ a ∈ s.handled, a ∈ handled) (hx : x.asks → x.answered ∈ handled)
    (more : PollFd) :
    Progress t ⟨Tables.of (done ++ x :: rest) more, done.length + 1, handled⟩ (done ++ [x])
      rest := by
  have hsplit : (done ++ [x]) ++ rest = done ++ x :: rest := by simp
  refine ⟨⟨more, by rw [hsplit]⟩, fun _ => ?_, ?_, by rw [hsplit]; exact hp.distinct, hhandled, ?_⟩
  · simp
  · simp
  · intro e he hasks
    rcases List.mem_append.mp he with he | he
    · exact hsub _ (hp.answered e he hasks)
    · rw [List.mem_singleton.mp he] at hasks ⊢
      exact hx hasks

/-- A closed connection was the last one. -/
theorem Progress.closed_end (hp : Progress t s done [x]) {handled : List Handling}
    (hhandled : handled.Perm (ready t.entries)) (hsub : ∀ a ∈ s.handled, a ∈ handled) :
    Progress t ⟨Tables.of done cleared, done.length + 1, handled⟩ done [] := by
  have hdistinct := hp.distinct
  rw [List.map_append, List.nodup_append] at hdistinct
  refine ⟨⟨cleared, by rw [List.append_nil]⟩, fun hne => absurd rfl hne, Int.le.intro 1 rfl, ?_,
    ?_, fun e he hasks => hsub _ (hp.answered e he hasks)⟩
  · rw [List.append_nil]
    exact hdistinct.1
  · rw [ready, List.filterMap_nil, List.append_nil]
    exact hhandled

theorem distinct_closed (hdistinct : ((done ++ x :: (mid ++ [last])).map Entry.fd).Nodup) :
    ((done ++ last :: mid).map Entry.fd).Nodup := by
  have hperm : (done ++ last :: mid).Perm (done ++ (mid ++ [last])) :=
    (List.perm_append_singleton last mid).symm.append_left done
  rw [(hperm.map Entry.fd).nodup_iff]
  exact hdistinct.sublist (((List.sublist_cons_self x _).append_left done).map Entry.fd)

/-- The last entry has moved to the place of a closed connection: it is looked at next if it has
events, else it is gone over. -/
theorem Progress.closed_middle (hp : Progress t s done (x :: (mid ++ [last])))
    {handled : List Handling}
    (hhandled : (handled ++ ready (mid ++ [last])).Perm (ready t.entries))
    (hsub : ∀ a ∈ s.handled, a ∈ handled) :
    ∃ done' pending', Progress t ⟨Tables.of (done ++ last :: mid) cleared,
        (if last.1.revents ≠ 0 then (done.length : Int) - 1 else done.length) + 1, handled⟩
        done' pending' ∧
      weight pending' < weight (x :: (mid ++ [last])) := by
  have hdistinct := distinct_closed hp.distinct
  have hmoved : Progress t ⟨Tables.of (done ++ last :: mid) cleared, done.length, handled⟩ done
      (last :: mid) :=
    ⟨⟨cleared, rfl⟩, fun _ => rfl, Int.le_refl _, hdistinct,
      (ready_moved.append_left handled).trans hhandled,
      fun e he hasks => hsub _ (hp.answered e he hasks)⟩
  by_cases hlast : last.1.revents = 0
  · obtain ⟨hhung, hasks⟩ := quiet_of_revents hlast
    refine ⟨done ++ [last], mid, ?_, ?_⟩
    · rw [if_neg (by simp [hlast])]
      refine hmoved.pass ?_ (fun a ha => ha) (by simp [hasks]) cleared
      have hready := hmoved.handled
      rwa [ready_cons_none (handling_quiet hhung hasks)] at hready
    · rw [weight_cons, weight_append, weight_cons]
      split <;> omega
  · refine ⟨done, last :: mid, ?_, ?_⟩
    · rw [if_pos hlast, Int.sub_add_cancel]
      exact hmoved
    · rw [weight_cons, weight_cons, weight_append, weight_cons]
      have hnil : weight [] = 0 := rfl
      split <;> split <;> omega

theorem turn_of (hlt : s.actualFd < s.tables.pfdsnum) : turn env s = do
    let s₁ ← hangUp s.tables.pfdsnum s
    let s₂ ← answer env s.tables.pfdsnum s₁
    return .again { s₂ with actualFd := s₂.actualFd + 1 } := by
  rw [turn, if_pos hlt]

/-- What is handled of the first pending entry. -/
theorem Progress.handle_head (hp : Progress t s done (x :: rest)) {a : Handling}
    (ha : x.handling = some a) :
    ((s.handled ++ [a]) ++ ready rest).Perm (ready t.entries) := by
  have hhandled := hp.handled
  rwa [ready_cons_some ha, List.append_cons] at hhandled

theorem Progress.skip_head (hp : Progress t s done (x :: rest)) (hx : x.handling = none) :
    (s.handled ++ ready rest).Perm (ready t.entries) := by
  have hhandled := hp.handled
  rwa [ready_cons_none hx] at hhandled

/-- A new entry, as if it had been there before. -/
theorem Progress.added (hp : Progress t s done (x :: rest)) {new : List Entry}
    (hnew : new = [] ∨ ∃ e, new = [e] ∧ e.1.revents = 0 ∧
      e.fd ∉ (done ++ x :: rest).map Entry.fd) (more : PollFd) :
    Progress t ⟨Tables.of (done ++ x :: (rest ++ new)) more, done.length, s.handled⟩ done
      (x :: (rest ++ new)) := by
  have hsplit : done ++ x :: (rest ++ new) = (done ++ x :: rest) ++ new := by simp
  refine ⟨⟨more, rfl⟩, fun _ => rfl, Int.le_refl _, ?_, ?_, hp.answered⟩
  · rw [hsplit, List.map_append, List.nodup_append]
    rcases hnew with rfl | ⟨e, rfl, -, hfresh⟩
    · exact ⟨hp.distinct, List.nodup_nil, fun a _ b hb => by (cases hb)⟩
    · refine ⟨hp.distinct, List.nodup_singleton _, fun a ha b hb => ?_⟩
      rw [List.mem_singleton.mp hb]
      exact ne_of_mem_of_not_mem ha hfresh
  · have hready : ready new = [] := by
      rcases hnew with rfl | ⟨e, rfl, hquiet, -⟩
      · rfl
      · obtain ⟨hhung, hasks⟩ := quiet_of_revents hquiet
        exact ready_cons_none (handling_quiet hhung hasks)
    have hadd : ready (x :: (rest ++ new)) = ready (x :: rest) := by
      have hsplit' : x :: (rest ++ new) = (x :: rest) ++ new := rfl
      rw [hsplit', ready, List.filterMap_append]
      change ready (x :: rest) ++ ready new = _
      rw [hready, List.append_nil]
    rw [hadd]
    exact hp.handled

theorem Progress.state (hp : Progress t s done (x :: rest)) :
    ∃ more, s = ⟨Tables.of (done ++ x :: rest) more, done.length, s.handled⟩ := by
  obtain ⟨more, htables⟩ := hp.tables
  refine ⟨more, ?_⟩
  rw [← htables, ← hp.position (List.cons_ne_nil x rest)]

theorem length_lt (done : List Entry) (x : Entry) (rest : List Entry) (more : PollFd) :
    done.length < (Tables.of (done ++ x :: rest) more).pfdsnum := by
  show done.length < (done ++ x :: rest).length
  simp

theorem turn_at (done : List Entry) (x : Entry) (rest : List Entry) (more : PollFd)
    (handled : List Handling) :
    turn env ⟨Tables.of (done ++ x :: rest) more, done.length, handled⟩ = do
      let n := (Tables.of (done ++ x :: rest) more).pfdsnum
      let s₁ ← hangUp n ⟨Tables.of (done ++ x :: rest) more, done.length, handled⟩
      let s₂ ← answer env n s₁
      return .again { s₂ with actualFd := s₂.actualFd + 1 } :=
  turn_of (Int.ofNat_lt.mpr (length_lt done x rest more))

/-- The message of a client, or its end. -/
theorem Progress.turn_message (hp : Progress t s done (x :: rest)) (hhung : x.hung = false)
    (hasks : x.asks) (htype : x.2.type = .client) :
    ∃ s' done' pending', turn env s = .ok (.again s') ∧ Progress t s' done' pending' ∧
      weight pending' < weight (x :: rest) := by
  obtain ⟨more, hs⟩ := hp.state
  have hlt := length_lt done x rest more
  have hhandling : x.handling = some x.answered := by
    rw [Entry.handling, hhung, if_pos hasks]
    rfl
  have hhandled := hp.handle_head hhandling
  have hsub : ∀ a ∈ s.handled, a ∈ s.handled ++ [x.answered] := fun a =>
    List.mem_append_left _
  rw [hs, turn_at]
  dsimp only
  rw [hangUp_of hlt, hhung, if_neg (by simp), bind_ok, answer_message hlt hasks htype]
  cases env.closes s.handled.length with
  | false =>
    exact ⟨_, done ++ [x], rest, rfl, hp.pass hhandled hsub (fun _ => by simp) more,
      weight_lt_cons x rest⟩
  | true =>
    rw [if_pos rfl]
    rcases List.eq_nil_or_concat' rest with rfl | ⟨mid, last, rfl⟩
    · rw [closeAt_end hp.distinct hlt]
      refine ⟨_, done, [], rfl, hp.closed_end ?_ hsub, weight_lt_cons x []⟩
      rwa [ready, List.filterMap_nil, List.append_nil] at hhandled
    · rw [closeAt_middle hp.distinct hlt]
      obtain ⟨done', pending', hp', hweight⟩ := hp.closed_middle hhandled hsub
      exact ⟨_, done', pending', rfl, hp', hweight⟩

/-- A connection is accepted. -/
theorem Progress.turn_accept (hp : Progress t s done (x :: rest)) (hhung : x.hung = false)
    (hasks : x.asks) (htype : x.2.type ≠ .client) :
    ∃ s' done' pending', turn env s = .ok (.again s') ∧ Progress t s' done' pending' ∧
      weight pending' < weight (x :: rest) := by
  obtain ⟨more, hs⟩ := hp.state
  have hlt := length_lt done x rest more
  have hhandling : x.handling = some x.answered := by
    rw [Entry.handling, hhung, if_pos hasks]
    rfl
  have hrevents : x.1.revents ≠ 0 := fun hzero => by
    rw [(quiet_of_revents hzero).2] at hasks
    cases hasks
  obtain ⟨more', new, hanswer, hnew⟩ := answer_accept env rest more s.handled hlt hasks htype
  rw [hs, turn_at]
  dsimp only
  rw [hangUp_of hlt, hhung, if_neg (by simp), bind_ok, hanswer]
  have hadded := hp.added hnew more'
  refine ⟨_, done ++ [x], rest ++ new, rfl, ?_, ?_⟩
  · exact hadded.pass (hadded.handle_head hhandling) (fun a => List.mem_append_left _)
      (fun _ => by simp) more'
  · have hweight : weight new ≤ 1 := by
      rcases hnew with rfl | ⟨e, rfl, hquiet, -⟩
      · exact Nat.zero_le 1
      · rw [weight_cons, if_pos hquiet]
        rfl
    rw [weight_cons, if_neg hrevents, weight_append]
    omega

/-- A client that hung up is closed. -/
theorem Progress.turn_hangUp (hp : Progress t s done (x :: rest)) (hhung : x.hung)
    (hslip : ¬Slips s) :
    ∃ s' done' pending', turn env s = .ok (.again s') ∧ Progress t s' done' pending' ∧
      weight pending' < weight (x :: rest) := by
  obtain ⟨more, hs⟩ := hp.state
  have hlt := length_lt done x rest more
  have hhandling : x.handling = some ⟨.hangUp, x.fd⟩ := by rw [Entry.handling, if_pos hhung]
  have hhandled := hp.handle_head hhandling
  have hsub : ∀ a ∈ s.handled, a ∈ s.handled ++ [⟨.hangUp, x.fd⟩] := fun a =>
    List.mem_append_left _
  rw [hs, turn_at]
  dsimp only
  rw [hangUp_of hlt, if_pos hhung]
  rcases List.eq_nil_or_concat' rest with rfl | ⟨mid, last, rfl⟩
  · rw [closeAt_end hp.distinct hlt, bind_ok, answer_end hlt]
    refine ⟨_, done, [], rfl, hp.closed_end ?_ hsub, weight_lt_cons x []⟩
    rwa [ready, List.filterMap_nil, List.append_nil] at hhandled
  · obtain ⟨done', pending', hp', hweight⟩ := hp.closed_middle hhandled hsub
    refine ⟨_, done', pending', ?_, hp', hweight⟩
    rw [closeAt_middle hp.distinct hlt, bind_ok]
    by_cases hlast : last.1.revents = 0
    · rw [if_neg (by simp [hlast]), answer_quiet hlt (quiet_of_revents hlast).2]
      rfl
    · rw [if_pos hlast]
      -- the entry before is looked at once more
      rcases List.eq_nil_or_concat' done with rfl | ⟨front, e, rfl⟩
      · refine absurd ⟨[], x, mid, last, ⟨more, by rw [hs]⟩, by rw [hs], hhung, hlast, ?_⟩ hslip
        intro e he
        cases he
      · have hasks : e.asks = false := by
          by_contra hasks
          refine hslip ⟨front ++ [e], x, mid, last, ⟨more, by rw [hs]⟩, by rw [hs], hhung, hlast,
            ?_⟩
          intro e' he'
          rw [List.getLast?_concat, Option.some.injEq] at he'
          rw [← he']
          exact eq_true_of_ne_false hasks
        have hback : ((front ++ [e]).length : Int) - 1 = front.length := by simp
        have hfront :
            front.length < (Tables.of (front ++ [e] ++ x :: (mid ++ [last])) more).pfdsnum := by
          refine Nat.lt_of_le_of_lt ?_ hlt
          simp
        have hstate : (front ++ [e]) ++ last :: mid = front ++ e :: (last :: mid) := by simp
        rw [hback, hstate, answer_quiet hfront hasks]
        rfl

/-- A turn that does not slip goes on. -/
theorem Progress.goes_on (hp : Progress t s done (x :: rest)) (env : Surroundings)
    (hslip : ¬Slips s) :
    ∃ s' done' pending', turn env s = .ok (.again s') ∧ Progress t s' done' pending' ∧
      weight pending' < weight (x :: rest) := by
  cases hhung : x.hung with
  | true => exact hp.turn_hangUp hhung hslip
  | false =>
    cases hasks : x.asks with
    | true =>
      by_cases htype : x.2.type = .client
      · exact hp.turn_message hhung hasks htype
      · exact hp.turn_accept hhung hasks htype
    | false =>
      obtain ⟨more, hs⟩ := hp.state
      have hlt := length_lt done x rest more
      have hhandling := handling_quiet hhung hasks
      refine ⟨_, done ++ [x], rest, ?_, hp.pass (hp.skip_head hhandling) (fun a ha => ha)
        (by simp [hasks]) more, weight_lt_cons x rest⟩
      rw [hs, turn_at]
      dsimp only
      rw [hangUp_of hlt, hhung, if_neg (by simp), bind_ok, answer_quiet hlt hasks]
      rfl

theorem Tables.of_injective {es es' : List Entry} {more' : PollFd}
    (h : Tables.of es more = Tables.of es' more') : es = es' := by
  have hpfds : es.map Prod.fst ++ [more] = es'.map Prod.fst ++ [more'] := congrArg Tables.pfds h
  have hinfo : es.map Prod.snd = es'.map Prod.snd := congrArg Tables.fdInfo h
  have hfst := (List.append_inj' hpfds rfl).1
  rw [← List.zip_unzip es, ← List.zip_unzip es', List.unzip_eq_map, List.unzip_eq_map, hfst, hinfo]

/-- Where a turn slips the entries are those of the progress. -/
theorem Progress.of_slips (hp : Progress t s done pending) (hslip : Slips s) :
    ∃ x mid last, pending = x :: (mid ++ [last]) ∧ x.hung ∧ last.1.revents ≠ 0 ∧
      ∀ e, done.getLast? = some e → e.asks := by
  obtain ⟨done', x, mid, last, ⟨more, htables⟩, hposition, hhung, hlast, hbefore⟩ := hslip
  obtain ⟨more', htables'⟩ := hp.tables
  rw [htables] at htables'
  have hes := Tables.of_injective htables'
  have hreached := hp.reached
  have hne : pending ≠ [] := by
    rintro rfl
    have hlen := congrArg List.length hes
    simp at hlen
    omega
  have hlength : done'.length = done.length := by
    have := hp.position hne
    omega
  obtain ⟨rfl, rfl⟩ := List.append_inj hes hlength
  exact ⟨x, mid, last, rfl, hhung, hlast, hbefore⟩

section handled

variable {n : Nat} {fd : Int}

theorem closeAt_handled (h : closeAt n s fd = .ok s') : s'.handled = s.handled := by
  rw [closeAt] at h
  obtain ⟨t', -, h⟩ := bind_eq_ok.mp h
  obtain ⟨moved, -, h⟩ := bind_eq_ok.mp h
  split at h <;> cases h <;> rfl

theorem hangUp_handled (h : hangUp n s = .ok s') : s.handled <+: s'.handled := by
  rw [hangUp] at h
  obtain ⟨pfd, -, h⟩ := bind_eq_ok.mp h
  split at h
  · obtain ⟨info, -, h⟩ := bind_eq_ok.mp h
    split at h
    · rw [closeAt_handled h]
      exact List.prefix_append _ _
    · cases h
      exact List.prefix_rfl
  · cases h
    exact List.prefix_rfl

theorem answer_handled (h : answer env n s = .ok s') : s.handled <+: s'.handled := by
  rw [answer] at h
  obtain ⟨pfd, -, h⟩ := bind_eq_ok.mp h
  split at h
  case isFalse =>
    cases h
    exact List.prefix_rfl
  case isTrue =>
    obtain ⟨info, -, h⟩ := bind_eq_ok.mp h
    split at h
    · split at h
      · rw [closeAt_handled h]
        exact List.prefix_append _ _
      · cases h
        exact List.prefix_append _ _
    · split at h <;> cases h <;> exact List.prefix_append _ _

/-- Nothing that was handled is forgotten. -/
theorem turn_handled (h : turn env s = .ok (.again s')) : s.handled <+: s'.handled := by
  rw [turn] at h
  split at h
  · obtain ⟨s₁, hhangUp, h⟩ := bind_eq_ok.mp h
    obtain ⟨s₂, hanswer, h⟩ := bind_eq_ok.mp h
    cases h
    have hlater := answer_handled hanswer
    exact (hangUp_handled hhangUp).trans hlater
  · cases h

theorem run_handled {fuel : Nat} (h : run (turn env) fuel s = .ok s') :
    s.handled <+: s'.handled := by
  induction fuel generalizing s with
  | zero => cases h
  | succ fuel ih =>
    rw [run] at h
    obtain ⟨next, hturn, h⟩ := bind_eq_ok.mp h
    cases next with
    | again s₁ => exact (turn_handled hturn).trans (ih h)
    | done s₁ =>
      cases h
      rw [turn] at hturn
      split at hturn
      · obtain ⟨s₁, -, hturn⟩ := bind_eq_ok.mp hturn
        obtain ⟨s₂, -, hturn⟩ := bind_eq_ok.mp hturn
        cases hturn
      · cases hturn
        exact List.prefix_rfl

theorem not_nodup_of_front {as bs : List Handling} (hfront : as <+: bs) (h : ¬as.Nodup) :
    ¬bs.Nodup := fun hbs => h (hbs.sublist hfront.sublist)

/-- What has something to be read is answered. -/
theorem answer_asked {handled : List Handling} (hlt : done.length < n) (hasks : x.asks)
    (h : answer env n ⟨Tables.of (done ++ x :: rest) more, done.length, handled⟩ = .ok s') :
    s'.handled = handled ++ [x.answered] := by
  by_cases htype : x.2.type = .client
  · rw [answer_message hlt hasks htype] at h
    split at h
    · exact closeAt_handled h
    · cases h
      rfl
  · obtain ⟨more', new, hanswer, -⟩ := answer_accept env rest more handled hlt hasks htype
    rw [hanswer] at h
    cases h
    rfl

end handled

/-- A turn that slips handles an entry again, or reads before the first one. -/
theorem Progress.slipped (hp : Progress t s done pending) (hslip : Slips s)
    (hturn : turn env s = .ok (.again s')) : ¬s'.handled.Nodup := by
  obtain ⟨x, mid, last, rfl, hhung, hlast, hbefore⟩ := hp.of_slips hslip
  obtain ⟨more, hs⟩ := hp.state
  have hlt := length_lt done x (mid ++ [last]) more
  rw [hs, turn_at] at hturn
  dsimp only at hturn
  rw [hangUp_of hlt, if_pos hhung, closeAt_middle hp.distinct hlt, bind_ok, if_pos hlast] at hturn
  obtain ⟨s₂, hanswer, hturn⟩ := bind_eq_ok.mp hturn
  cases hturn
  rcases List.eq_nil_or_concat' done with rfl | ⟨front, e, rfl⟩
  · cases hanswer
  · have hasks := hbefore e List.getLast?_concat
    have hback : ((front ++ [e]).length : Int) - 1 = front.length := by simp
    have hfront :
        front.length < (Tables.of (front ++ [e] ++ x :: (mid ++ [last])) more).pfdsnum := by
      refine Nat.lt_of_le_of_lt ?_ hlt
      simp
    have hstate : (front ++ [e]) ++ last :: mid = front ++ e :: (last :: mid) := by simp
    rw [hback, hstate] at hanswer
    have hagain := answer_asked hfront hasks hanswer
    have hbefore' := hp.answered e (by simp) hasks
    show ¬s₂.handled.Nodup
    rw [hagain, List.nodup_append]
    exact fun h => h.2.2 _ (List.mem_append_left _ hbefore') _ (List.mem_singleton_self _) rfl

theorem slips_turns (hslip : Slips s) : s.actualFd < s.tables.pfdsnum := by
  obtain ⟨done, x, mid, last, ⟨more, htables⟩, hposition, -⟩ := hslip
  rw [htables, hposition]
  exact Int.ofNat_lt.mpr (length_lt done x _ more)

theorem progress_start (t : PollTable) : Progress t t.start [] t.entries :=
  ⟨⟨t.more, rfl⟩, fun _ => rfl, Int.le_refl _, t.distinct, List.Perm.refl _,
    fun _ he => by (cases he)⟩

theorem ready_fds (es : List Entry) : ((ready es).map Handling.fd).Sublist (es.map Entry.fd) := by
  induction es with
  | nil => exact List.Sublist.slnil
  | cons e es ih =>
    cases hhandling : e.handling with
    | none =>
      rw [ready_cons_none hhandling]
      exact ih.cons _
    | some a =>
      have hfd : a.fd = e.fd := by
        rw [Entry.handling] at hhandling
        split at hhandling
        · cases hhandling
          rfl
        · split at hhandling
          · cases hhandling
            rfl
          · cases hhandling
      rw [ready_cons_some hhandling, List.map_cons, List.map_cons, hfd]
      exact ih.cons_cons _

theorem ready_nodup (t : PollTable) : (ready t.entries).Nodup :=
  (t.distinct.sublist (ready_fds t.entries)).of_map _

/-- The loop makes progress until it has handled an entry twice. -/
theorem meets_progress (hmeets : Meets (turn env) t.start s) :
    (∃ done pending, Progress t s done pending) ∨ ¬s.handled.Nodup := by
  induction hmeets with
  | refl => exact .inl ⟨[], t.entries, progress_start t⟩
  | @tail s s' _ hturn ih =>
    rcases ih with ⟨done, pending, hp⟩ | htwice
    · by_cases hslip : Slips s
      · exact .inr (hp.slipped hslip hturn)
      · cases pending with
        | nil =>
          obtain ⟨more, htables⟩ := hp.tables
          have hreached := hp.reached
          have hnum : s.tables.pfdsnum = done.length := by
            rw [htables, List.append_nil]
            rfl
          rw [turn, if_neg (by omega)] at hturn
          cases hturn
        | cons x rest =>
          obtain ⟨s₁, done', pending', hs₁, hp', -⟩ := hp.goes_on env hslip
          rw [hturn] at hs₁
          cases hs₁
          exact .inl ⟨done', pending', hp'⟩
    · exact .inr (not_nodup_of_front (turn_handled hturn) htwice)

/-- From a state of progress on the loop comes to its end if no turn slips. -/
theorem Progress.comes_to_end (hp : Progress t s done pending)
    (hslips : ∀ s', Meets (turn env) s s' → ¬Slips s') :
    ∃ fuel s', run (turn env) fuel s = .ok s' ∧
      s'.handled.Perm (ready t.entries) := by
  induction hweight : weight pending using Nat.strong_induction_on generalizing s done pending with
  | _ k ih =>
    cases pending with
    | nil =>
      obtain ⟨more, htables⟩ := hp.tables
      have hreached := hp.reached
      have hnum : s.tables.pfdsnum = done.length := by
        rw [htables, List.append_nil]
        rfl
      refine ⟨1, s, ?_, ?_⟩
      · rw [run, turn, if_neg (by omega)]
        rfl
      · have hhandled := hp.handled
        rwa [ready, List.filterMap_nil, List.append_nil] at hhandled
    | cons x rest =>
      obtain ⟨s₁, done', pending', hturn, hp', hless⟩ := hp.goes_on env (hslips s .refl)
      obtain ⟨fuel, s', hrun, hperm⟩ := ih _ (by omega) hp'
        (fun s' hmeets => hslips s' (.head hturn hmeets)) rfl
      exact ⟨fuel + 1, s', by rw [run_again hturn, hrun], hperm⟩

end turns

/-- One call handles each descriptor that is ready once, and reads no entry that is not there,
exactly if no turn closes a client that hung up in such a place. -/
theorem handledOnce_iff (env : Surroundings) (t : PollTable) :
    HandledOnce env t ↔ ∀ s, Meets (turn env) t.start s → ¬Slips s := by
  constructor
  · rintro ⟨fuel, s', hrun, hperm⟩ s hmeets hslip
    obtain ⟨n, hn⟩ := run_meets hmeets
    have hnodup : s'.handled.Nodup := hperm.nodup_iff.mpr (ready_nodup t)
    have hlater : run (turn env) fuel s = .ok s' := by
      have hmono : run (turn env) (fuel + n) t.start = run (turn env) fuel t.start :=
        run_mono (by rw [hrun]; exact fun h => by (cases h)) n
      rw [← hn, Nat.add_comm, hmono, hrun]
    rcases meets_progress hmeets with ⟨done, pending, hp⟩ | htwice
    · cases fuel with
      | zero => cases hlater
      | succ fuel =>
        rw [run] at hlater
        obtain ⟨next, hturn, hlater⟩ := bind_eq_ok.mp hlater
        cases next with
        | again s₁ =>
          exact not_nodup_of_front (run_handled hlater) (hp.slipped hslip hturn) hnodup
        | done s₁ =>
          rw [turn, if_pos (slips_turns hslip)] at hturn
          obtain ⟨s₂, -, hturn⟩ := bind_eq_ok.mp hturn
          obtain ⟨s₃, -, hturn⟩ := bind_eq_ok.mp hturn
          cases hturn
    · exact not_nodup_of_front (run_handled hlater) htwice hnodup
  · exact fun hslips => (progress_start t).comes_to_end hslips

/-! Two clients are polled besides a socket on which a connection waits; the first one has hung up
and the second one has sent something. -/

def acceptNothing (_ : Nat) (_ : List Int) : Option (Int × CheckedHeap.Addr) := none

theorem acceptNothing_fresh (k : Nat) (used : List Int) (fd : Int) (client : CheckedHeap.Addr)
    (h : acceptNothing k used = some (fd, client)) : fd ∉ used := by cases h

def quietClients : Surroundings where
  accept := acceptNothing
  fresh := acceptNothing_fresh
  closes _ := false

def hungUp : Entry := (⟨5, 27, pollhup⟩, ⟨.client, -1, some 0⟩)

def sent : Entry := (⟨6, 27, pollin⟩, ⟨.client, -1, some 1⟩)

def master : Entry := (⟨3, 3, pollin⟩, ⟨.master, -1, none⟩)

theorem behindMaster_distinct : ([master, hungUp, sent].map Entry.fd).Nodup := by decide

theorem atFront_distinct : ([hungUp, sent].map Entry.fd).Nodup := by decide

def behindMaster : PollTable := ⟨[master, hungUp, sent], cleared, behindMaster_distinct⟩

def atFront : PollTable := ⟨[hungUp, sent], cleared, atFront_distinct⟩

/-- The socket is asked for a second connection; at the front of the table the entry before it is
read. -/
theorem not_handledOnce_hungUp :
    (run (turn quietClients) 4 behindMaster.start).map LoopState.handled =
      .ok [⟨.accept, 3⟩, ⟨.hangUp, 5⟩, ⟨.accept, 3⟩, ⟨.message, 6⟩] ∧
    ¬HandledOnce quietClients behindMaster ∧
    run (turn quietClients) 3 atFront.start = .error .outOfBounds ∧
    ¬HandledOnce quietClients atFront := by
  have hrun : (run (turn quietClients) 4 behindMaster.start).map LoopState.handled =
      .ok [⟨.accept, 3⟩, ⟨.hangUp, 5⟩, ⟨.accept, 3⟩, ⟨.message, 6⟩] := rfl
  refine ⟨hrun, ?_, rfl, ?_⟩
  · rintro ⟨fuel, s, hs, hperm⟩
    obtain ⟨s', hs', hhandled⟩ := map_eq_ok hrun
    have hnodup := hperm.nodup_iff.mpr (by decide)
    rw [run_unique hs hs', hhandled] at hnodup
    exact absurd hnodup (by decide)
  · rintro ⟨_ | fuel, s, hs, -⟩
    · cases hs
    · cases hs

end MuMuDVB.FdEvents
