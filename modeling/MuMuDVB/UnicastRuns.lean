import MuMuDVB.UnicastDisconnect

/-!
# Runs of the HTTP server

The server as a transition system: listening sockets, connections, messages,
ends of connections, buffers that are sent to the clients of a channel, new
tables, and the autoconfiguration that sets up the channels again, in any order.
-/
namespace MuMuDVB.UnicastRuns

open CheckedMemory CheckedHeap LinkedList RecordedRun MuMuDVB.Channel MuMuDVB.UnicastHttp
open MuMuDVB.UnicastClients MuMuDVB.ChannelStatus MuMuDVB.ClientLists MuMuDVB.FdTable
open MuMuDVB.UnicastRegistry MuMuDVB.UnicastTimed MuMuDVB.UnicastDisconnect
open MuMuDVB.UnicastQueue (IsQueue)

inductive Event where
  /-- the master socket, with the descriptor that `makeTCPclientsocket` returns -/
  | listen (fd : Int)
  /-- an event on listening socket `i`, with the descriptor that `accept` returns -/
  | accept (i : Nat) (fd : Int)
  /-- an event on the socket of the client of entry `i` -/
  | message (i : Nat) (a : Arrival) (written : Bool)
  /-- `POLLHUP` or `POLLERR` on it -/
  | hangUp (i : Nat)
  /-- a full buffer of channel `i`, with `errno` as it is then -/
  | send (i : Nat) (p : TimedParameters) (buf : List UInt8) (inputs : Addr → ClientInput)
      (errno : Nat)
  /-- what the tables say about the channels, and new channels -/
  | tables (channels : List UnicastChannel)
  /-- `autoconf_update_chan_status`, then `update_chan_net` -/
  | update (auto : AutoP) (net : NetP)

def exec (s : UnicastVars) : Event → Checked UnicastVars
  | .listen fd => .ok (unicastCreateListeningSocket s .master (-1) fd)
  | .accept i fd => unicastAcceptConnection s i fd
  | .message i a written => unicastHandleClient s i a written
  | .hangUp i =>
    match s.pfds[i]? with
    | none => .error .outOfBounds
    | some fd => unicastCloseConnection s fd
  | .send i p buf inputs errno => (unicastDataSend p buf inputs s errno i).map Prod.fst
  | .tables channels => .ok { s with channels := channels }
  | .update auto net => .ok (updateChannels auto net s)

/-- The part of a channel that only the server writes. -/
def serverPart (channel : UnicastChannel) : Option Addr × Int := (channel.clients, channel.numClients)

/-- A descriptor that is not polled yet. -/
def Fresh (s : UnicastVars) (fd : Int) : Prop := fd ∉ s.pfds.take s.pfdsnum

/-- What the system and the loop over the descriptors guarantee: new descriptors are fresh, and an
event is handled according to the type of its entry. -/
def Enabled (s : UnicastVars) : Event → Prop
  | .listen fd => 0 < fd → Fresh s fd
  | .accept i fd => (∃ info ∈ s.fdInfo[i]?, info.type ≠ .client) ∧ Fresh s fd
  | .message i _ _ => ∃ info ∈ s.fdInfo[i]?, info.type = .client
  | .hangUp i => ∃ info ∈ s.fdInfo[i]?, info.type = .client
  | .send i _ _ _ _ => i < s.channels.length
  | .tables channels => channels.map serverPart =
      s.channels.map serverPart ++ List.replicate (channels.length - s.channels.length) (none, 0)
  | .update _ net => FreshSockets s net

def serverSystem : System UnicastVars Event where
  Initial s := ∃ channels maxClients, s = ⟨⟨[]⟩, ⟨[]⟩, none, 0, maxClients, [0], [], 0, channels⟩ ∧
    channels.map serverPart = List.replicate channels.length (none, 0)
  Step s e s' := Enabled s e ∧ exec s e = .ok s'

/-- What an event can fail for: a message that asks for a channel that does not exist, or the sends to
a client whose queue is a list. -/
def Outside (s : UnicastVars) : Event → Prop
  | .message i a _ => ∃ info ∈ s.fdInfo[i]?, ∃ client ∈ info.client, ∃ n,
      s.heap.read client = .ok n ∧ ∃ channel http,
        handleMessage (s.channels.map UnicastChannel.http) n.http a = .ok (.attach channel, http) ∧
          ¬ (0 ≤ channel ∧ channel < s.channels.length)
  | .send _ p buf inputs _ => ∃ a t es f, IsQueue t.state.heap t.state.client.queue es ∧
      sendToClientTimed p buf (inputs a) t = .error f
  | _ => False

/-- An update makes no channel ready that has clients. -/
def ReadiesEmpty (s : UnicastVars) : Event → Prop
  | .update auto _ => ∀ channel ∈ s.channels,
      (updateChanStatus auto channel).channelReady = .almostReady → channel.clients = none
  | _ => True

/-- The counter of every channel is the number of the members of its list, or exceeds it as it did
before. -/
def Counts (s : UnicastVars) (lists : Nat → List Addr) (s' : UnicastVars)
    (lists' : Nat → List Addr) : Prop :=
  ∀ i n, surplus s' lists' i = some n → n = 0 ∨ surplus s lists i = some n

variable {s s' : UnicastVars} {all : List Addr} {lists lists' : Nat → List Addr}
  {queued : Addr → List UnicastQueue.Element} {e : Event} {i : Nat}

theorem counts_of_eq (h : ∀ i, surplus s' lists' i = surplus s lists i) : Counts s lists s' lists' :=
  fun i _ hn => Or.inr ((h i).symm.trans hn)

/-- What one event does to a server whose bookkeeping is right. -/
inductive Outcome (s : UnicastVars) (lists : Nat → List Addr) (e : Event) : Prop where
  | fails (f : Fault) (error : exec s e = .error f) (outside : Outside s e)
  | returns (s' : UnicastVars) (all' : List Addr) (lists' : Nat → List Addr)
      (queued' : Addr → List UnicastQueue.Element) (ok : exec s e = .ok s')
      (kept : Kept s' all' lists' queued') (counts : ReadiesEmpty s e → Counts s lists s' lists')

theorem accept_outcome (hk : Kept s all lists queued) {fd : Int}
    (henabled : Enabled s (.accept i fd)) : Outcome s lists (.accept i fd) := by
  obtain ⟨⟨info, hinfo, _⟩, hfresh⟩ := henabled
  obtain ⟨s', all', queued', hok, hk', hsurplus⟩ := unicastAcceptConnection_spec hk hinfo hfresh
  exact .returns s' all' lists queued' hok hk' fun _ => counts_of_eq hsurplus

theorem hangUp_outcome (hk : Kept s all lists queued) (henabled : Enabled s (.hangUp i)) :
    Outcome s lists (.hangUp i) := by
  obtain ⟨info, hinfo, htype⟩ := henabled
  obtain ⟨client, c, hclient, hcore, hpfd⟩ := hk.sockets i info hinfo htype
  obtain ⟨s', hclose, hk', _, _, hsurplus⟩ :=
    unicastCloseConnection_spec hk (hk.toFds.mem hinfo htype hclient) hcore
  exact .returns s' _ _ queued (by rw [exec, hpfd]; exact hclose) hk' fun _ => counts_of_eq hsurplus

theorem send_outcome (hk : Kept s all lists queued) {p : TimedParameters} {buf : List UInt8}
    {inputs : Addr → ClientInput} {errno : Nat} (henabled : Enabled s (.send i p buf inputs errno)) :
    Outcome s lists (.send i p buf inputs errno) := by
  obtain ⟨hfault, hran⟩ := @unicastDataSend_spec p buf inputs _ _ _ _ hk _ henabled errno
  cases h : unicastDataSend p buf inputs s errno i with
  | error f =>
    obtain ⟨a, _, t, es, hq, herror⟩ := hfault f h
    exact .fails f (by rw [exec, h]; rfl) ⟨a, t, es, f, hq, herror⟩
  | ok r =>
    obtain ⟨all', lists', queued', hk', hsurplus⟩ := (hran r h).kept
    exact .returns r.1 all' lists' queued' (by rw [exec, h]; rfl) hk' fun _ => counts_of_eq hsurplus

theorem listen_outcome (hk : Kept s all lists queued) {fd : Int} (henabled : Enabled s (.listen fd)) :
    Outcome s lists (.listen fd) := by
  refine .returns _ all lists queued rfl (hk.listen (by simp) (-1) henabled) fun _ =>
    counts_of_eq fun i => ?_
  rw [unicastCreateListeningSocket]
  split <;> rfl

/-- The tables: a channel that is new has no clients. -/
theorem tables_outcome (hk : Kept s all lists queued) {channels : List UnicastChannel}
    (henabled : Enabled s (.tables channels)) : Outcome s lists (.tables channels) := by
  have henabled : channels.map serverPart = s.channels.map serverPart ++
    List.replicate (channels.length - s.channels.length) (none, 0) := henabled
  have hlen : s.channels.length ≤ channels.length := by
    have := congrArg List.length henabled
    simp only [List.length_map, List.length_append, List.length_replicate] at this
    omega
  have hpart : ∀ (i : Nat) channel, channels[i]? = some channel → serverPart channel =
      ((s.channels[i]?).map serverPart).getD (none, 0) := by
    intro i channel hchannel
    have hget := congrArg (fun l => l[i]?) henabled
    simp only [List.getElem?_map, hchannel, Option.map_some, List.getElem?_append, List.length_map] at hget
    split at hget
    case isTrue hlt => rw [← hget, Option.getD_some]
    case isFalse hge =>
      have hnone : s.channels[i]? = none := List.getElem?_eq_none (by omega)
      rw [List.getElem?_replicate] at hget
      split at hget
      · rw [hnone, Option.some.inj hget]
        rfl
      · cases hget
  refine .returns _ all lists queued rfl (hk.channels channels (fun i channel hchannel => ?_)
    fun i hnone => hk.range i (List.getElem?_eq_none ?_)) fun _ i n hn => ?_
  · have hclients := congrArg Prod.fst (hpart i channel hchannel)
    cases hold : s.channels[i]? with
    | none =>
      rw [hold] at hclients
      rw [hk.range i hold]
      exact hclients
    | some old =>
      rw [hold] at hclients
      rw [← hk.chanHead i old hold]
      exact hclients
  · have := List.getElem?_eq_none_iff.mp hnone
    omega
  · obtain ⟨channel, hchannel, hn⟩ := Option.map_eq_some_iff.mp hn
    have hnumber := congrArg Prod.snd (hpart i channel hchannel)
    change channel.numClients = _ at hnumber
    cases hold : s.channels[i]? with
    | none =>
      rw [hold] at hnumber
      rw [hnumber, hk.range i hold] at hn
      exact Or.inl hn.symm
    | some old =>
      rw [hold] at hnumber
      right
      rw [surplus, hold, Option.map_some, ← hn, hnumber]
      rfl

theorem update_outcome (hk : Kept s all lists queued) {auto : AutoP} {net : NetP}
    (henabled : Enabled s (.update auto net)) : Outcome s lists (.update auto net) := by
  obtain ⟨hk', hsurplus⟩ := updateChannels_spec hk auto henabled
  refine .returns _ all lists queued rfl hk' fun hempty i n hn => ?_
  have hempty : ∀ channel ∈ s.channels, (updateChanStatus auto channel).channelReady = .almostReady →
    channel.clients = none := hempty
  rw [hsurplus i] at hn
  obtain ⟨channel, hchannel, hn⟩ := Option.map_eq_some_iff.mp hn
  rw [numClientsAfter] at hn
  split at hn
  case isTrue hready =>
    have hnone := hempty channel (List.mem_of_getElem? hchannel) hready
    rw [hk.chanHead i channel hchannel, List.head?_eq_none_iff] at hnone
    rw [hnone] at hn
    exact Or.inl hn.symm
  case isFalse =>
    rw [(updateChanStatus_server auto channel).2] at hn
    exact Or.inr (by rw [surplus, hchannel, Option.map_some, hn])

theorem message_outcome (hk : Kept s all lists queued) {a : Arrival} {written : Bool}
    (henabled : Enabled s (.message i a written)) : Outcome s lists (.message i a written) := by
  obtain ⟨info, hinfo, htype⟩ := henabled
  obtain ⟨client, c, hclient, hcore, hpfd⟩ := hk.sockets i info hinfo htype
  obtain ⟨n, hread, rfl⟩ := read_coreOf hcore
  by_cases hrange : ∀ channel http, handleMessage (s.channels.map UnicastChannel.http) n.http a =
      .ok (.attach channel, http) → 0 ≤ channel ∧ channel < s.channels.length
  · obtain ⟨s', all', lists', hok, hk', hsurplus⟩ := unicastHandleClient_spec hk hinfo htype a written
      fun client' c' hclient' hcore' => by
        rw [hclient, Option.some.injEq] at hclient'
        rw [← hclient', hcore, Except.ok.injEq] at hcore'
        rw [← hcore']
        exact hrange
    exact .returns s' all' lists' queued hok hk' fun _ => counts_of_eq hsurplus
  · push Not at hrange
    obtain ⟨channel, http, hhandle, hout⟩ := hrange
    refine .fails .outOfBounds ?_ ⟨info, hinfo, client, hclient, n, hread, channel, http, hhandle,
      fun h => absurd (hout h.1) (by omega)⟩
    obtain ⟨h', hwrite, _⟩ := Heap.write_ok hread { n with http := http }
    rw [exec, unicastHandleClient, hpfd, hinfo, Option.bind_some, hclient]
    dsimp only
    rw [hread, bind_ok, hhandle, bind_ok]
    dsimp only
    rw [hwrite, bind_ok]
    show attachClient _ _ client channel written = _
    rw [attachClient]
    split
    · rfl
    · rw [channelAddUnicastClient]
      dsimp only
      rw [List.getElem?_eq_none (by omega)]
      rfl

theorem event_outcome (hk : Kept s all lists queued) (henabled : Enabled s e) :
    Outcome s lists e := by
  cases e with
  | listen fd => exact listen_outcome hk henabled
  | accept i fd => exact accept_outcome hk henabled
  | message i a written => exact message_outcome hk henabled
  | hangUp i => exact hangUp_outcome hk henabled
  | send i p buf inputs errno => exact send_outcome hk henabled
  | tables channels => exact tables_outcome hk henabled
  | update auto net => exact update_outcome hk henabled

/-- At the start there are no clients. -/
theorem initial_kept (hstart : serverSystem.Initial s) :
    Kept s [] (fun _ => []) (fun _ => []) ∧ ∀ i n, surplus s (fun _ => []) i = some n → n = 0 := by
  obtain ⟨channels, maxClients, rfl, hparts⟩ := hstart
  have hpart : ∀ (i : Nat) channel, channels[i]? = some channel → serverPart channel = (none, 0) := by
    intro i channel hchannel
    have hmem : serverPart channel ∈ List.replicate channels.length (none, 0) :=
      hparts ▸ List.mem_map_of_mem (List.mem_of_getElem? hchannel)
    exact (List.mem_replicate.mp hmem).2
  refine ⟨⟨⟨chained_nil _, rfl, rfl, fun _ => chained_nil _, fun i channel hchannel =>
    congrArg Prod.fst (hpart i channel hchannel), fun i a => by simp, fun _ _ => rfl⟩,
    ⟨rfl, rfl, by simp, List.Perm.refl _, fun i info hinfo => by simp at hinfo⟩,
    ⟨fun a ha => by (cases ha), fun a ha => by (cases ha)⟩, fun a ha => by (cases ha)⟩,
    fun i n hn => ?_⟩
  obtain ⟨channel, hchannel, hn⟩ := Option.map_eq_some_iff.mp hn
  have hnumber : channel.numClients = 0 := congrArg Prod.snd (hpart i channel hchannel)
  rw [← hn, hnumber]
  rfl

/-- The bookkeeping is right in every state, and every event returns, unless it is one of those that
can fail. -/
theorem serverRun_kept {past : List Event} (hrun : Run serverSystem past s) :
    ∃ all lists queued, Kept s all lists queued ∧
      (∀ i j a, a ∈ lists i → a ∈ lists j → i = j) ∧
      ∀ e, Enabled s e → (∃ s', exec s e = .ok s') ∨ Outside s e := by
  have hkept : ∃ all lists queued, Kept s all lists queued := by
    refine hrun.invariant (P := fun _ s => ∃ all lists queued, Kept s all lists queued)
      (fun s hstart => ⟨_, _, _, (initial_kept hstart).1⟩) fun past s e s' hk hstep => ?_
    obtain ⟨all, lists, queued, hk⟩ := hk
    cases event_outcome hk hstep.1 with
    | fails f error _ => cases error.symm.trans hstep.2
    | returns s'' all' lists' queued' ok kept _ =>
      obtain rfl := Except.ok.inj (ok.symm.trans hstep.2)
      exact ⟨all', lists', queued', kept⟩
  obtain ⟨all, lists, queued, hk⟩ := hkept
  refine ⟨all, lists, queued, hk, fun i j a hi hj => hk.toLists.disjoint hi hj, fun e henabled => ?_⟩
  cases event_outcome hk henabled with
  | fails f _ outside => exact Or.inr outside
  | returns s' _ _ _ ok _ _ => exact Or.inl ⟨s', ok⟩

/-! ## The number of the clients -/

/-- `num_clients` of every channel is the number of the members of its list. -/
def Counted (s : UnicastVars) : Prop :=
  ∀ (i : Nat) channel, s.channels[i]? = some channel → ∃ as,
    membersFrom channelLinks (s.heap.blocks.length + 1) s.heap channel.clients = .ok as ∧
      channel.numClients = as.length

theorem counted_iff (hk : Kept s all lists queued) :
    Counted s ↔ ∀ i n, surplus s lists i = some n → n = 0 := by
  have hmembers : ∀ (i : Nat) channel, s.channels[i]? = some channel →
      membersFrom channelLinks (s.heap.blocks.length + 1) s.heap channel.clients =
        .ok (lists i) := by
    intro i channel hchannel
    have hlen := (hk.chanChain i).length_le
    rw [hk.chanHead i channel hchannel]
    exact (hk.chanChain i).membersFrom_eq (show lists i = [] ++ lists i from rfl) (by omega)
  constructor
  · intro h i n hn
    obtain ⟨channel, hchannel, hn⟩ := Option.map_eq_some_iff.mp hn
    obtain ⟨as, has, hcount⟩ := h i channel hchannel
    rw [hmembers i channel hchannel, Except.ok.injEq] at has
    rw [← hn, hcount, ← has]
    omega
  · intro h i channel hchannel
    refine ⟨lists i, hmembers i channel hchannel, ?_⟩
    have := h i (channel.numClients - (lists i).length) (by rw [surplus, hchannel]; rfl)
    omega

/-- The runs in which the counters are right after every step. -/
def countedSystem : System UnicastVars Event where
  Initial := serverSystem.Initial
  Step s e s' := serverSystem.Step s e s' ∧ Counted s'

theorem run_counted {past : List Event} (hrun : Run (serverSystem.restrict ReadiesEmpty) past s) :
    ∃ all lists queued, Kept s all lists queued ∧ ∀ i n, surplus s lists i = some n → n = 0 := by
  refine Run.invariant (P := fun _ s => ∃ all lists queued, Kept s all lists queued ∧
    ∀ i n, surplus s lists i = some n → n = 0) ?_ ?_ hrun
  · intro s hstart
    exact ⟨_, _, _, initial_kept hstart⟩
  · rintro past s e s' ⟨all, lists, queued, hk, hzero⟩ ⟨hempty, henabled, hexec⟩
    cases event_outcome hk henabled with
    | fails f error _ => cases error.symm.trans hexec
    | returns s'' all' lists' queued' ok kept counts =>
      obtain rfl := Except.ok.inj (ok.symm.trans hexec)
      exact ⟨all', lists', queued', kept, fun i n hn =>
        (counts hempty i n hn).elim id fun hold => hzero i n hold⟩

/-- After an update the counters are right only if no channel with clients became ready. -/
theorem readiesEmpty_of_counted (hk : Kept s all lists queued) (henabled : Enabled s e)
    (hexec : exec s e = .ok s') (hcounted : Counted s') : ReadiesEmpty s e := by
  cases e with
  | update auto net =>
    obtain rfl := Except.ok.inj hexec
    obtain ⟨hk', hsurplus⟩ := updateChannels_spec hk auto henabled
    intro channel hmem hready
    obtain ⟨i, hchannel⟩ := List.getElem?_of_mem hmem
    have hzero := (counted_iff hk').mp hcounted i
    rw [hsurplus i, hchannel] at hzero
    have hlen : numClientsAfter (updateChanStatus auto channel) - ((lists i).length : Int) = 0 :=
      hzero _ rfl
    rw [numClientsAfter, if_pos hready] at hlen
    rw [hk.chanHead i channel hchannel, List.head?_eq_none_iff, ← List.length_eq_zero_iff]
    omega
  | _ => trivial

/-- The counters are right after every step of a run if and only if no update makes a channel ready
that has clients. -/
theorem counted_run_iff (past : List Event) (s : UnicastVars) :
    Run (serverSystem.restrict ReadiesEmpty) past s ↔ Run countedSystem past s ∧ Counted s := by
  have hcounted : ∀ {past s}, Run (serverSystem.restrict ReadiesEmpty) past s → Counted s := by
    intro past s hrun
    obtain ⟨all, lists, queued, hk, hzero⟩ := run_counted hrun
    exact (counted_iff hk).mpr hzero
  have hsame : Run (serverSystem.restrict ReadiesEmpty) past s ↔ Run countedSystem past s := by
    refine run_congr ?_ (fun past s e s' hrun _ => ⟨fun hstep => ?_, fun hstep => ?_⟩) past s
    · rfl
    · exact ⟨hstep.2, hcounted (.next hrun hstep)⟩
    · obtain ⟨all, lists, queued, hk, _⟩ := run_counted hrun
      exact ⟨readiesEmpty_of_counted hk hstep.1.1 hstep.1.2 hstep.2, hstep.1⟩
  exact ⟨fun hrun => ⟨hsame.mp hrun, hcounted hrun⟩, fun h => hsame.mpr h.1⟩

/-! ## Computed runs -/

instance (s : UnicastVars) (fd : Int) : Decidable (Fresh s fd) :=
  inferInstanceAs (Decidable (fd ∉ s.pfds.take s.pfdsnum))

instance (s : UnicastVars) (net : NetP) : Decidable (FreshSockets s net) :=
  decidable_of_iff ((∀ i < s.channels.length, 0 < net.socket i →
      net.socket i ∉ s.pfds.take s.pfdsnum) ∧
    ∀ i < s.channels.length, ∀ j < s.channels.length, i ≠ j → 0 < net.socket i →
      net.socket i ≠ net.socket j) ⟨fun h => ⟨h.1, h.2⟩, fun h => ⟨h.1, h.2⟩⟩

instance (s : UnicastVars) : (e : Event) → Decidable (Enabled s e)
  | .listen fd => inferInstanceAs (Decidable (0 < fd → Fresh s fd))
  | .accept i fd => inferInstanceAs
      (Decidable ((∃ info ∈ s.fdInfo[i]?, info.type ≠ .client) ∧ Fresh s fd))
  | .message i _ _ => inferInstanceAs (Decidable (∃ info ∈ s.fdInfo[i]?, info.type = .client))
  | .hangUp i => inferInstanceAs (Decidable (∃ info ∈ s.fdInfo[i]?, info.type = .client))
  | .send i _ _ _ _ => inferInstanceAs (Decidable (i < s.channels.length))
  | .tables channels => inferInstanceAs (Decidable (channels.map serverPart =
      s.channels.map serverPart ++
        List.replicate (channels.length - s.channels.length) (none, 0)))
  | .update _ net => inferInstanceAs (Decidable (FreshSockets s net))

/-- The state after these events, when each is possible. -/
def follow : UnicastVars → List Event → Checked (Option UnicastVars)
  | s, [] => .ok (some s)
  | s, e :: es =>
    if Enabled s e then do
      let s ← exec s e
      follow s es
    else .ok none

theorem run_follow {past es : List Event} (hrun : Run serverSystem past s)
    (hfollow : follow s es = .ok (some s')) : Run serverSystem (es.reverse ++ past) s' := by
  induction es generalizing s past with
  | nil =>
    cases hfollow
    exact hrun
  | cons e es ih =>
    rw [follow] at hfollow
    split at hfollow
    case isTrue henabled =>
      obtain ⟨s₁, hexec, hfollow⟩ := bind_eq_ok.mp hfollow
      rw [List.reverse_cons, List.append_assoc]
      exact ih (.next hrun ⟨henabled, hexec⟩) hfollow
    case isFalse => cases hfollow

def start : UnicastVars := ⟨⟨[]⟩, ⟨[]⟩, none, 0, 0, [0], [], 0,
  [⟨⟨1, CString.bytes "TV"⟩, none, 0, .ready, .detected, false, 100, 1, 0, .undef, 0⟩]⟩

theorem initial_start : serverSystem.Initial start := ⟨_, _, rfl, by decide⟩

def request : Arrival := arrive "GET /bynumber/1 HTTP/1.0\r\n\r\n"

/-- Two clients of the channel, and the first one leaves. -/
def session : List Event :=
  [.listen 4, .accept 0 5, .accept 0 6, .message 1 request true, .message 2 request true, .hangUp 1]

theorem session_kept : ∃ s, follow start session = .ok (some s) ∧ s.clientNumber = 1 ∧
    ∃ all lists queued, Kept s all lists queued ∧
      (∀ i j a, a ∈ lists i → a ∈ lists j → i = j) ∧
      ∀ e, Enabled s e → (∃ s', exec s e = .ok s') ∨ Outside s e := by
  have h : (follow start session).map (fun r => r.map UnicastVars.clientNumber) =
      .ok (some 1) := by decide +kernel
  obtain ⟨r, hr, hnumber⟩ := map_eq_ok h
  obtain ⟨s, rfl, hone⟩ := Option.map_eq_some_iff.mp hnumber
  exact ⟨s, hr, hone, serverRun_kept (run_follow (.start initial_start) hr)⟩

/-- The tables have changed, and the channel is set up again. -/
def again : Event := .update ⟨false, false, [], []⟩ ⟨true, none, fun _ => 0⟩

/-- A client of a channel is not counted any more after an update. -/
theorem not_counted_again : ∃ past s, Run serverSystem past s ∧ ¬ Counted s := by
  have h : (follow start [.listen 4, .accept 0 5, .message 1 request true, again]).map
      (fun r => r.bind fun s => (s.channels[0]?).map fun channel => (channel.numClients,
        membersFrom channelLinks (s.heap.blocks.length + 1) s.heap channel.clients)) =
      .ok (some (0, .ok [0])) := by decide +kernel
  obtain ⟨r, hr, h⟩ := map_eq_ok h
  obtain ⟨s, rfl, h⟩ := Option.bind_eq_some_iff.mp h
  obtain ⟨channel, hchannel, h⟩ := Option.map_eq_some_iff.mp h
  obtain ⟨hnumber, hmembers⟩ := Prod.mk.inj h
  refine ⟨_, s, run_follow (.start initial_start) hr, fun hcounted => ?_⟩
  obtain ⟨as, has, hcount⟩ := hcounted 0 channel hchannel
  rw [hmembers, Except.ok.injEq] at has
  rw [hnumber, ← has] at hcount
  exact absurd hcount (by decide)

end MuMuDVB.UnicastRuns
