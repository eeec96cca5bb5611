import MuMuDVB.ChannelStatus
import MuMuDVB.FdTable
import MuMuDVB.UnicastSplit

/-!
# The bookkeeping of the clients

The lists of the clients, the two arrays of descriptors and the queues describe
the same clients. Each operation changes several of them; the invariant is kept
by each, and it is what makes each of them return.
-/
namespace MuMuDVB.UnicastRegistry

open CheckedMemory CheckedHeap LinkedList RecordedRun MuMuDVB.Channel MuMuDVB.UnicastHttp
open MuMuDVB.UnicastQueue (Element IsQueue footprint)
open MuMuDVB.UnicastSplit (Sound handleMessage_sound)
open MuMuDVB.UnicastClients MuMuDVB.ChannelStatus MuMuDVB.ClientLists MuMuDVB.FdTable

/-- The queues of the clients `all`: each is a list of elements of its own. -/
structure Queues (s : UnicastVars) (all : List Addr) (queued : Addr → List Element) : Prop where
  queue : ∀ a ∈ all, ∀ c, coreOf s.heap a = .ok c →
    IsQueue s.blocks c.sending.queue (queued a)
  apart : ∀ a ∈ all, ∀ b ∈ all, a ≠ b → (footprint (queued a)).Disjoint (footprint (queued b))

/-- A client that waits for the channel of its socket has none yet, and its buffer is sound. -/
structure Regular (http : HttpClient) : Prop where
  idle : http.askedChannel ≠ -1 → http.chanPtr = none
  sound : Sound http

/-- The bookkeeping is right. -/
structure Kept (s : UnicastVars) (all : List Addr) (lists : Nat → List Addr)
    (queued : Addr → List Element) : Prop extends
    Lists s all lists, Fds s all, Queues s all queued where
  regular : ∀ a ∈ all, ∀ c, coreOf s.heap a = .ok c → Regular c.http

variable {s s' : UnicastVars} {all : List Addr} {lists : Nat → List Addr}
  {queued : Addr → List Element} {a client : Addr} {c : Core} {fd : Int}

theorem regular_newClient (asked : Int) :
    Regular { UnicastHttp.newClient with askedChannel := asked } :=
  ⟨fun _ => rfl, fun cells hcells => by (cases hcells), fun _ => rfl, Nat.le_refl 0⟩

/-- The clients that are left keep their queues when only another one's blocks change. -/
theorem Queues.frame {rest : List Addr} {own : List Addr} (hq : Queues s all queued)
    (hsub : ∀ b ∈ rest, b ∈ all ∧ b ≠ a) (ha : a ∈ all)
    (hcore : ∀ b ∈ rest, coreOf s'.heap b = coreOf s.heap b)
    (ht : Transfers s.blocks (footprint (queued a)) s'.blocks own)
    (hread : ∀ b ∈ rest, ∃ c, coreOf s.heap b = .ok c) :
    Queues s' rest queued ∧ ∀ b ∈ rest, (footprint (queued b)).Disjoint own := by
  have hapart : ∀ b ∈ rest, (∀ p ∈ footprint (queued b), s'.blocks.read p = s.blocks.read p) ∧
      (footprint (queued b)).Disjoint own := by
    intro b hb
    obtain ⟨c, hc⟩ := hread b hb
    exact ht.apart (hq.queue b (hsub b hb).1 c hc).allocated
      (hq.apart b (hsub b hb).1 a ha (hsub b hb).2)
  refine ⟨⟨fun b hb c hc => ?_, fun b hb b' hb' => hq.apart b (hsub b hb).1 b' (hsub b' hb').1⟩,
    fun b hb => (hapart b hb).2⟩
  rw [hcore b hb] at hc
  exact (hq.queue b (hsub b hb).1 c hc).congr (hapart b hb).1

/-- A client is found by its socket, and goes. -/
theorem unicastCloseConnection_spec (hk : Kept s all lists queued) (ha : a ∈ all)
    (hcore : coreOf s.heap a = .ok c) :
    ∃ s', unicastCloseConnection s c.socket = .ok s' ∧
      Kept s' (all.erase a) (without lists a) queued ∧
      (∀ b, b ≠ a → coreOf s'.heap b = coreOf s.heap b) ∧
      s'.heap.read a = .error .released ∧
      ∀ i, surplus s' (without lists a) i = surplus s lists i := by
  obtain ⟨i, info, c', hinfo, htype, hclient, hc', hpfd⟩ := hk.toFds.entry ha
  rw [hcore, Except.ok.injEq] at hc'
  subst hc'
  have hlt : i < s.pfdsnum := by
    rw [← hk.fdInfo]
    exact (List.getElem?_eq_some_iff.mp hinfo).1
  have hfound : (s.pfds.take s.pfdsnum).findIdx? (· == c.socket) = some i := by
    rw [List.findIdx?_eq_some_iff_getElem]
    have hget : ∀ j (hj : j < (s.pfds.take s.pfdsnum).length),
        (s.pfds.take s.pfdsnum)[j] = c.socket → j = i := by
      intro j hj heq
      refine (List.getElem?_inj hj hk.distinct).mp ?_
      rw [List.getElem?_eq_getElem hj, heq, List.getElem?_take_of_lt hlt, hpfd]
    have hlen : i < (s.pfds.take s.pfdsnum).length := by
      rw [List.length_take, hk.pfds]
      omega
    have hself : (s.pfds.take s.pfdsnum)[i] = c.socket := by
      rw [← Option.some.injEq, ← List.getElem?_eq_getElem hlen, List.getElem?_take_of_lt hlt, hpfd]
    refine ⟨hlen, by rw [hself, beq_self_eq_true], fun j hji heq => ?_⟩
    have := hget j (by omega) (beq_iff_eq.mp heq)
    omega
  obtain ⟨n, hread, rfl⟩ := read_coreOf hcore
  obtain ⟨xs, ys, rfl⟩ := List.append_of_mem ha
  obtain ⟨blocks, queue, hclear, _, htransfer⟩ := (hk.queue a ha _ hcore).clear
  obtain ⟨s₁, hdel, hlists, hsame, hreleased, hsurplus, hframe⟩ :=
    unicastDelClient_spec hk.toLists hread hclear
  have hnodup := hk.chain.nodup
  rw [erase_middle hnodup]
  have hne : ∀ b ∈ xs ++ ys, b ∈ xs ++ a :: ys ∧ b ≠ a := by
    intro b hb
    have hb' : b ∈ (xs ++ a :: ys).erase a := by rwa [erase_middle hnodup]
    exact ⟨List.mem_of_mem_erase hb', ((List.Nodup.mem_erase_iff hnodup).mp hb').1⟩
  obtain ⟨s₂, hmove, hfds, hframe₂⟩ := hk.toFds.moveLastFd hinfo htype hclient
    (List.perm_middle : (xs ++ a :: ys).Perm (a :: (xs ++ ys)))
    (show s₁.pfds = s.pfds by rw [hframe]) (by rw [hframe]) (by rw [hframe])
    fun b _ hba => hsame b hba
  have hcore₂ : ∀ b, b ≠ a → coreOf s₂.heap b = coreOf s.heap b := by
    intro b hb
    rw [hframe₂]
    exact hsame b hb
  have hqueues : Queues s₂ (xs ++ ys) queued := (hk.toQueues.frame hne ha
    (fun b hb => hcore₂ b (hne b hb).2) (by
    rw [hframe₂, hframe]
    exact htransfer) fun b hb => by
      obtain ⟨m, hm⟩ := hk.chain.read (hne b hb).1
      exact ⟨_, coreOf_read hm⟩).1
  refine ⟨s₂, ?_, ⟨?_, hfds, hqueues, fun b hb c hc => ?_⟩, hcore₂, by rw [hframe₂]; exact hreleased,
    fun i => ?_⟩
  · rw [unicastCloseConnection, hfound]
    dsimp only
    rw [hinfo, Option.bind_some, hclient]
    dsimp only
    rw [hdel, bind_ok, hmove]
  · rw [hframe₂]
    exact ⟨hlists.chain, hlists.head, hlists.number, hlists.chanChain, hlists.chanHead,
      hlists.members, hlists.range⟩
  · rw [hcore₂ b (hne b hb).2] at hc
    exact hk.regular b (hne b hb).1 c hc
  · rw [← hsurplus i, hframe₂]
    rfl

/-- A client that keeps its links, its socket and its channel; its queue is another list. -/
theorem Kept.rewritten {n n' : Client} {h' : Heap Client} {blocks : Heap UnicastQueue.Block}
    {es : List Element} (hk : Kept s all lists queued) (ha : a ∈ all)
    (hread : s.heap.read a = .ok n) (hself : h'.read a = .ok n')
    (hothers : ∀ b, b ≠ a → h'.read b = s.heap.read b) (hlinks : SameLinks n n')
    (hsocket : n'.socket = n.socket) (hptr : n'.http.chanPtr = n.http.chanPtr)
    (hregular : Regular n'.http) (hq : IsQueue blocks n'.sending.queue es)
    (ht : Transfers s.blocks (footprint (queued a)) blocks (footprint es)) :
    Kept { s with heap := h', blocks := blocks } all lists (Function.update queued a es) := by
  have hl := hk.toLists.rewritten hread hself hothers hlinks hptr
  have hcore : ∀ b, b ≠ a → coreOf h' b = coreOf s.heap b := fun b hb => by
    rw [coreOf, coreOf, hothers b hb]
  have hself' : Function.update queued a es a = es := Function.update_self _ _ _
  have hother : ∀ b, b ≠ a → Function.update queued a es b = queued b := fun b hb =>
    Function.update_of_ne hb _ _
  have hapart : ∀ b ∈ all, b ≠ a → (∀ p ∈ footprint (queued b), blocks.read p = s.blocks.read p) ∧
      (footprint (queued b)).Disjoint (footprint es) := by
    intro b hb hne
    obtain ⟨m, hm⟩ := hk.chain.read hb
    exact ht.apart (hk.queue b hb _ (coreOf_read hm)).allocated (hk.apart b hb a ha hne)
  refine ⟨⟨hl.chain, hl.head, hl.number, hl.chanChain, hl.chanHead, hl.members, hl.range⟩,
    hk.toFds.congr rfl rfl rfl fun b _ c hc => ?_, ⟨fun b hb c hc => ?_,
      fun b hb b' hb' hne => ?_⟩, fun b hb c hc => ?_⟩
  · by_cases hb : b = a
    · subst hb
      rw [coreOf_read hread, Except.ok.injEq] at hc
      exact ⟨core n', coreOf_read hself, by rw [← hc]; exact hsocket⟩
    · exact ⟨c, (hcore b hb).trans hc, rfl⟩
  · change coreOf h' b = .ok c at hc
    by_cases hba : b = a
    · subst hba
      rw [coreOf_read hself, Except.ok.injEq] at hc
      rw [hself', ← hc]
      exact hq
    · rw [hcore b hba] at hc
      rw [hother b hba]
      exact (hk.queue b hb c hc).congr (hapart b hb hba).1
  · by_cases hba : b = a
    · subst hba
      rw [hself', hother b' (Ne.symm hne)]
      exact fun p hp hp' => (hapart b' hb' (Ne.symm hne)).2 hp' hp
    · rw [hother b hba]
      by_cases hb'a : b' = a
      · subst hb'a
        rw [hself']
        exact (hapart b hb hba).2
      · rw [hother b' hb'a]
        exact hk.apart b hb b' hb' hne
  · change coreOf h' b = .ok c at hc
    by_cases hba : b = a
    · subst hba
      rw [coreOf_read hself, Except.ok.injEq] at hc
      rw [← hc]
      exact hregular
    · rw [hcore b hba] at hc
      exact hk.regular b hb c hc

/-- Only the messages of a client change. -/
theorem Kept.modify_http (hk : Kept s all lists queued) (hcore : coreOf s.heap a = .ok c)
    (ha : a ∈ all) (f : HttpClient → HttpClient) (hptr : (f c.http).chanPtr = c.http.chanPtr)
    (hregular : Regular (f c.http)) :
    ∃ h', modify s.heap a (fun n => { n with http := f n.http }) = .ok h' ∧
      Kept { s with heap := h' } all lists queued ∧
      coreOf h' a = .ok { c with http := f c.http } := by
  obtain ⟨n, hread, rfl⟩ := read_coreOf hcore
  obtain ⟨h', hmodify, hself, hothers⟩ := modify_ok hread fun n => { n with http := f n.http }
  have hk' := hk.rewritten ha hread hself hothers ⟨rfl, rfl, rfl, rfl⟩ rfl hptr hregular
    (hk.queue a ha _ hcore) (Transfers.refl _ _)
  rw [Function.update_eq_self] at hk'
  exact ⟨h', hmodify, hk', coreOf_read hself⟩

/-- A new client with its descriptor. -/
theorem Kept.addClient (hk : Kept s all lists queued) (hfresh : fd ∉ s.pfds.take s.pfdsnum) :
    ∃ client s₁, unicastAddClient s fd = .ok (client, s₁) ∧ client ∉ all ∧
      Kept (s₁.addFd fd ⟨.client, -1, some client⟩) (all ++ [client]) lists
        (Function.update queued client []) ∧
      coreOf s₁.heap client = .ok (core (newClient fd)) ∧
      ∀ i, surplus s₁ lists i = surplus s lists i := by
  obtain ⟨client, s₁, hadd, hnew, hlists, hcore, hothers, hframe⟩ :=
    unicastAddClient_spec hk.toLists fd
  have hpfds : s₁.pfds = s.pfds ∧ s₁.fdInfo = s.fdInfo ∧ s₁.pfdsnum = s.pfdsnum := by
    rw [hframe]
    exact ⟨rfl, rfl, rfl⟩
  have hfds : Fds s₁ all := hk.toFds.congr hpfds.1 hpfds.2.1 hpfds.2.2 fun b hb c hc =>
    ⟨c, by rw [hothers b hb, hc], rfl⟩
  have hblocks : s₁.blocks = s.blocks := by rw [hframe]
  have hupdate : ∀ b ∈ all, Function.update queued client [] b = queued b := fun b hb =>
    Function.update_of_ne (ne_of_mem_of_not_mem hb hnew) _ _
  have hself : Function.update queued client [] client = [] := Function.update_self _ _ _
  refine ⟨client, s₁, hadd, hnew, ⟨⟨hlists.chain, hlists.head, hlists.number, hlists.chanChain,
    hlists.chanHead, hlists.members, hlists.range⟩, ?_, ⟨fun b hb c hc => ?_,
      fun b hb b' hb' hne => ?_⟩, fun b hb c hc => ?_⟩, hcore, fun i => by rw [surplus, hframe]; rfl⟩
  · exact hfds.addFd (by rw [hpfds.1, hpfds.2.2]; exact hfresh) fun _ => ⟨client, _, rfl, hcore, rfl⟩
  · change coreOf s₁.heap b = .ok c at hc
    show IsQueue s₁.blocks _ _
    rw [hblocks]
    rcases List.mem_append.mp hb with hb | hb
    · rw [hupdate b hb]
      exact hk.queue b hb c (by rw [← hothers b hb, hc])
    · obtain rfl := List.mem_singleton.mp hb
      rw [hcore, Except.ok.injEq] at hc
      rw [hself, ← hc]
      exact UnicastQueue.isQueue_empty _
  · rcases List.mem_append.mp hb with hb | hb
    · rcases List.mem_append.mp hb' with hb' | hb'
      · rw [hupdate b hb, hupdate b' hb']
        exact hk.apart b hb b' hb' hne
      · rw [List.mem_singleton.mp hb', hself]
        exact List.disjoint_nil_right _
    · rw [List.mem_singleton.mp hb, hself]
      exact List.disjoint_nil_left _
  · change coreOf s₁.heap b = .ok c at hc
    rcases List.mem_append.mp hb with hb | hb
    · exact hk.regular b hb c (by rw [← hothers b hb, hc])
    · obtain rfl := List.mem_singleton.mp hb
      rw [hcore, Except.ok.injEq] at hc
      rw [← hc]
      exact regular_newClient (-1)

/-- A connection that is accepted, or one too many. -/
theorem unicastAcceptConnection_spec (hk : Kept s all lists queued) {i : Nat} {info : FdInfo}
    (hinfo : s.fdInfo[i]? = some info) (hfresh : fd ∉ s.pfds.take s.pfdsnum) :
    ∃ s' all' queued', unicastAcceptConnection s i fd = .ok s' ∧ Kept s' all' lists queued' ∧
      ∀ i, surplus s' lists i = surplus s lists i := by
  rw [unicastAcceptConnection, hinfo]
  dsimp only
  by_cases hmany : 0 < s.maxClients ∧ s.maxClients ≤ s.clientNumber
  · rw [if_pos hmany]
    exact ⟨s, all, queued, rfl, hk, fun _ => rfl⟩
  · obtain ⟨client, s₁, hadd, hnew, hk₁, hcore, hsurplus⟩ := hk.addClient hfresh
    rw [if_neg hmany, hadd, bind_ok]
    dsimp only
    split
    · obtain ⟨h', hmodify, hk', _⟩ := hk₁.modify_http hcore (by simp)
        (fun http => { http with askedChannel := info.channel }) rfl (regular_newClient info.channel)
      rw [hmodify]
      exact ⟨_, _, _, rfl, hk', hsurplus⟩
    · exact ⟨_, _, _, rfl, hk₁, hsurplus⟩

/-- A client gets a channel, or is closed because the reply could not be written. -/
theorem attachClient_spec (hk : Kept s all lists queued) (ha : a ∈ all)
    (hcore : coreOf s.heap a = .ok c) (hnone : c.http.chanPtr = none)
    (hasked : c.http.askedChannel = -1) {channel : Int} (written : Bool)
    (hrange : 0 ≤ channel ∧ channel < s.channels.length) :
    ∃ s' all' lists', attachClient s c.socket a channel written = .ok s' ∧
      Kept s' all' lists' queued ∧ ∀ i, surplus s' lists' i = surplus s lists i := by
  obtain ⟨chan, hchan⟩ : ∃ chan, s.channels[channel.toNat]? = some chan :=
    ⟨_, List.getElem?_eq_getElem (by omega)⟩
  rw [attachClient, if_neg (by omega)]
  cases written with
  | true =>
    obtain ⟨s₁, h', hadd, hmodify, hlists, hself, hothers, hsurplus, hframe⟩ :=
      channelAddUnicastClient_spec hk.toLists ha hcore hnone hchan
    have hcases : ∀ b c', coreOf h' b = .ok c' → ∃ c₀, coreOf s.heap b = .ok c₀ ∧
        c'.sending = c₀.sending ∧ c'.socket = c₀.socket ∧ (Regular c₀.http → Regular c'.http) := by
      intro b c' hc'
      by_cases hb : b = a
      · rw [hb, hself, Except.ok.injEq] at hc'
        rw [hb, ← hc']
        exact ⟨c, hcore, rfl, rfl, fun hregular => ⟨fun hne => absurd hasked hne, hregular.sound.fits,
          hregular.sound.none, hregular.sound.pos⟩⟩
      · rw [hothers b hb] at hc'
        exact ⟨c', hc', rfl, rfl, id⟩
    rw [hadd, bind_ok]
    dsimp only
    rw [if_pos rfl, hmodify]
    refine ⟨_, all, joined lists a channel.toNat, rfl, ⟨hlists, hk.toFds.congr (by rw [hframe])
      (by rw [hframe]) (by rw [hframe]) fun b _ c₀ hc₀ => ?_, ⟨fun b hb c' hc' => ?_, hk.apart⟩,
        fun b hb c' hc' => ?_⟩, hsurplus⟩
    · by_cases hb : b = a
      · rw [hb, hcore, Except.ok.injEq] at hc₀
        exact ⟨_, by rw [hb]; exact hself, by rw [← hc₀]⟩
      · exact ⟨c₀, (hothers b hb).trans hc₀, rfl⟩
    · obtain ⟨c₀, hc₀, hsending, _⟩ := hcases b c' hc'
      rw [hsending, show s₁.blocks = s.blocks by rw [hframe]]
      exact hk.queue b hb c₀ hc₀
    · obtain ⟨c₀, hc₀, _, _, hregular⟩ := hcases b c' hc'
      exact hregular (hk.regular b hb c₀ hc₀)
  | false =>
    obtain ⟨s', hclose, hk', _, _, hsurplus⟩ := unicastCloseConnection_spec hk ha hcore
    rw [channelAddUnicastClient, hchan]
    exact ⟨s', _, _, hclose, hk', hsurplus⟩

/-- A message of a client: the call returns, unless the channel that is asked for does not exist. -/
theorem unicastHandleClient_spec (hk : Kept s all lists queued) {i : Nat} {info : FdInfo}
    (hinfo : s.fdInfo[i]? = some info) (htype : info.type = .client) (arrival : Arrival)
    (written : Bool)
    (hrange : ∀ client c, info.client = some client → coreOf s.heap client = .ok c →
      ∀ channel http, handleMessage (s.channels.map UnicastChannel.http) c.http arrival =
        .ok (.attach channel, http) → 0 ≤ channel ∧ channel < s.channels.length) :
    ∃ s' all' lists', unicastHandleClient s i arrival written = .ok s' ∧
      Kept s' all' lists' queued ∧ ∀ i, surplus s' lists' i = surplus s lists i := by
  obtain ⟨client, c, hclient, hcore, hpfd⟩ := hk.sockets i info hinfo htype
  have hmem : client ∈ all := hk.toFds.mem hinfo htype hclient
  have hregular := hk.regular client hmem c hcore
  obtain ⟨action, http, hhandle, hsound⟩ :=
    handleMessage_sound (s.channels.map UnicastChannel.http) hregular.sound arrival
  obtain ⟨hptr, hasked⟩ := handleMessage_frame hhandle
  obtain ⟨h', hmodify, hk₁, hself⟩ := hk.modify_http hcore hmem (fun _ => http) hptr
    ⟨fun hne => by
      rw [hptr]
      rcases hasked with hasked | hasked
      · exact hregular.idle (hasked ▸ hne)
      · exact absurd hasked hne, hsound⟩
  obtain ⟨n, hread, rfl⟩ := read_coreOf hcore
  have hwrite : s.heap.write client { n with http := http } = .ok h' := by
    rw [LinkedList.modify, hread] at hmodify
    exact hmodify
  have hclose : ∃ s' all' lists', unicastCloseConnection { s with heap := h' } n.socket = .ok s' ∧
      Kept s' all' lists' queued ∧ ∀ i, surplus s' lists' i = surplus s lists i := by
    obtain ⟨s', hclose, hk', _, _, hsurplus⟩ := unicastCloseConnection_spec hk₁ hmem hself
    exact ⟨s', _, _, hclose, hk', hsurplus⟩
  rw [unicastHandleClient, hpfd, hinfo, Option.bind_some, hclient]
  dsimp only
  rw [hread, bind_ok, show n.http = (core n).http from rfl, hhandle, bind_ok]
  dsimp only
  rw [hwrite, bind_ok]
  cases action with
  | attach channel =>
    obtain ⟨hwaits, hnone⟩ := handleMessage_attach hhandle hregular.idle
    exact attachClient_spec hk₁ hmem hself (hptr.trans hnone) hwaits written
      (hrange client _ hclient hcore channel http hhandle)
  | send reply => exact hclose
  | hangUp => exact hclose
  | wait => exact ⟨_, all, lists, rfl, hk₁, fun _ => rfl⟩
  | fail => exact ⟨_, all, lists, rfl, hk₁, fun _ => rfl⟩
  | refuse => exact ⟨_, all, lists, rfl, hk₁, fun _ => rfl⟩
  | done => exact ⟨_, all, lists, rfl, hk₁, fun _ => rfl⟩

/-! ## Channels and listening sockets -/

/-- The channels may change in all that is not about clients, and there may be new ones. -/
theorem Kept.channels (hk : Kept s all lists queued) (channels : List UnicastChannel)
    (hclients : ∀ i channel, channels[i]? = some channel → channel.clients = (lists i).head?)
    (hrange : ∀ i, channels[i]? = none → lists i = []) :
    Kept { s with channels := channels } all lists queued :=
  ⟨⟨hk.chain, hk.head, hk.number, hk.chanChain, hclients, hk.members, hrange⟩,
    ⟨hk.pfds, hk.fdInfo, hk.distinct, hk.entries, hk.sockets⟩, ⟨hk.queue, hk.apart⟩, hk.regular⟩

theorem Kept.listen (hk : Kept s all lists queued) {type : FdType} (htype : type ≠ .client)
    (channel : Int) (hfresh : 0 < fd → fd ∉ s.pfds.take s.pfdsnum) :
    Kept (unicastCreateListeningSocket s type channel fd) all lists queued := by
  rw [unicastCreateListeningSocket]
  split
  case isTrue hfd =>
    have hfds : Fds (s.addFd fd ⟨type, channel, none⟩) (all ++ (ofClient ⟨type, channel, none⟩).toList) :=
      hk.toFds.addFd (hfresh hfd) fun h => absurd h htype
    rw [ofClient_other htype, Option.toList_none, List.append_nil] at hfds
    exact ⟨⟨hk.chain, hk.head, hk.number, hk.chanChain, hk.chanHead, hk.members, hk.range⟩, hfds,
      ⟨hk.queue, hk.apart⟩, hk.regular⟩
  case isFalse => exact hk

/-- The descriptors that are polled, after a listening socket. -/
theorem mem_polled_listen (hk : Kept s all lists queued) {type : FdType} {channel fd' : Int}
    (hmem : fd' ∈ (unicastCreateListeningSocket s type channel fd).pfds.take
      (unicastCreateListeningSocket s type channel fd).pfdsnum) :
    fd' ∈ s.pfds.take s.pfdsnum ∨ (0 < fd ∧ fd' = fd) := by
  rw [unicastCreateListeningSocket] at hmem
  split at hmem
  case isTrue hfd =>
    rw [show (s.addFd fd ⟨type, channel, none⟩).pfds.take (s.addFd fd ⟨type, channel, none⟩).pfdsnum =
      s.pfds.take s.pfdsnum ++ [fd] from hk.toFds.polled_addFd fd _] at hmem
    rcases List.mem_append.mp hmem with hmem | hmem
    · exact Or.inl hmem
    · exact Or.inr ⟨hfd, List.mem_singleton.mp hmem⟩
  case isFalse => exact Or.inl hmem

/-- A channel that keeps its clients. -/
theorem Kept.setChannel (hk : Kept s all lists queued) {i : Nat} {channel channel' : UnicastChannel}
    (hchannel : s.channels[i]? = some channel) (hsame : channel'.clients = channel.clients) :
    Kept { s with channels := s.channels.set i channel' } all lists queued := by
  refine hk.channels _ (forall_set hchannel ?_ fun j chan _ => hk.chanHead j chan) fun j hnone => ?_
  · rw [hsame]
    exact hk.chanHead i channel hchannel
  · rw [List.getElem?_eq_none_iff, List.length_set, ← List.getElem?_eq_none_iff] at hnone
    exact hk.range j hnone

variable {net : NetP} {i : Nat}

/-- The counter of a channel after its network has been set. -/
def numClientsAfter (channel : UnicastChannel) : Int :=
  if channel.channelReady = .almostReady then 0 else channel.numClients

/-- The network of one channel: it keeps its clients and loses their number when it becomes ready. -/
theorem updateChannelNet_spec (hk : Kept s all lists queued)
    (hfresh : 0 < net.socket i → net.socket i ∉ s.pfds.take s.pfdsnum) :
    Kept (updateChannelNet net s i) all lists queued ∧
      (∀ fd ∈ (updateChannelNet net s i).pfds.take (updateChannelNet net s i).pfdsnum,
        fd ∈ s.pfds.take s.pfdsnum ∨ (0 < net.socket i ∧ fd = net.socket i)) ∧
      (∀ j, j ≠ i → (updateChannelNet net s i).channels[j]? = s.channels[j]?) ∧
      ((updateChannelNet net s i).channels[i]?).map UnicastChannel.numClients =
        (s.channels[i]?).map numClientsAfter := by
  rw [updateChannelNet]
  cases hchannel : s.channels[i]? with
  | none => exact ⟨hk, fun fd hfd => Or.inl hfd, fun _ _ => rfl, by rw [hchannel]; rfl⟩
  | some channel =>
    have hlt := (List.getElem?_eq_some_iff.mp hchannel).1
    have hset : ∀ {channel' : UnicastChannel} {cs : List UnicastChannel}, cs = s.channels →
        channel'.numClients = 0 → channel.channelReady = .almostReady →
        (∀ j, j ≠ i → (cs.set i channel')[j]? = s.channels[j]?) ∧
        ((cs.set i channel')[i]?).map UnicastChannel.numClients =
          (some channel).map numClientsAfter := by
      intro channel' cs hcs hzero hready
      subst hcs
      refine ⟨fun j hj => List.getElem?_set_ne (Ne.symm hj), ?_⟩
      rw [List.getElem?_set_self hlt, Option.map_some, Option.map_some, numClientsAfter,
        if_pos hready, hzero]
    dsimp only
    split
    case isTrue hready =>
      split
      · have hlisten := hk.listen (show FdType.listenChannel ≠ .client by simp) i hfresh
        have hsame : (unicastCreateListeningSocket s .listenChannel i (net.socket i)).channels =
            s.channels := by
          rw [unicastCreateListeningSocket]
          split <;> rfl
        have hat : (unicastCreateListeningSocket s .listenChannel i (net.socket i)).channels[i]? =
            some channel := by rw [hsame, hchannel]
        refine ⟨hlisten.setChannel hat rfl,
          fun fd hfd => mem_polled_listen hk hfd, hset hsame rfl hready⟩
      · exact ⟨hk.setChannel hchannel rfl, fun fd hfd => Or.inl hfd, hset rfl rfl hready⟩
    case isFalse hready =>
      refine ⟨hk, fun fd hfd => Or.inl hfd, fun _ _ => rfl, ?_⟩
      rw [hchannel, Option.map_some, Option.map_some, numClientsAfter, if_neg hready]

/-- The descriptors that `makeTCPclientsocket` returns in one update. -/
structure FreshSockets (s : UnicastVars) (net : NetP) : Prop where
  fresh : ∀ i < s.channels.length, 0 < net.socket i → net.socket i ∉ s.pfds.take s.pfdsnum
  apart : ∀ i < s.channels.length, ∀ j < s.channels.length, i ≠ j → 0 < net.socket i →
    net.socket i ≠ net.socket j

/-- The networks of some channels. The induction is on the channels that are still to come. -/
theorem foldl_updateChannelNet {ids : List Nat} (hnodup : ids.Nodup)
    (hapart : ∀ i ∈ ids, ∀ j ∈ ids, i ≠ j → 0 < net.socket i → net.socket i ≠ net.socket j) :
    ∀ {s : UnicastVars}, Kept s all lists queued →
      (∀ i ∈ ids, 0 < net.socket i → net.socket i ∉ s.pfds.take s.pfdsnum) →
      Kept (ids.foldl (updateChannelNet net) s) all lists queued ∧
      ∀ i, ((ids.foldl (updateChannelNet net) s).channels[i]?).map UnicastChannel.numClients =
        (s.channels[i]?).map fun channel =>
          if i ∈ ids then numClientsAfter channel else channel.numClients := by
  induction ids with
  | nil =>
    intro s hk _
    exact ⟨hk, fun i => by simp⟩
  | cons j ids ih =>
    intro s hk hfresh
    rw [List.nodup_cons] at hnodup
    obtain ⟨hk₁, hpolled, hothers, hself⟩ := updateChannelNet_spec hk (hfresh j List.mem_cons_self)
    obtain ⟨hk', hnumbers⟩ := ih hnodup.2 (fun i hi k hk => hapart i (List.mem_cons_of_mem _ hi) k
        (List.mem_cons_of_mem _ hk)) hk₁ fun i hi hpos hmem => by
      rcases hpolled _ hmem with hmem | ⟨_, heq⟩
      · exact hfresh i (List.mem_cons_of_mem _ hi) hpos hmem
      · exact hapart i (List.mem_cons_of_mem _ hi) j List.mem_cons_self
          (ne_of_mem_of_not_mem hi hnodup.1) hpos heq
    refine ⟨hk', fun i => ?_⟩
    rw [List.foldl_cons, hnumbers i]
    by_cases hij : i = j
    · subst hij
      simp only [hnodup.1, if_false, List.mem_cons_self, if_true]
      exact hself
    · rw [hothers i hij]
      simp [hij]

/-- After new tables, the channels that become ready have lost the number of their clients. -/
theorem updateChannels_spec (hk : Kept s all lists queued) (auto : AutoP)
    (hfresh : FreshSockets s net) : Kept (updateChannels auto net s) all lists queued ∧
      ∀ i, surplus (updateChannels auto net s) lists i = (s.channels[i]?).map fun channel =>
        numClientsAfter (updateChanStatus auto channel) - (lists i).length := by
  have hk₁ : Kept { s with channels := autoconfUpdateChanStatus auto s.channels } all lists queued := by
    refine hk.channels _ (fun i channel' hchannel' => ?_) fun i hnone => ?_
    · rw [autoconfUpdateChanStatus, List.getElem?_map] at hchannel'
      obtain ⟨channel, hchannel, rfl⟩ := Option.map_eq_some_iff.mp hchannel'
      rw [(updateChanStatus_server auto channel).1, hk.chanHead i channel hchannel]
    · rw [autoconfUpdateChanStatus, List.getElem?_map, Option.map_eq_none_iff] at hnone
      exact hk.range i hnone
  have hrange : ∀ i ∈ List.range (autoconfUpdateChanStatus auto s.channels).length,
      i < s.channels.length := by
    intro i hi
    rw [List.mem_range, autoconfUpdateChanStatus, List.length_map] at hi
    exact hi
  obtain ⟨hk', hnumbers⟩ := foldl_updateChannelNet List.nodup_range
    (fun i hi j hj => hfresh.apart i (hrange i hi) j (hrange j hj)) hk₁
    fun i hi => hfresh.fresh i (hrange i hi)
  refine ⟨hk', fun i => ?_⟩
  have hmap : surplus (updateChannels auto net s) lists i =
      (((updateChannels auto net s).channels[i]?).map UnicastChannel.numClients).map
        fun number => number - ((lists i).length : Int) := by
    rw [surplus, Option.map_map]
    rfl
  rw [hmap, updateChannels, updateChanNet, hnumbers i]
  dsimp only
  rw [autoconfUpdateChanStatus, List.getElem?_map, Option.map_map, Option.map_map]
  cases hchannel : s.channels[i]? with
  | none => rfl
  | some channel =>
    have hlt := (List.getElem?_eq_some_iff.mp hchannel).1
    rw [Option.map_some, Option.map_some, Option.some.injEq]
    dsimp only [Function.comp]
    rw [if_pos (by rw [List.length_map]; exact List.mem_range.mpr hlt)]

end MuMuDVB.UnicastRegistry
