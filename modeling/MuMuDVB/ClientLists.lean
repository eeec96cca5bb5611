import MuMuDVB.UnicastClients

/-!
# The lists of the clients

A client is in the list of all clients and, with a channel, in the list of that
channel, and in no other one. The operations on clients change several lists and
counters at once; what else a client is stays.
-/
namespace MuMuDVB.ClientLists

open CheckedMemory CheckedHeap LinkedList MuMuDVB.UnicastHttp MuMuDVB.UnicastClients
open MuMuDVB.UnicastQueue (unicastQueueClear)

/-- What a client is apart from its links. -/
structure Core where
  socket : Int
  http : HttpClient
  sending : UnicastSend.UnicastClient
  firstErrorTime : Int

def core (n : Client) : Core := ⟨n.socket, n.http, n.sending, n.firstErrorTime⟩

def coreOf (h : Heap Client) (a : Addr) : Checked Core := (h.read a).map core

/-- The two kinds of lists, for the clients `all` and those of each channel. -/
structure Lists (s : UnicastVars) (all : List Addr) (lists : Nat → List Addr) : Prop where
  chain : Chained clientLinks s.heap all
  head : s.clients = all.head?
  number : s.clientNumber = all.length
  chanChain : ∀ i, Chained channelLinks s.heap (lists i)
  chanHead : ∀ i channel, s.channels[i]? = some channel → channel.clients = (lists i).head?
  members : ∀ i a, a ∈ lists i ↔ a ∈ all ∧ ∃ c, coreOf s.heap a = .ok c ∧ c.http.chanPtr = some i
  range : ∀ i, s.channels[i]? = none → lists i = []

variable {s s' : UnicastVars} {all : List Addr} {lists : Nat → List Addr} {a client : Addr}
  {h h' : Heap Client} {n : Client} {c : Core}

theorem coreOf_read (hread : h.read a = .ok n) : coreOf h a = .ok (core n) := by
  rw [coreOf, hread]
  rfl

theorem read_coreOf (hcore : coreOf h a = .ok c) : ∃ n, h.read a = .ok n ∧ core n = c :=
  map_eq_ok hcore

/-- Neither kind of links is part of it. -/
theorem coreOf_sameBut_client (hsame : SameBut clientLinks h h') (a : Addr) :
    coreOf h' a = coreOf h a := hsame _ core ⟨fun _ _ => rfl, fun _ _ => rfl⟩ a

theorem coreOf_sameBut_channel (hsame : SameBut channelLinks h h') (a : Addr) :
    coreOf h' a = coreOf h a := hsame _ core ⟨fun _ _ => rfl, fun _ _ => rfl⟩ a

theorem chained_channel {as : List Addr} (hsame : SameBut clientLinks h h')
    (hc : Chained channelLinks h as) : Chained channelLinks h' as :=
  hc.sameBut hsame ⟨fun _ _ => rfl, fun _ _ => rfl⟩ ⟨fun _ _ => rfl, fun _ _ => rfl⟩

theorem chained_client {as : List Addr} (hsame : SameBut channelLinks h h')
    (hc : Chained clientLinks h as) : Chained clientLinks h' as :=
  hc.sameBut hsame ⟨fun _ _ => rfl, fun _ _ => rfl⟩ ⟨fun _ _ => rfl, fun _ _ => rfl⟩

/-- The clients of a channel are clients, and of no other channel. -/
theorem Lists.subset (hl : Lists s all lists) {i : Nat} (ha : a ∈ lists i) : a ∈ all :=
  ((hl.members i a).mp ha).1

theorem Lists.disjoint (hl : Lists s all lists) {i j : Nat} (hi : a ∈ lists i) (hj : a ∈ lists j) :
    i = j := by
  obtain ⟨_, c, hc, hptr⟩ := (hl.members i a).mp hi
  obtain ⟨_, c', hc', hptr'⟩ := (hl.members j a).mp hj
  rw [hc, Except.ok.injEq] at hc'
  rw [← hc', hptr, Option.some.injEq] at hptr'
  exact hptr'

theorem alloc_chained {L : Links Client} {as : List Addr} (hc : Chained L h as) (n : Client) :
    Chained L (h.alloc n).2 as :=
  hc.frame fun _ _ _ hread => ⟨_, Heap.read_alloc_of_ok hread n, rfl, rfl⟩

/-- A new client is the last one of all, and has no channel. -/
theorem unicastAddClient_spec (hl : Lists s all lists) (socket : Int) :
    ∃ client s', unicastAddClient s socket = .ok (client, s') ∧ client ∉ all ∧
      Lists s' (all ++ [client]) lists ∧ coreOf s'.heap client = .ok (core (newClient socket)) ∧
      (∀ a ∈ all, coreOf s'.heap a = coreOf s.heap a) ∧
      s' = { s with heap := s'.heap, clients := s'.clients, clientNumber := s'.clientNumber } := by
  obtain ⟨client, h₁, halloc⟩ : ∃ client h₁, s.heap.alloc (newClient socket) = (client, h₁) :=
    ⟨_, _, rfl⟩
  have hclient : (s.heap.alloc (newClient socket)).1 = client := by rw [halloc]
  have hheap : (s.heap.alloc (newClient socket)).2 = h₁ := by rw [halloc]
  have hfresh : client ∉ all := by
    intro hmem
    obtain ⟨n, hread⟩ := hl.chain.read hmem
    exact s.heap.alloc_fresh (newClient socket) n (by rw [hclient, hread])
  have hnew : h₁.read client = .ok (newClient socket) := by
    have hread := s.heap.read_alloc (newClient socket)
    rwa [hclient, hheap] at hread
  have hkept : ∀ a ∈ all, h₁.read a = s.heap.read a := by
    intro a ha
    obtain ⟨n, hread⟩ := hl.chain.read ha
    rw [← hheap, Heap.read_alloc_of_ok hread, hread]
  have hchain₁ : Chained clientLinks h₁ all := hheap ▸ alloc_chained hl.chain (newClient socket)
  obtain ⟨h₂, happend, hchain, hsame, _⟩ := append_spec hchain₁ hfresh hnew
  have hcore : ∀ a ∈ all, coreOf h₂ a = coreOf s.heap a := by
    intro a ha
    rw [coreOf_sameBut_client hsame, coreOf, coreOf, hkept a ha]
  have hcoreNew : coreOf h₂ client = .ok (core (newClient socket)) := by
    rw [coreOf_sameBut_client hsame, coreOf_read hnew]
  refine ⟨client, { s with
    heap := h₂
    clients := (all ++ [client]).head?
    clientNumber := s.clientNumber + 1 }, ?_, hfresh, ⟨hchain, rfl, ?_, fun i => ?_, hl.chanHead,
      fun i a => ?_, hl.range⟩, hcoreNew, hcore, rfl⟩
  · rw [unicastAddClient, halloc]
    dsimp only
    rw [hl.head, happend]
    rfl
  · rw [List.length_append, List.length_singleton, hl.number]
    rfl
  · exact chained_channel hsame (hheap ▸ alloc_chained (hl.chanChain i) (newClient socket))
  · rw [hl.members, List.mem_append, List.mem_singleton]
    constructor
    · rintro ⟨ha, c, hc, hptr⟩
      exact ⟨Or.inl ha, c, by rw [hcore a ha, hc], hptr⟩
    · rintro ⟨ha | rfl, c, hc, hptr⟩
      · exact ⟨ha, c, by rw [← hcore a ha, hc], hptr⟩
      · rw [hcoreNew, Except.ok.injEq] at hc
        rw [← hc] at hptr
        cases hptr

/-- By how much the counter of a channel exceeds the length of its list. -/
def surplus (s : UnicastVars) (lists : Nat → List Addr) (i : Nat) : Option Int :=
  (s.channels[i]?).map fun channel => channel.numClients - (lists i).length

/-- The list of a channel without a client. -/
def without (lists : Nat → List Addr) (client : Addr) (i : Nat) : List Addr := (lists i).erase client

theorem erase_middle {us vs : List Addr} (hnodup : (us ++ client :: vs).Nodup) :
    (us ++ client :: vs).erase client = us ++ vs := by
  have hus : client ∉ us := fun hmem =>
    (List.nodup_append.mp hnodup).2.2 client hmem client List.mem_cons_self rfl
  rw [List.erase_append_right _ hus, List.erase_cons_head]

/-- One channel gets another list, and its head and its counter with it. -/
theorem channels_rewired {t : UnicastVars} {lists' : Nat → List Addr} {i : Nat}
    {channel channel' : UnicastChannel} (hchannel : s.channels[i]? = some channel)
    (ht : t.channels = s.channels.set i channel') (hclients : channel'.clients = (lists' i).head?)
    (hnumber : channel'.numClients - (lists' i).length = channel.numClients - (lists i).length)
    (hsame : ∀ j, j ≠ i → lists' j = lists j)
    (hhead : ∀ j c, s.channels[j]? = some c → c.clients = (lists j).head?)
    (hrange : ∀ j, s.channels[j]? = none → lists j = []) :
    (∀ j c, t.channels[j]? = some c → c.clients = (lists' j).head?) ∧
      (∀ j, t.channels[j]? = none → lists' j = []) ∧
      ∀ j, surplus t lists' j = surplus s lists j := by
  have hself : t.channels[i]? = some channel' := by
    rw [ht]
    exact List.getElem?_set_self (List.getElem?_eq_some_iff.mp hchannel).1
  have hother : ∀ j, j ≠ i → t.channels[j]? = s.channels[j]? := fun j hj => by
    rw [ht, List.getElem?_set_ne (Ne.symm hj)]
  refine ⟨fun j c hc => ?_, fun j hnone => ?_, fun j => ?_⟩
  · by_cases hj : j = i
    · subst hj
      cases hself.symm.trans hc
      exact hclients
    · rw [hother j hj] at hc
      rw [hsame j hj]
      exact hhead j c hc
  · by_cases hj : j = i
    · subst hj
      cases hself.symm.trans hnone
    · rw [hother j hj] at hnone
      rw [hsame j hj]
      exact hrange j hnone
  · by_cases hj : j = i
    · subst hj
      rw [surplus, surplus, hself, hchannel, Option.map_some, Option.map_some, hnumber]
    · rw [surplus, surplus, hother j hj, hsame j hj]

/-- A client leaves the list of its channel. -/
theorem channelDelClient_spec (hchain : ∀ i, Chained channelLinks s.heap (lists i))
    (hhead : ∀ i channel, s.channels[i]? = some channel → channel.clients = (lists i).head?)
    (hrange : ∀ i, s.channels[i]? = none → lists i = [])
    (hdisjoint : ∀ i j a, a ∈ lists i → a ∈ lists j → i = j)
    (hmem : ∀ i, client ∈ lists i ↔ n.http.chanPtr = some i) (hread : s.heap.read client = .ok n) :
    ∃ s', channelDelClient s n = .ok s' ∧
      (∀ i, Chained channelLinks s'.heap (without lists client i)) ∧
      (∀ i channel, s'.channels[i]? = some channel →
        channel.clients = (without lists client i).head?) ∧
      (∀ i, s'.channels[i]? = none → without lists client i = []) ∧
      (∀ i, surplus s' (without lists client) i = surplus s lists i) ∧
      SameBut channelLinks s.heap s'.heap ∧ s'.heap.read client = .ok n ∧
      s' = { s with heap := s'.heap, channels := s'.channels } := by
  cases hptr : n.http.chanPtr with
  | none =>
    have hsame : without lists client = lists := by
      funext i
      exact List.erase_of_not_mem fun hin => by
        rw [hmem, hptr] at hin
        cases hin
    rw [hsame]
    refine ⟨s, by rw [channelDelClient, hptr], hchain, hhead, hrange, fun _ => rfl,
      SameBut.refl _ _, hread, rfl⟩
  | some i =>
    have hin : client ∈ lists i := (hmem i).mpr hptr
    obtain ⟨us, vs, hsplit⟩ := List.append_of_mem hin
    cases hchannel : s.channels[i]? with
    | none =>
      rw [hrange i hchannel] at hin
      cases hin
    | some channel =>
      have hchainI := hchain i
      rw [hsplit] at hchainI
      obtain ⟨h₁, hunlink, hchain₁, hsame₁, hothers₁⟩ := unlink_spec hchainI hread
      have herase : without lists client i = us ++ vs := by
        rw [without, hsplit, erase_middle hchainI.nodup]
      have hother : ∀ j, j ≠ i → client ∉ lists j := by
        intro j hj hin'
        rw [hmem, hptr, Option.some.injEq] at hin'
        exact hj hin'.symm
      have hsameList : ∀ j, j ≠ i → without lists client j = lists j := fun j hj =>
        List.erase_of_not_mem (hother j hj)
      obtain ⟨t, ht⟩ : ∃ t : UnicastVars, t = { s with
        heap := h₁
        channels := s.channels.set i { channel with
          clients := (us ++ vs).head?
          numClients := channel.numClients - 1 } } := ⟨_, rfl⟩
      have hnumber : channel.numClients - 1 - ((without lists client i).length : Int) =
          channel.numClients - (lists i).length := by
        rw [herase, hsplit, List.length_append, List.length_append, List.length_cons]
        push_cast
        omega
      obtain ⟨hheads, hranges, hsurplus⟩ := channels_rewired (t := t) hchannel (by rw [ht])
        (by rw [herase]) hnumber hsameList hhead hrange
      refine ⟨t, ?_, fun j => ?_, hheads, hranges, hsurplus, by rw [ht]; exact hsame₁, ?_,
        by rw [ht]⟩
      · rw [channelDelClient, hptr]
        dsimp only
        rw [hchannel]
        dsimp only
        rw [hhead i channel hchannel, hsplit, hunlink, ht]
        rfl
      · rw [ht]
        by_cases hj : j = i
        · rw [hj, herase]
          exact hchain₁
        · rw [hsameList j hj]
          refine (hchain j).frame fun a ha m hread' => ⟨m, ?_, rfl, rfl⟩
          rw [hothers₁ a fun hin' => hj (hdisjoint j i a ha ?_), hread']
          rw [hsplit]
          rcases List.mem_append.mp hin' with hin' | hin'
          · exact List.mem_append_left _ hin'
          · exact List.mem_append_right _ (List.mem_cons_of_mem _ hin')
      · rw [ht, hothers₁ client, hread]
        intro hin'
        have hnodup := hchainI.nodup
        rcases List.mem_append.mp hin' with hin' | hin'
        · exact (List.nodup_append.mp hnodup).2.2 client hin' client List.mem_cons_self rfl
        · exact (List.nodup_cons.mp (List.nodup_append.mp hnodup).2.1).1 hin'

/-- A client that is deleted leaves both lists, and the others stay as they are. -/
theorem unicastDelClient_spec {xs ys : List Addr} (hl : Lists s (xs ++ client :: ys) lists)
    (hread : s.heap.read client = .ok n)
    {blocks : Heap UnicastQueue.Block} {queue : UnicastQueue.QueueHeader}
    (hclear : unicastQueueClear (n.sending.queue.packetsInQueue + 1) s.blocks n.sending.queue =
      .ok (blocks, queue)) :
    ∃ s', unicastDelClient s client = .ok s' ∧ Lists s' (xs ++ ys) (without lists client) ∧
      (∀ a, a ≠ client → coreOf s'.heap a = coreOf s.heap a) ∧
      s'.heap.read client = .error .released ∧
      (∀ i, surplus s' (without lists client) i = surplus s lists i) ∧
      s' = { s with
        heap := s'.heap
        blocks := blocks
        clients := s'.clients
        clientNumber := s'.clientNumber
        channels := s'.channels } := by
  obtain ⟨h₁, hunlink, hchain₁, hsame₁, hothers₁⟩ := unlink_spec hl.chain hread
  have hnotin : client ∉ xs ++ ys := by
    have hnodup := hl.chain.nodup
    intro hin
    rcases List.mem_append.mp hin with hin | hin
    · exact (List.nodup_append.mp hnodup).2.2 client hin client List.mem_cons_self rfl
    · exact (List.nodup_cons.mp (List.nodup_append.mp hnodup).2.1).1 hin
  have hread₁ : h₁.read client = .ok n := by rw [hothers₁ client hnotin, hread]
  obtain ⟨s₂, hdel, hchain₂, hhead₂, hrange₂, hsurplus, hsame₂, hread₂, hframe₂⟩ :=
    @channelDelClient_spec { s with heap := h₁, clients := (xs ++ ys).head? } lists client n
      (fun i => chained_channel hsame₁ (hl.chanChain i)) hl.chanHead hl.range
      (fun i j a hi hj => hl.disjoint hi hj) (fun i => by
        rw [hl.members, coreOf_read hread]
        exact ⟨fun ⟨_, c, hc, hptr⟩ => by rw [← hptr, ← Except.ok.inj hc]; rfl,
          fun hptr => ⟨by simp, _, rfl, hptr⟩⟩) hread₁
  obtain ⟨h₃, hfree, hreleased, hothers₃⟩ := Heap.free_ok hread₂
  have hcore : ∀ a, a ≠ client → coreOf h₃ a = coreOf s.heap a := by
    intro a hne
    rw [coreOf, hothers₃ a hne]
    exact (coreOf_sameBut_channel hsame₂ a).trans (coreOf_sameBut_client hsame₁ a)
  have hwithout : ∀ i a, a ∈ without lists client i ↔ a ≠ client ∧ a ∈ lists i := fun i a =>
    (hl.chanChain i).nodup.mem_erase_iff
  refine ⟨{ s₂ with heap := h₃, blocks := blocks, clientNumber := s₂.clientNumber - 1 }, ?_,
    ⟨?_, ?_, ?_, fun i => ?_, hhead₂, fun i a => ?_, hrange₂⟩, hcore, hreleased, hsurplus, ?_⟩
  · have hblocks : s₂.blocks = s.blocks := by rw [hframe₂]
    rw [unicastDelClient, hread, bind_ok, hl.head, hunlink, bind_ok]
    dsimp only
    rw [hdel, bind_ok, hblocks, hclear, bind_ok]
    dsimp only
    rw [hfree]
    rfl
  · exact (chained_client hsame₂ hchain₁).apart hnotin hothers₃
  · rw [hframe₂]
  · rw [hframe₂]
    dsimp only
    rw [hl.number, List.length_append, List.length_append, List.length_cons]
    push_cast
    omega
  · exact (hchain₂ i).apart (fun hin => ((hwithout i client).mp hin).1 rfl) hothers₃
  · rw [hwithout, hl.members]
    dsimp only
    constructor
    · rintro ⟨hne, ha, hptr⟩
      have ha' : a ∈ xs ++ ys := by simpa [hne] using ha
      exact ⟨ha', by rw [hcore a hne]; exact hptr⟩
    · rintro ⟨ha', hptr⟩
      have hne := ne_of_mem_of_not_mem ha' hnotin
      rw [hcore a hne] at hptr
      exact ⟨hne, by rcases List.mem_append.mp ha' with h | h <;> simp [h], hptr⟩
  · rw [hframe₂]

/-- A client that keeps its links. -/
structure SameLinks (n n' : Client) : Prop where
  next : n'.next = n.next
  prev : n'.prev = n.prev
  chanNext : n'.chanNext = n.chanNext
  chanPrev : n'.chanPrev = n.chanPrev

/-- The lists stay when a client is written that keeps its links. -/
theorem chained_rewritten {n' : Client} (hread : h.read client = .ok n)
    (hself : h'.read client = .ok n') (hothers : ∀ a, a ≠ client → h'.read a = h.read a)
    (hlinks : SameLinks n n') :
    (∀ as, Chained clientLinks h as → Chained clientLinks h' as) ∧
      ∀ as, Chained channelLinks h as → Chained channelLinks h' as := by
  have hlinked : ∀ a m, h.read a = .ok m → ∃ m', h'.read a = .ok m' ∧ SameLinks m m' := by
    intro a m hm
    by_cases ha : a = client
    · subst ha
      rw [hread, Except.ok.injEq] at hm
      exact ⟨n', hself, hm ▸ hlinks⟩
    · exact ⟨m, by rw [hothers a ha, hm], rfl, rfl, rfl, rfl⟩
  refine ⟨fun as hc => hc.frame fun a _ m hm => ?_, fun as hc => hc.frame fun a _ m hm => ?_⟩
  · obtain ⟨m', hm', hsame⟩ := hlinked a m hm
    exact ⟨m', hm', hsame.next, hsame.prev⟩
  · obtain ⟨m', hm', hsame⟩ := hlinked a m hm
    exact ⟨m', hm', hsame.chanNext, hsame.chanPrev⟩

/-- A client that keeps its channel too. -/
theorem Lists.rewritten {n' : Client} (hl : Lists s all lists) (hread : s.heap.read client = .ok n)
    (hself : h'.read client = .ok n') (hothers : ∀ a, a ≠ client → h'.read a = s.heap.read a)
    (hlinks : SameLinks n n') (hptr : n'.http.chanPtr = n.http.chanPtr) :
    Lists { s with heap := h' } all lists := by
  obtain ⟨hclients, hchannels⟩ := chained_rewritten hread hself hothers hlinks
  refine ⟨hclients _ hl.chain, hl.head, hl.number, fun i => hchannels _ (hl.chanChain i),
    hl.chanHead, fun i a => ?_, hl.range⟩
  rw [hl.members]
  by_cases ha : a = client
  · subst ha
    simp only [coreOf_read hself, coreOf_read hread, Except.ok.injEq, exists_eq_left', core, hptr]
  · rw [coreOf, coreOf, hothers a ha]

/-- The lists after a client has got a channel. -/
def joined (lists : Nat → List Addr) (client : Addr) (i : Nat) : Nat → List Addr :=
  Function.update lists i (lists i ++ [client])

/-- A client without a channel is added to one. -/
theorem channelAddUnicastClient_spec {i : Nat} {channel : UnicastChannel}
    (hl : Lists s all lists) (hclient : client ∈ all) (hcore : coreOf s.heap client = .ok c)
    (hnone : c.http.chanPtr = none) (hchannel : s.channels[i]? = some channel) :
    ∃ s₁ h', channelAddUnicastClient s client i true = .ok (true, s₁) ∧
      modify s₁.heap client (fun n => { n with http := { n.http with chanPtr := some i } }) =
        .ok h' ∧
      Lists { s₁ with heap := h' } all (joined lists client i) ∧
      coreOf h' client = .ok { c with http := { c.http with chanPtr := some i } } ∧
      (∀ a, a ≠ client → coreOf h' a = coreOf s.heap a) ∧
      (∀ j, surplus { s₁ with heap := h' } (joined lists client i) j = surplus s lists j) ∧
      s₁ = { s with heap := s₁.heap, channels := s₁.channels } := by
  obtain ⟨n, hread, rfl⟩ := read_coreOf hcore
  have hnotin : ∀ j, client ∉ lists j := by
    intro j hin
    obtain ⟨_, c', hc', hptr⟩ := (hl.members j client).mp hin
    rw [hcore, Except.ok.injEq] at hc'
    rw [← hc', hnone] at hptr
    cases hptr
  obtain ⟨h₁, happend, hchain₁, hsame₁, hothers₁⟩ :=
    append_spec (hl.chanChain i) (hnotin i) hread
  obtain ⟨n₁, hread₁, hcore₁⟩ := read_coreOf ((coreOf_sameBut_channel hsame₁ client).trans hcore)
  obtain ⟨h', hmodify, hself, hothers⟩ := modify_ok hread₁
    fun n => { n with http := { n.http with chanPtr := some i } }
  obtain ⟨hclients, hchannels⟩ := chained_rewritten hread₁ hself hothers
    ⟨rfl, rfl, rfl, rfl⟩
  have hself' : coreOf h' client = .ok { core n with http := { (core n).http with
      chanPtr := some i } } := by
    rw [coreOf_read hself, ← hcore₁]
    rfl
  have hothers' : ∀ a, a ≠ client → coreOf h' a = coreOf s.heap a := fun a ha => by
    rw [coreOf, hothers a ha]
    exact coreOf_sameBut_channel hsame₁ a
  have hjoined : joined lists client i i = lists i ++ [client] := Function.update_self i _ lists
  have hother : ∀ j, j ≠ i → joined lists client i j = lists j := fun j hj =>
    Function.update_of_ne hj _ lists
  obtain ⟨channel', hnew⟩ : ∃ channel' : UnicastChannel, { channel with
      clients := (lists i ++ [client]).head?
      numClients := channel.numClients + 1 } = channel' := ⟨_, rfl⟩
  have hnumber : channel'.numClients - ((joined lists client i i).length : Int) =
      channel.numClients - (lists i).length := by
    rw [hjoined, ← hnew, List.length_append, List.length_singleton]
    push_cast
    omega
  obtain ⟨hheads, hranges, hsurplus⟩ := channels_rewired
    (t := { s with heap := h', channels := s.channels.set i channel' }) hchannel rfl
    (by rw [hjoined, ← hnew]) hnumber hother hl.chanHead hl.range
  refine ⟨{ s with heap := h₁, channels := s.channels.set i channel' }, h', ?_, hmodify,
    ⟨hclients _ (chained_client hsame₁ hl.chain), hl.head, hl.number, fun j => hchannels _ ?_,
      hheads, fun j a => ?_, hranges⟩, hself', hothers', hsurplus, rfl⟩
  · rw [channelAddUnicastClient, hchannel]
    dsimp only
    rw [if_pos rfl, hl.chanHead i channel hchannel, happend, ← hnew]
    rfl
  · by_cases hj : j = i
    · rw [hj, hjoined]
      exact hchain₁
    · rw [hother j hj]
      refine (hl.chanChain j).frame fun a ha m hm => ⟨m, ?_, rfl, rfl⟩
      rw [hothers₁ a fun hin => ?_, hm]
      rcases List.mem_append.mp hin with hin | hin
      · exact hj (hl.disjoint ha hin)
      · exact hnotin j (List.mem_singleton.mp hin ▸ ha)
  · by_cases ha : a = client
    · subst ha
      simp only [hself', Except.ok.injEq, exists_eq_left', Option.some.injEq, hclient, true_and]
      by_cases hj : j = i
      · rw [hj, hjoined]
        simp
      · rw [hother j hj]
        exact iff_of_false (hnotin j) (Ne.symm hj)
    · rw [hothers' a ha, ← hl.members]
      by_cases hj : j = i
      · rw [hj, hjoined]
        simp [ha]
      · rw [hother j hj]

end MuMuDVB.ClientLists
