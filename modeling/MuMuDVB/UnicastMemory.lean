import MuMuDVB.HeapAccounts
import MuMuDVB.UnicastRuns

/-!
# The memory of the HTTP server

What the server has allocated is accounted for by what it counts itself: a client
for each of `client_number`, and two blocks for each packet in a queue. When the
clients are deleted at the end of the program, nothing is left.
-/
namespace MuMuDVB.UnicastMemory

open CheckedMemory CheckedHeap LinkedList RecordedRun HeapAccounts MuMuDVB.UnicastQueue
open MuMuDVB.UnicastSend (ClientState clearErrors notWritten)
open MuMuDVB.UnicastTimed MuMuDVB.UnicastClients MuMuDVB.ClientLists
open MuMuDVB.UnicastRegistry MuMuDVB.UnicastDisconnect MuMuDVB.UnicastRuns MuMuDVB.ChannelStatus

/-! ## The queues -/

section queues

/-- The blocks that come and go are two for each packet. -/
def Balanced (h : Heap Block) (header : QueueHeader) (h' : Heap Block) (header' : QueueHeader) :
    Prop :=
  live h' + 2 * header.packetsInQueue = live h + 2 * header'.packetsInQueue

variable {h h' h'' : Heap Block} {header header' header'' : QueueHeader}

theorem Balanced.trans (hfirst : Balanced h header h' header')
    (hthen : Balanced h' header' h'' header'') : Balanced h header h'' header'' := by
  rw [Balanced] at *
  omega

theorem addData_balanced {data : List UInt8}
    (hadd : unicastQueueAddData h header data = .ok (h', header')) :
    Balanced h header h' header' := by
  obtain ⟨⟨h₁, header₁⟩, hlink, hadd⟩ := bind_eq_ok.mp hadd
  cases hadd
  have hboth : live ((h.alloc (.bytes data)).2.alloc
      (.node ⟨(h.alloc (.bytes data)).1, data.length, none⟩)).2 = live h + 2 := by
    rw [live, total_alloc, total_alloc]
    rfl
  rw [Balanced]
  split at hlink
  · cases hlink
    refine (congrArg (· + 2 * header.packetsInQueue) hboth).trans ?_
    dsimp only
    omega
  · obtain ⟨⟨p, element⟩, -, hlink⟩ := bind_eq_ok.mp hlink
    obtain ⟨h₂, hwrite, hlink⟩ := bind_eq_ok.mp hlink
    cases hlink
    have hall := (live_write hwrite).trans hboth
    dsimp only
    omega

theorem removeData_balanced (hremove : unicastQueueRemoveData h header = .ok (h', header')) :
    Balanced h header h' header' := by
  rw [unicastQueueRemoveData] at hremove
  split at hremove
  · cases hremove
    rfl
  · obtain ⟨⟨p, element⟩, -, hremove⟩ := bind_eq_ok.mp hremove
    obtain ⟨h₁, hdata, hremove⟩ := bind_eq_ok.mp hremove
    obtain ⟨h₂, hnode, hremove⟩ := bind_eq_ok.mp hremove
    cases hremove
    have hfirst := live_free hdata
    have hsecond := live_free hnode
    rw [Balanced]
    dsimp only
    omega

/-- A queue that is cleared is empty. -/
theorem clear_balanced {fuel : Nat} (hclear : unicastQueueClear fuel h header = .ok (h', header')) :
    Balanced h header h' header' ∧ header'.packetsInQueue = 0 := by
  induction fuel generalizing h header with
  | zero => cases hclear
  | succ fuel ih =>
    rw [unicastQueueClear] at hclear
    split at hclear
    · obtain ⟨⟨h₁, header₁⟩, hremove, hclear⟩ := bind_eq_ok.mp hclear
      obtain ⟨hlater, hzero⟩ := ih hclear
      exact ⟨(removeData_balanced hremove).trans hlater, hzero⟩
    · cases hclear
      exact ⟨rfl, by omega⟩

theorem requeue_balanced {data off len : Nat}
    (hrequeue : unicastQueueRequeue h header data off len = .ok (h', header')) :
    Balanced h header h' header' := by
  rw [unicastQueueRequeue] at hrequeue
  split at hrequeue
  · cases hrequeue
    rfl
  · obtain ⟨src, -, hrequeue⟩ := bind_eq_ok.mp hrequeue
    obtain ⟨⟨p, dest⟩, -, hrequeue⟩ := bind_eq_ok.mp hrequeue
    obtain ⟨h₁, hfree, hrequeue⟩ := bind_eq_ok.mp hrequeue
    obtain ⟨h₂, hwrite, hrequeue⟩ := bind_eq_ok.mp hrequeue
    cases hrequeue
    have hone : live (h.alloc (.bytes (src.drop off))).2 = live h + 1 := total_alloc h _
    have hless := (live_free hfree).trans hone
    have hsame := live_write hwrite
    rw [Balanced]
    dsimp only
    omega

end queues

/-! ## The sends -/

section sends

/-- What the body of the loop over the clients does to the heap and to the queue. -/
def Sends (s s' : ClientState) : Prop := Balanced s.heap s.client.queue s'.heap s'.client.queue

variable {p : TimedParameters} {s s' s'' : ClientState} {t t' : TimedState}
  {data : Option (Addr × Nat)} {buffer buf : List UInt8} {writtenLen : Int}

theorem notWritten_sends (h : notWritten p.toUnicastParameters s data buffer writtenLen = .ok s') :
    Sends s s' := by
  obtain ⟨s₁, hbranch, h⟩ := bind_eq_ok.mp h
  cases h
  show Sends s s₁
  split at hbranch
  · cases data with
    | none =>
      cases hbranch
      rfl
    | some d =>
      obtain ⟨⟨h', header'⟩, hclear, hbranch⟩ := bind_eq_ok.mp hbranch
      cases hbranch
      exact (clear_balanced hclear).1
  · cases data with
    | none =>
      dsimp only at hbranch
      split at hbranch
      · obtain ⟨rest, -, hbranch⟩ := bind_eq_ok.mp hbranch
        obtain ⟨⟨h', header'⟩, hadd, hbranch⟩ := bind_eq_ok.mp hbranch
        cases hbranch
        exact addData_balanced hadd
      · cases hbranch
        rfl
    | some d =>
      dsimp only at hbranch
      split at hbranch
      · obtain ⟨⟨h₁, header₁⟩, hremove, hbranch⟩ := bind_eq_ok.mp hbranch
        obtain ⟨⟨h', header'⟩, hrequeue, hbranch⟩ := bind_eq_ok.mp hbranch
        cases hbranch
        exact (removeData_balanced hremove).trans (requeue_balanced hrequeue)
      · cases hbranch
        rfl

theorem notWrittenTimed_sends {now : Int}
    (h : notWrittenTimed p now t data buffer writtenLen = .ok t') : Sends t.state t'.state := by
  obtain ⟨s, hs, h⟩ := bind_eq_ok.mp h
  have hsends := notWritten_sends hs
  split at h
  · cases h
    exact hsends
  · split at h <;>
    · cases h
      exact hsends

theorem clearErrors_queue (client : UnicastSend.UnicastClient) :
    (clearErrors client).queue = client.queue := by
  rw [clearErrors]
  split <;> rfl

theorem sendPacketsTimed_sends {input : ClientInput} {packetsLeft k : Nat}
    (h : sendPacketsTimed p buf input packetsLeft k data t = .ok t') :
    Sends t.state t'.state := by
  induction packetsLeft generalizing k data t with
  | zero =>
    cases h
    rfl
  | succ packetsLeft ih =>
    obtain ⟨buffer, -, h⟩ := bind_eq_ok.mp h
    cases houtcome : input.outcome k with
    | failed errno =>
      rw [houtcome] at h
      dsimp only at h
      split at h <;>
      · have hsends := notWrittenTimed_sends h
        exact hsends
    | accepted n =>
      rw [houtcome] at h
      dsimp only at h
      split at h
      · have hsends := notWrittenTimed_sends h
        exact hsends
      · cases data with
        | none =>
          have hrest := ih h
          rw [Sends, Balanced, clearErrors_queue] at hrest
          exact hrest
        | some d =>
          dsimp only at h
          obtain ⟨⟨h₁, header₁⟩, hremove, h⟩ := bind_eq_ok.mp h
          rw [clearErrors_queue] at hremove
          have hremoved := removeData_balanced hremove
          split at h
          · cases h
            exact hremoved
          · obtain ⟨next, -, h⟩ := bind_eq_ok.mp h
            have hrest := ih h
            exact hremoved.trans hrest

theorem sendToClientTimed_sends {input : ClientInput}
    (h : sendToClientTimed p buf input t = .ok t') : Sends t.state t'.state := by
  rw [sendToClientTimed] at h
  split at h
  · obtain ⟨t₁, hbranch, h⟩ := bind_eq_ok.mp h
    obtain ⟨next, -, h⟩ := bind_eq_ok.mp h
    have hrest := sendPacketsTimed_sends h
    split at hbranch
    · obtain ⟨⟨h₁, header₁⟩, hadd, hbranch⟩ := bind_eq_ok.mp hbranch
      cases hbranch
      exact (addData_balanced hadd).trans hrest
    · cases hbranch
      exact hrest
  · exact sendPacketsTimed_sends h

end sends

/-! ## The clients -/

/-- The blocks that a client has beside its own. -/
def queuedBlocks (n : Client) : Nat := 2 * n.sending.queue.packetsInQueue

/-- What there is, is what is counted. -/
structure Accounted (s : UnicastVars) : Prop where
  clients : (live s.heap : Int) = s.clientNumber
  packets : live s.blocks = total queuedBlocks s.heap

section clients

variable {s s' : UnicastVars} {client : Addr} {socket : Int} {i : Nat}

theorem unread_one (L : Links Client) : Unread L fun _ => 1 := ⟨fun _ _ => rfl, fun _ _ => rfl⟩

theorem unread_client : Unread clientLinks queuedBlocks := ⟨fun _ _ => rfl, fun _ _ => rfl⟩

theorem unread_channel : Unread channelLinks queuedBlocks := ⟨fun _ _ => rfl, fun _ _ => rfl⟩

theorem Accounted.of_eq (hs : Accounted s) (hheap : s'.heap = s.heap)
    (hblocks : s'.blocks = s.blocks) (hnumber : s'.clientNumber = s.clientNumber) : Accounted s' :=
  ⟨by rw [hheap, hnumber]; exact hs.clients, by rw [hheap, hblocks]; exact hs.packets⟩

/-- Another heap with the same accounts. -/
theorem Accounted.heap (hs : Accounted s) {h : Heap Client} (hlive : live h = live s.heap)
    (hqueued : total queuedBlocks h = total queuedBlocks s.heap) : Accounted { s with heap := h } :=
  ⟨by rw [hlive]; exact hs.clients, by rw [hqueued]; exact hs.packets⟩

theorem Accounted.modify (hs : Accounted s) {h : Heap Client} {f : Client → Client}
    (hmodify : modify s.heap client f = .ok h) (hf : ∀ n, queuedBlocks (f n) = queuedBlocks n) :
    Accounted { s with heap := h } :=
  hs.heap (total_modify (fun _ => rfl) hmodify) (total_modify hf hmodify)

theorem unicastAddClient_accounted (hs : Accounted s)
    (hadd : unicastAddClient s socket = .ok (client, s')) : Accounted s' := by
  obtain ⟨⟨h, clients⟩, happend, hadd⟩ := bind_eq_ok.mp hadd
  cases hadd
  have hone : live (s.heap.alloc (newClient socket)).2 = live s.heap + 1 := total_alloc _ _
  have hlive := (total_append (unread_one clientLinks) happend).trans hone
  have hqueued := (total_append unread_client happend).trans
    (total_alloc s.heap (newClient socket))
  have hclients := hs.clients
  have hpackets := hs.packets
  constructor
  · show (live h : Int) = s.clientNumber + 1
    rw [live, hlive]
    push_cast
    omega
  · exact hpackets.trans hqueued.symm

theorem channelAdd_accounted {added written : Bool} (hs : Accounted s)
    (hadd : channelAddUnicastClient s client i written = .ok (added, s')) : Accounted s' := by
  rw [channelAddUnicastClient] at hadd
  split at hadd
  · cases hadd
  · split at hadd
    · obtain ⟨⟨h, clients⟩, happend, hadd⟩ := bind_eq_ok.mp hadd
      cases hadd
      exact ⟨(congrArg Int.ofNat (total_append (unread_one channelLinks) happend)).trans hs.clients,
        hs.packets.trans (total_append unread_channel happend).symm⟩
    · cases hadd
      exact hs

/-- The blocks and the number of clients stay, and every client keeps its queue. -/
theorem channelDelClient_account {n : Client} (hdel : channelDelClient s n = .ok s') :
    live s'.heap = live s.heap ∧ total queuedBlocks s'.heap = total queuedBlocks s.heap ∧
      s'.blocks = s.blocks ∧ s'.clientNumber = s.clientNumber ∧
      ∀ q, (s'.heap.read q).map queuedBlocks = (s.heap.read q).map queuedBlocks := by
  rw [channelDelClient] at hdel
  split at hdel
  · cases hdel
    exact ⟨rfl, rfl, rfl, rfl, fun _ => rfl⟩
  · split at hdel
    · cases hdel
    · obtain ⟨⟨h, clients⟩, hunlink, hdel⟩ := bind_eq_ok.mp hdel
      cases hdel
      exact ⟨total_unlink (unread_one channelLinks) hunlink,
        total_unlink unread_channel hunlink, rfl, rfl, unlink_unread unread_channel hunlink⟩

/-- A client goes with its block and with those of its queue. -/
theorem unicastDelClient_accounted (hs : Accounted s) (hdel : unicastDelClient s client = .ok s') :
    Accounted s' := by
  obtain ⟨n, hread, hdel⟩ := bind_eq_ok.mp hdel
  obtain ⟨⟨h₁, clients⟩, hunlink, hdel⟩ := bind_eq_ok.mp hdel
  obtain ⟨s₂, hchannel, hdel⟩ := bind_eq_ok.mp hdel
  obtain ⟨⟨blocks, header⟩, hclear, hdel⟩ := bind_eq_ok.mp hdel
  obtain ⟨h₃, hfree, hdel⟩ := bind_eq_ok.mp hdel
  cases hdel
  obtain ⟨hlive₂, hqueued₂, hblocks₂, hnumber₂, hsame₂⟩ := channelDelClient_account hchannel
  have hlive₁ : live h₁ = live s.heap := total_unlink (unread_one clientLinks) hunlink
  have hqueued₁ := total_unlink unread_client hunlink
  obtain ⟨hbalanced, hempty⟩ := clear_balanced hclear
  obtain ⟨m, hm, -⟩ := bind_eq_ok.mp hfree
  have hqueue : queuedBlocks m = queuedBlocks n := by
    have hboth := (hsame₂ client).trans (unlink_unread unread_client hunlink client)
    rw [hm, hread] at hboth
    exact Except.ok.inj hboth
  have hless := live_free hfree
  have hqueued₃ := total_free (w := queuedBlocks) hm hfree
  have hclients := hs.clients
  have hpackets := hs.packets
  rw [Balanced, hempty, hblocks₂] at hbalanced
  dsimp only at hlive₂ hqueued₂ hblocks₂ hnumber₂ hbalanced
  rw [hqueue, queuedBlocks] at hqueued₃
  constructor
  · show (live h₃ : Int) = s₂.clientNumber - 1
    omega
  · show live blocks = total queuedBlocks h₃
    omega

theorem unicastCloseConnection_accounted (hs : Accounted s)
    (hclose : unicastCloseConnection s socket = .ok s') : Accounted s' := by
  rw [unicastCloseConnection] at hclose
  split at hclose
  · cases hclose
    exact hs
  · split at hclose
    · cases hclose
    · obtain ⟨s₁, hdel, hmove⟩ := bind_eq_ok.mp hclose
      have hs₁ := unicastDelClient_accounted hs hdel
      rw [moveLastFd] at hmove
      split at hmove
      · cases hmove
        exact hs₁.of_eq rfl rfl rfl
      · cases hmove

end clients

/-! ## The events -/

section events

variable {s s' : UnicastVars} {client : Addr} {fd : Int} {i : Nat} {e : Event}

theorem accept_accounted (hs : Accounted s) (haccept : unicastAcceptConnection s i fd = .ok s') :
    Accounted s' := by
  rw [unicastAcceptConnection] at haccept
  split at haccept
  · cases haccept
  · split at haccept
    · cases haccept
      exact hs
    · obtain ⟨⟨client, s₁⟩, hadd, haccept⟩ := bind_eq_ok.mp haccept
      have hs₁ := unicastAddClient_accounted hs hadd
      have hs₂ : Accounted (s₁.addFd fd ⟨.client, -1, some client⟩) := hs₁.of_eq rfl rfl rfl
      dsimp only at haccept
      split at haccept
      · obtain ⟨h, hmodify, haccept⟩ := bind_eq_ok.mp haccept
        cases haccept
        exact hs₂.modify hmodify fun _ => rfl
      · cases haccept
        exact hs₂

theorem attach_accounted {channel : Int} {written : Bool} (hs : Accounted s)
    (hattach : attachClient s fd client channel written = .ok s') : Accounted s' := by
  rw [attachClient] at hattach
  split at hattach
  · cases hattach
  · obtain ⟨⟨added, s₁⟩, hadd, hattach⟩ := bind_eq_ok.mp hattach
    have hs₁ := channelAdd_accounted hs hadd
    dsimp only at hattach
    split at hattach
    · obtain ⟨h, hmodify, hattach⟩ := bind_eq_ok.mp hattach
      cases hattach
      exact hs₁.modify hmodify fun _ => rfl
    · exact unicastCloseConnection_accounted hs₁ hattach

theorem message_accounted {a : UnicastHttp.Arrival} {written : Bool} (hs : Accounted s)
    (hhandle : unicastHandleClient s i a written = .ok s') : Accounted s' := by
  rw [unicastHandleClient] at hhandle
  split at hhandle
  case h_2 => cases hhandle
  obtain ⟨n, hread, hhandle⟩ := bind_eq_ok.mp hhandle
  obtain ⟨⟨action, http⟩, -, hhandle⟩ := bind_eq_ok.mp hhandle
  obtain ⟨h, hwrite, hhandle⟩ := bind_eq_ok.mp hhandle
  have hqueued := total_write (w := queuedBlocks) hread hwrite
  have hs₁ : Accounted { s with heap := h } :=
    hs.heap (live_write hwrite) (Nat.add_right_cancel hqueued)
  cases action with
  | attach channel => exact attach_accounted hs₁ hhandle
  | send reply => exact unicastCloseConnection_accounted hs₁ hhandle
  | hangUp => exact unicastCloseConnection_accounted hs₁ hhandle
  | _ =>
    cases hhandle
    exact hs₁

/-- The packets that are queued for a client are blocks of its queue. -/
theorem sendToClients_accounted {p : TimedParameters} {buf : List UInt8}
    {inputs : Addr → ClientInput} {fuel errno : Nat} {first : Option Addr}
    {r : UnicastVars × Nat × List (Addr × Fate)} (hs : Accounted s)
    (hsend : sendToClients p buf inputs fuel s errno first = .ok r) : Accounted r.1 := by
  induction fuel generalizing s errno first r with
  | zero => cases hsend
  | succ fuel ih =>
    cases first with
    | none =>
      cases hsend
      exact hs
    | some client =>
      obtain ⟨n, hread, hsend⟩ := bind_eq_ok.mp hsend
      obtain ⟨t, hsent, hsend⟩ := bind_eq_ok.mp hsend
      obtain ⟨h, hwrite, hsend⟩ := bind_eq_ok.mp hsend
      have hbalanced := sendToClientTimed_sends hsent
      have hqueued := total_write (w := queuedBlocks) hread hwrite
      have hlive := live_write hwrite
      have hpackets := hs.packets
      have hs₁ : Accounted { s with heap := h, blocks := t.state.heap } := by
        refine ⟨by rw [hlive]; exact hs.clients, ?_⟩
        rw [Sends, Balanced, begin] at hbalanced
        rw [queuedBlocks, queuedBlocks] at hqueued
        dsimp only at hbalanced hqueued ⊢
        omega
      obtain ⟨⟨s₂, actual⟩, hclosed, hsend⟩ := bind_eq_ok.mp hsend
      have hs₂ : Accounted s₂ := by
        split at hclosed
        · obtain ⟨s₃, hclose, hclosed⟩ := bind_eq_ok.mp hclosed
          cases hclosed
          exact unicastCloseConnection_accounted hs₁ hclose
        · cases hclosed
          exact hs₁
      obtain ⟨next, -, hsend⟩ := bind_eq_ok.mp hsend
      obtain ⟨⟨s₃, errno₃, fates⟩, hrest, hsend⟩ := bind_eq_ok.mp hsend
      cases hsend
      have hlast := ih hs₂ hrest
      exact hlast

theorem listening_account (s : UnicastVars) (type : FdType) (channel fd : Int) :
    (unicastCreateListeningSocket s type channel fd).heap = s.heap ∧
      (unicastCreateListeningSocket s type channel fd).blocks = s.blocks ∧
      (unicastCreateListeningSocket s type channel fd).clientNumber = s.clientNumber := by
  rw [unicastCreateListeningSocket]
  split <;> exact ⟨rfl, rfl, rfl⟩

theorem updateChannelNet_accounted (net : NetP) (hs : Accounted s) (i : Nat) :
    Accounted (updateChannelNet net s i) := by
  rw [updateChannelNet]
  split
  · exact hs
  · split
    · dsimp only
      split
      · obtain ⟨hheap, hblocks, hnumber⟩ := listening_account s .listenChannel i (net.socket i)
        exact hs.of_eq hheap hblocks hnumber
      · exact hs.of_eq rfl rfl rfl
    · exact hs

theorem updateChannels_accounted (auto : AutoP) (net : NetP) (hs : Accounted s) :
    Accounted (updateChannels auto net s) := by
  have hloop : ∀ (ids : List Nat) (s : UnicastVars), Accounted s →
      Accounted (ids.foldl (updateChannelNet net) s) := by
    intro ids
    induction ids with
    | nil => exact fun _ hs => hs
    | cons i ids ih => exact fun s hs => ih _ (updateChannelNet_accounted net hs i)
  exact hloop _ _ (hs.of_eq rfl rfl rfl)

theorem exec_accounted (hs : Accounted s) (hexec : exec s e = .ok s') : Accounted s' := by
  cases e with
  | listen fd =>
    cases hexec
    obtain ⟨hheap, hblocks, hnumber⟩ := listening_account s .master (-1) fd
    exact hs.of_eq hheap hblocks hnumber
  | accept i fd => exact accept_accounted hs hexec
  | message i a written => exact message_accounted hs hexec
  | hangUp i =>
    rw [exec] at hexec
    split at hexec
    · cases hexec
    · exact unicastCloseConnection_accounted hs hexec
  | send i p buf inputs errno =>
    obtain ⟨r, hsend, rfl⟩ := map_eq_ok hexec
    rw [unicastDataSend] at hsend
    split at hsend
    · cases hsend
    · exact sendToClients_accounted hs hsend
  | tables channels =>
    cases hexec
    exact hs.of_eq rfl rfl rfl
  | update auto net =>
    cases hexec
    exact updateChannels_accounted auto net hs

/-- In every state there is a block for each client that is counted, and there are two for each
packet in the queue of a client, and no others. -/
theorem serverRun_accounted {past : List Event} (hrun : Run serverSystem past s) :
    Accounted s := by
  refine hrun.invariant (P := fun _ s => Accounted s) (fun s hstart => ?_)
    fun past s e s' hs hstep => ?_
  · obtain ⟨channels, maxClients, rfl, -⟩ := hstart
    exact ⟨rfl, rfl⟩
  · exact exec_accounted hs hstep.2

end events

/-! ## The end -/

/-- The loop of `unicast_freeing` from a client on, with the sockets that it closes. -/
def freeingLoop (fuel : Nat) (s : UnicastVars) (actual : Option Addr) :
    Checked (UnicastVars × List Int) :=
  match fuel, actual with
  | 0, _ => .error .endless
  | _ + 1, none => .ok (s, [])
  | fuel + 1, some client => do
    let n ← s.heap.read client
    let s ← unicastDelClient s client
    let (s, closed) ← freeingLoop fuel s n.next
    return (s, (if 0 ≤ n.socket then [n.socket] else []) ++ closed)

/-- `unicast_freeing` -/
def unicastFreeing (s : UnicastVars) : Checked (UnicastVars × List Int) :=
  freeingLoop (s.heap.blocks.length + 1) s s.clients

section freeing

variable {s s' : UnicastVars} {all : List Addr} {lists : Nat → List Addr}
  {queued : Addr → List Element} {a : Addr}

/-- The socket of a client. -/
def socketOf (h : Heap Client) (a : Addr) : Int :=
  match coreOf h a with
  | .ok c => c.socket
  | .error _ => -1

theorem socketOf_core {h : Heap Client} {c : Core} (hcore : coreOf h a = .ok c) :
    socketOf h a = c.socket := by rw [socketOf, hcore]

theorem freeingLoop_spec (hl : Lists s all lists) (hq : Queues s all queued) {fuel : Nat}
    (hfuel : all.length < fuel) : ∃ s' lists', freeingLoop fuel s all.head? =
        .ok (s', (all.map (socketOf s.heap)).filter fun fd => 0 ≤ fd) ∧
      Lists s' [] lists' := by
  -- the next client is read before the block of this one is released
  induction all generalizing s lists fuel with
  | nil =>
    cases fuel with
    | zero => cases hfuel
    | succ fuel => exact ⟨s, lists, rfl, hl⟩
  | cons a as ih =>
    cases fuel with
    | zero => cases hfuel
    | succ fuel =>
      obtain ⟨n, hread, hnext, -⟩ := hl.chain.cell [] a as rfl
      have hcore := coreOf_read hread
      obtain ⟨blocks, queue, hclear, -, htransfer⟩ := (hq.queue a List.mem_cons_self _ hcore).clear
      obtain ⟨s₁, hdel, hl₁, hsame, -, -, hframe⟩ :=
        @unicastDelClient_spec _ _ _ _ [] _ hl hread _ _ hclear
      have hnodup := List.nodup_cons.mp hl.chain.nodup
      have hothers : ∀ b ∈ as, b ∈ a :: as ∧ b ≠ a := fun b hb =>
        ⟨List.mem_cons_of_mem a hb, ne_of_mem_of_not_mem hb hnodup.1⟩
      have hkept : ∀ b ∈ as, coreOf s₁.heap b = coreOf s.heap b := fun b hb =>
        hsame b (hothers b hb).2
      have hq₁ : Queues s₁ as queued := (hq.frame hothers List.mem_cons_self hkept
        (by rw [hframe]; exact htransfer) fun b hb => by
          obtain ⟨m, hm⟩ := hl.chain.read (hothers b hb).1
          exact ⟨_, coreOf_read hm⟩).1
      obtain ⟨s', lists', hloop, hl'⟩ := ih hl₁ hq₁ (Nat.lt_of_succ_lt_succ hfuel)
      refine ⟨s', lists', ?_, hl'⟩
      have hsockets : as.map (socketOf s₁.heap) = as.map (socketOf s.heap) :=
        List.map_congr_left fun b hb => by rw [socketOf, socketOf, hkept b hb]
      have hnext' : n.next = as.head? := hnext
      rw [List.head?_cons, freeingLoop, hread, bind_ok, hdel, bind_ok, hnext', hloop, bind_ok,
        hsockets, List.map_cons, socketOf_core hcore, List.filter_cons]
      by_cases hsocket : 0 ≤ n.socket
      · simp [core, hsocket]
      · simp [core, hsocket]

theorem freeingLoop_accounted {fuel : Nat} {actual : Option Addr} {closed : List Int}
    (hs : Accounted s) (hloop : freeingLoop fuel s actual = .ok (s', closed)) : Accounted s' := by
  induction fuel generalizing s actual closed with
  | zero => cases hloop
  | succ fuel ih =>
    cases actual with
    | none =>
      cases hloop
      exact hs
    | some client =>
      obtain ⟨n, -, hloop⟩ := bind_eq_ok.mp hloop
      obtain ⟨s₁, hdel, hloop⟩ := bind_eq_ok.mp hloop
      obtain ⟨⟨s₂, closed₂⟩, hrest, hloop⟩ := bind_eq_ok.mp hloop
      cases hloop
      have hlast := ih (unicastDelClient_accounted hs hdel) hrest
      exact hlast

theorem run_kept {past : List UnicastRuns.Event} (hrun : Run serverSystem past s) :
    ∃ all lists queued, Kept s all lists queued := by
  refine hrun.invariant (P := fun _ s => ∃ all lists queued, Kept s all lists queued)
    (fun s hstart => ⟨_, _, _, (initial_kept hstart).1⟩) fun past s e s' hk hstep => ?_
  obtain ⟨all, lists, queued, hk⟩ := hk
  cases event_outcome hk hstep.1 with
  | fails f error _ => cases error.symm.trans hstep.2
  | returns s'' all' lists' queued' ok kept _ =>
    obtain rfl := Except.ok.inj (ok.symm.trans hstep.2)
    exact ⟨all', lists', queued', kept⟩

/-- Two clients have two sockets. -/
theorem socketOf_injective (hf : FdTable.Fds s all) : ∀ a ∈ all, ∀ b ∈ all,
    socketOf s.heap a = socketOf s.heap b → a = b := by
  intro a ha b hb heq
  obtain ⟨i, info, c, hinfo, -, hclient, hcore, hpfd⟩ := hf.entry ha
  obtain ⟨j, info', c', hinfo', -, hclient', hcore', hpfd'⟩ := hf.entry hb
  rw [socketOf_core hcore, socketOf_core hcore'] at heq
  have hi : i < s.pfdsnum := by
    rw [← hf.fdInfo]
    exact (List.getElem?_eq_some_iff.mp hinfo).1
  have hj : j < s.pfdsnum := by
    rw [← hf.fdInfo]
    exact (List.getElem?_eq_some_iff.mp hinfo').1
  have hlen : i < (s.pfds.take s.pfdsnum).length := by
    rw [List.length_take, hf.pfds]
    omega
  have hij : i = j := (List.getElem?_inj hlen hf.distinct).mp (by
    rw [List.getElem?_take_of_lt hi, List.getElem?_take_of_lt hj, hpfd, hpfd', heq])
  subst hij
  rw [hinfo, Option.some.injEq] at hinfo'
  subst hinfo'
  rw [hclient, Option.some.injEq] at hclient'
  exact hclient'

/-- At the end of every run the clients are deleted: each socket of a client is closed once, and no
block of the clients or of their queues is left. -/
theorem serverRun_freed {past : List UnicastRuns.Event} (hrun : Run serverSystem past s) :
    ∃ s' closed, unicastFreeing s = .ok (s', closed) ∧ live s'.heap = 0 ∧ live s'.blocks = 0 ∧
      s'.clients = none ∧ s'.clientNumber = 0 ∧ (∀ channel ∈ s'.channels, channel.clients = none) ∧
      closed.Nodup ∧ ∀ fd, fd ∈ closed ↔ 0 ≤ fd ∧ ∃ (i : Nat) (info : FdInfo),
        s.fdInfo[i]? = some info ∧ info.type = .client ∧ s.pfds[i]? = some fd := by
  obtain ⟨all, lists, queued, hk⟩ := run_kept hrun
  have hlength : all.length < s.heap.blocks.length + 1 :=
    Nat.lt_succ_of_le hk.chain.length_le
  obtain ⟨s', lists', hloop, hl'⟩ := freeingLoop_spec hk.toLists hk.toQueues hlength
  rw [← hk.head] at hloop
  have hs' := freeingLoop_accounted (serverRun_accounted hrun) hloop
  have hlive : live s'.heap = 0 := by
    have hclients := hs'.clients
    rw [hl'.number] at hclients
    exact_mod_cast hclients
  refine ⟨s', _, hloop, hlive, by rw [hs'.packets]; exact total_of_live hlive _, hl'.head,
    hl'.number, fun channel hchannel => ?_, ?_, fun fd => ?_⟩
  · obtain ⟨i, hi⟩ := List.getElem?_of_mem hchannel
    have hempty : lists' i = [] := List.eq_nil_iff_forall_not_mem.mpr fun a ha =>
      absurd (hl'.subset ha) List.not_mem_nil
    rw [hl'.chanHead i channel hi, hempty]
    rfl
  · exact (hk.chain.nodup.map_on (socketOf_injective hk.toFds)).filter _
  · rw [List.mem_filter, List.mem_map, decide_eq_true_iff, and_comm]
    refine and_congr_right fun _ => ⟨?_, ?_⟩
    · rintro ⟨a, ha, rfl⟩
      obtain ⟨i, info, c, hinfo, htype, -, hcore, hpfd⟩ := hk.toFds.entry ha
      exact ⟨i, info, hinfo, htype, by rw [hpfd, socketOf_core hcore]⟩
    · rintro ⟨i, info, hinfo, htype, hpfd⟩
      obtain ⟨a, c, hclient, hcore, hpfd'⟩ := hk.sockets i info hinfo htype
      rw [hpfd, Option.some.injEq] at hpfd'
      exact ⟨a, hk.toFds.mem hinfo htype hclient, by rw [socketOf_core hcore, hpfd']⟩

end freeing

/-- Two clients of the channel. -/
def meeting : List UnicastRuns.Event :=
  [.listen 4, .accept 0 5, .accept 0 6, .message 1 request true, .message 2 request true]

theorem meeting_run : ∃ past s, Run serverSystem past s ∧ s.clientNumber = 2 ∧
    s.pfds = [4, 5, 6, 0] := by
  have h : (follow start meeting).map (fun r => r.map fun s => (s.clientNumber, s.pfds)) =
      .ok (some (2, [4, 5, 6, 0])) := by decide +kernel
  obtain ⟨r, hr, hboth⟩ := map_eq_ok h
  obtain ⟨s, rfl, hboth⟩ := Option.map_eq_some_iff.mp hboth
  obtain ⟨hnumber, hpfds⟩ := Prod.mk.inj (Option.some.inj hboth)
  exact ⟨_, s, run_follow (.start initial_start) hr, hnumber, hpfds⟩

theorem serverRun_accounted_meeting : ∃ s : UnicastVars, s.clientNumber = 2 ∧ live s.heap = 2 := by
  obtain ⟨past, s, hrun, hnumber, -⟩ := meeting_run
  have hclients := (serverRun_accounted hrun).clients
  rw [hnumber] at hclients
  exact ⟨s, hnumber, by exact_mod_cast hclients⟩

theorem serverRun_freed_meeting : ∃ s s' closed, s.pfds = [4, 5, 6, 0] ∧
    unicastFreeing s = .ok (s', closed) ∧ live s'.heap = 0 ∧ closed.Nodup := by
  obtain ⟨past, s, hrun, -, hpfds⟩ := meeting_run
  obtain ⟨s', closed, hfreed, hlive, -, -, -, -, hnodup, -⟩ := serverRun_freed hrun
  exact ⟨s, s', closed, hpfds, hfreed, hlive, hnodup⟩

end MuMuDVB.UnicastMemory
