import MuMuDVB.UnicastRegistry
import MuMuDVB.UnicastTimed

/-!
# Clients that are disconnected while they are served

The loop of `unicast_data_send` over the clients of a channel. It goes on with
the client behind the one that it has closed, and then with the one behind that.
-/
namespace MuMuDVB.UnicastDisconnect

open CheckedMemory CheckedHeap MuMuDVB.UnicastQueue MuMuDVB.UnicastSend MuMuDVB.UnicastTimed
open MuMuDVB.UnicastClients (Client UnicastVars unicastCloseConnection unicastAcceptConnection
  attachClient)
open MuMuDVB.ClientLists MuMuDVB.UnicastRegistry

/-- The state before the sends to a client. -/
def begin (s : UnicastVars) (errno : Nat) (n : Client) : TimedState :=
  ⟨⟨s.blocks, errno, n.sending⟩, n.firstErrorTime, [], false⟩

/-- The loop over the clients, from a client on. -/
def sendToClients (p : TimedParameters) (buf : List UInt8) (inputs : Addr → ClientInput) :
    Nat → UnicastVars → Nat → Option Addr → Checked (UnicastVars × Nat × List (Addr × Fate))
  | 0, _, _, _ => .error .endless
  | _ + 1, s, errno, none => .ok (s, errno, [])
  | fuel + 1, s, errno, some client => do
    let n ← s.heap.read client
    let t ← sendToClientTimed p buf (inputs client) (begin s errno n)
    let h ← s.heap.write client { n with
      sending := t.state.client
      firstErrorTime := t.firstErrorTime }
    let s := { s with heap := h, blocks := t.state.heap }
    -- `actual_client=temp_client` after the connection has been closed
    let (s, actual) ← (if t.close then do
        let s ← unicastCloseConnection s n.socket
        return (s, n.chanNext)
      else .ok (s, some client) : Checked (UnicastVars × Option Addr))
    let next ← (match actual with
      | none => .ok none
      | some a => do
        let m ← s.heap.read a
        return m.chanNext : Checked (Option Addr))
    let (s, errno, fates) ← sendToClients p buf inputs fuel s t.state.errno next
    return (s, errno, t.fates.map (fun fate => (client, fate)) ++ fates)

/-- `unicast_data_send`, for channel `i`; `buf` has the `nb_bytes` bytes of its buffer. -/
def unicastDataSend (p : TimedParameters) (buf : List UInt8) (inputs : Addr → ClientInput)
    (s : UnicastVars) (errno : Nat) (i : Nat) : Checked (UnicastVars × Nat × List (Addr × Fate)) :=
  match s.channels[i]? with
  | none => .error .outOfBounds
  | some channel =>
    sendToClients p buf inputs (s.heap.blocks.length + 2) s errno channel.clients

def view (s : UnicastVars) (a : Addr) : Checked View := do
  let n ← s.heap.read a
  let queued ← buffers s.blocks n.sending.queue
  return ⟨n.sending, n.firstErrorTime, queued⟩

/-- The value of `errno` after the sends to these clients. -/
def errnoOver (p : TimedParameters) (buf : List UInt8) (inputs : Addr → ClientInput)
    (s : UnicastVars) (clients : List Addr) (errno : Nat) : Nat :=
  clients.foldl (fun errno a =>
    match view s a with
    | .ok v => errnoAfter (inputs a).outcome 0
        (sends p.toUnicastParameters v.sending v.queued buf) errno
    | .error _ => errno) errno

/-- A client that is disconnected is the last one of the channel, and the debug feature drops nothing
for the others. -/
structure ServesAll (p : TimedParameters) (buf : List UInt8) (inputs : Addr → ClientInput)
    (s : UnicastVars) (errno : Nat) (clients : List Addr) : Prop where
  last : ∀ xs a ys v, clients = xs ++ a :: ys → view s a = .ok v →
    Disconnects p buf (inputs a) v → ys = []
  kept : ∀ xs a ys v, clients = xs ++ a :: ys → view s a = .ok v →
    ¬ Disconnects p buf (inputs a) v →
    ¬ Flushes p buf (inputs a) (errnoOver p buf inputs s xs errno) v

/-- Every client that is still there has got exactly one fate. -/
def Once (s' : UnicastVars) (fates : List (Addr × Fate)) (clients : List Addr) : Prop :=
  ∀ a ∈ clients, (∃ n, s'.heap.read a = .ok n) → (fates.filter fun f => f.1 == a).length = 1

/-- The fault is one of the sends to one of these clients, whose queue is a list. -/
def SendFault (p : TimedParameters) (buf : List UInt8) (inputs : Addr → ClientInput)
    (clients : List Addr) (e : Fault) : Prop :=
  ∃ a ∈ clients, ∃ t es, IsQueue t.state.heap t.state.client.queue es ∧
    sendToClientTimed p buf (inputs a) t = .error e

variable {p : TimedParameters} {buf : List UInt8} {t : TimedState} {inputs : Addr → ClientInput}
  {u u' : UnicastVars} {all : List Addr}
  {lists : Nat → List Addr} {queued : Addr → List Element} {a : Addr} {clients : List Addr}

theorem view_eq (hk : Kept u all lists queued) (ha : a ∈ all) {c : Core}
    (hcore : coreOf u.heap a = .ok c) :
    view u a = .ok ⟨c.sending, c.firstErrorTime, contents (queued a)⟩ := by
  obtain ⟨n, hread, rfl⟩ := read_coreOf hcore
  have hqueued : buffers u.blocks n.sending.queue = .ok (contents (queued a)) :=
    (hk.queue a ha _ hcore).buffers
  rw [view, hread, bind_ok, hqueued]
  rfl

theorem errnoOver_congr (hsame : ∀ b ∈ clients, view u' b = view u b) (errno : Nat) :
    errnoOver p buf inputs u' clients errno = errnoOver p buf inputs u clients errno := by
  refine List.foldl_ext _ _ _ fun errno b hb => ?_
  rw [hsame b hb]

/-- The first client decides about itself; the others start from the value of `errno` that it
leaves. -/
theorem servesAll_cons {v : View} {errno : Nat} (hview : view u a = .ok v)
    (hsame : ∀ b ∈ clients, view u' b = view u b) :
    ServesAll p buf inputs u errno (a :: clients) ↔
      (Disconnects p buf (inputs a) v → clients = []) ∧
      (¬ Disconnects p buf (inputs a) v → ¬ Flushes p buf (inputs a) errno v) ∧
      ServesAll p buf inputs u' (errnoAfter (inputs a).outcome 0
        (sends p.toUnicastParameters v.sending v.queued buf) errno) clients := by
  have hcons : ∀ xs, errnoOver p buf inputs u (a :: xs) errno = errnoOver p buf inputs u xs
      (errnoAfter (inputs a).outcome 0 (sends p.toUnicastParameters v.sending v.queued buf) errno) := by
    intro xs
    rw [errnoOver, List.foldl_cons, hview]
    rfl
  constructor
  · intro h
    refine ⟨h.last [] a clients v rfl hview, h.kept [] a clients v rfl hview, fun xs b ys w hsplit hw => ?_,
      fun xs b ys w hsplit hw hd => ?_⟩
    · rw [hsame b (by rw [hsplit]; simp)] at hw
      exact h.last (a :: xs) b ys w (by rw [hsplit]; rfl) hw
    · rw [hsame b (by rw [hsplit]; simp)] at hw
      rw [errnoOver_congr fun c hc => hsame c (by rw [hsplit]; simp [hc]), ← hcons]
      exact h.kept (a :: xs) b ys w (by rw [hsplit]; rfl) hw hd
  · rintro ⟨hlast, hkept, h⟩
    refine ⟨fun xs b ys w hsplit hw hd => ?_, fun xs b ys w hsplit hw hd => ?_⟩
    · cases xs with
      | nil =>
        obtain ⟨rfl, rfl⟩ := List.cons.inj hsplit
        rw [hview, Except.ok.injEq] at hw
        exact hlast (hw ▸ hd)
      | cons x xs =>
        obtain ⟨rfl, hrest⟩ := List.cons.inj hsplit
        exact h.last xs b ys w hrest (by rw [hsame b (by rw [hrest]; simp), hw]) hd
    · cases xs with
      | nil =>
        obtain ⟨rfl, rfl⟩ := List.cons.inj hsplit
        rw [hview, Except.ok.injEq] at hw
        exact hw ▸ hkept (hw ▸ hd)
      | cons x xs =>
        obtain ⟨rfl, hrest⟩ := List.cons.inj hsplit
        have hrec := h.kept xs b ys w hrest (by rw [hsame b (by rw [hrest]; simp), hw]) hd
        rwa [errnoOver_congr fun c hc => hsame c (by rw [hrest]; simp [hc]), ← hcons] at hrec

/-- The state after the sends to a client, before the loop looks at the next one. -/
theorem body_spec {n : Client} {errno : Nat} (hk : Kept u all lists queued) (ha : a ∈ all)
    (hread : u.heap.read a = .ok n)
    (ht : sendToClientTimed p buf (inputs a) (begin u errno n) = .ok t) :
    ∃ h' queued', u.heap.write a { n with
        sending := t.state.client
        firstErrorTime := t.firstErrorTime } = .ok h' ∧
      Kept { u with heap := h', blocks := t.state.heap } all lists queued' ∧
      (∀ b, b ≠ a → coreOf h' b = coreOf u.heap b ∧ queued' b = queued b) ∧
      (∃ c, coreOf h' a = .ok c ∧ c.socket = n.socket) ∧
      ∃ v, view u a = .ok v ∧ Handles p buf (inputs a) errno v t ∧
        t.state.errno = errnoAfter (inputs a).outcome 0
          (sends p.toUnicastParameters v.sending v.queued buf) errno := by
  have hcore := coreOf_read hread
  have hq : IsQueue u.blocks n.sending.queue (queued a) := hk.queue a ha _ hcore
  have hstate := congrArg (fun r => Except.map TimedState.state r) ht
  rw [sendToClientTimed_state] at hstate
  obtain ⟨⟨es', hq', htransfer⟩, herrno⟩ :=
    sendToClient_queued (s := (begin u errno n).state) hq hstate
  obtain ⟨h', hwrite, hself, hothers⟩ := Heap.write_ok hread { n with
    sending := t.state.client
    firstErrorTime := t.firstErrorTime }
  refine ⟨h', Function.update queued a es', hwrite, hk.rewritten ha hread hself hothers
    ⟨rfl, rfl, rfl, rfl⟩ rfl rfl (hk.regular a ha _ hcore) hq' htransfer, fun b hb => ⟨?_, ?_⟩,
    ⟨_, coreOf_read hself, rfl⟩, _, view_eq hk ha hcore,
    sendToClientTimed_ok (t := begin u errno n) hq ht rfl rfl, herrno⟩
  · rw [coreOf, coreOf, hothers b hb]
  · exact Function.update_of_ne hb _ _

theorem chanNext_eq {i : Nat} {us tl : List Addr} (hk : Kept u all lists queued)
    (hlist : lists i = us ++ a :: tl) : ∃ n, u.heap.read a = .ok n ∧ n.chanNext = tl.head? := by
  obtain ⟨n, hread, hnext, _⟩ := (hk.chanChain i).cell us a tl hlist
  exact ⟨n, hread, hnext⟩

/-- What the loop does with the rest, after the fates of one client. -/
def later (a : Addr) (t : TimedState) (x : Checked (UnicastVars × Nat × List (Addr × Fate))) :
    Checked (UnicastVars × Nat × List (Addr × Fate)) := do
  let (s, errno, fates) ← x
  return (s, errno, t.fates.map (fun fate => (a, fate)) ++ fates)

/-- A client that stays: the loop goes on with the one behind it. -/
theorem sendToClients_stays {n : Client} (fuel : Nat) {errno i : Nat} {us tl : List Addr}
    (hk : Kept u all lists queued) (hlist : lists i = us ++ a :: tl)
    (hread : u.heap.read a = .ok n)
    (ht : sendToClientTimed p buf (inputs a) (begin u errno n) = .ok t) (hopen : t.close = false) :
    ∃ u₁ queued', Kept u₁ all lists queued' ∧ u₁.channels = u.channels ∧
      (∀ b, b ≠ a → coreOf u₁.heap b = coreOf u.heap b ∧ queued' b = queued b) ∧
      (∃ c, coreOf u₁.heap a = .ok c) ∧
      sendToClients p buf inputs (fuel + 1) u errno (some a) =
        later a t (sendToClients p buf inputs fuel u₁ t.state.errno tl.head?) := by
  have ha : a ∈ all := hk.toLists.subset (i := i) (by rw [hlist]; simp)
  obtain ⟨h', queued', hwrite, hk₁, hothers, ⟨c, hc, _⟩, _⟩ := body_spec hk ha hread ht
  obtain ⟨m, hm, hnext⟩ := chanNext_eq hk₁ hlist
  refine ⟨_, queued', hk₁, rfl, hothers, ⟨c, hc⟩, ?_⟩
  rw [sendToClients, hread, bind_ok, ht, bind_ok, hwrite, bind_ok, hopen]
  dsimp only
  rw [if_neg (by simp), bind_ok]
  dsimp only
  rw [hm, bind_ok, pure_ok, bind_ok, hnext]
  rfl

/-- A client that is disconnected: the loop goes on with the second one behind it. -/
theorem sendToClients_closes {n : Client} (fuel : Nat) {errno i : Nat} {us tl : List Addr}
    (hk : Kept u all lists queued) (hlist : lists i = us ++ a :: tl)
    (hread : u.heap.read a = .ok n)
    (ht : sendToClientTimed p buf (inputs a) (begin u errno n) = .ok t) (hclose : t.close = true) :
    ∃ u₁ queued', Kept u₁ (all.erase a) (without lists a) queued' ∧
      (∀ j, surplus u₁ (without lists a) j = surplus u lists j) ∧
      (∀ b, b ≠ a → coreOf u₁.heap b = coreOf u.heap b ∧ queued' b = queued b) ∧
      u₁.heap.read a = .error .released ∧
      sendToClients p buf inputs (fuel + 1) u errno (some a) =
        later a t (sendToClients p buf inputs fuel u₁ t.state.errno tl.tail.head?) := by
  have ha : a ∈ all := hk.toLists.subset (i := i) (by rw [hlist]; simp)
  obtain ⟨h', queued', hwrite, hk₁, hothers, ⟨c, hc, hsocket⟩, _⟩ := body_spec hk ha hread ht
  obtain ⟨u₂, hcloses, hk₂, hothers₂, hreleased, hsurplus⟩ := unicastCloseConnection_spec hk₁ ha hc
  obtain ⟨n', hread', hnext⟩ := chanNext_eq hk hlist
  rw [hread, Except.ok.injEq] at hread'
  subst hread'
  refine ⟨u₂, queued', hk₂, hsurplus, fun b hb => ⟨(hothers₂ b hb).trans (hothers b hb).1,
    (hothers b hb).2⟩, hreleased, ?_⟩
  rw [hsocket] at hcloses
  rw [sendToClients, hread, bind_ok, ht, bind_ok, hwrite, bind_ok, hclose]
  dsimp only
  rw [if_pos rfl, hcloses, bind_ok, pure_ok, bind_ok]
  dsimp only
  rw [hnext]
  cases tl with
  | nil => rfl
  | cons b tl =>
    have hlist₂ : without lists a i = (us ++ [b]) ++ tl := by
      rw [without, hlist, erase_middle (hlist ▸ (hk.chanChain i).nodup), List.append_assoc]
      rfl
    obtain ⟨m, hm, hnext₂⟩ := chanNext_eq hk₂ (show without lists a i = us ++ b :: tl by
      rw [hlist₂, List.append_assoc]
      rfl)
    rw [List.head?_cons]
    dsimp only
    rw [hm, bind_ok, pure_ok, bind_ok, hnext₂]
    rfl

theorem later_eq_ok {r : UnicastVars × Nat × List (Addr × Fate)}
    {x : Checked (UnicastVars × Nat × List (Addr × Fate))} (h : later a t x = .ok r) :
    ∃ fates, x = .ok (r.1, r.2.1, fates) ∧
      r.2.2 = t.fates.map (fun fate => (a, fate)) ++ fates := by
  obtain ⟨⟨s, errno, fates⟩, rfl, h⟩ := bind_eq_ok.mp h
  cases h
  exact ⟨fates, rfl, rfl⟩

theorem later_eq_error {e : Fault} {x : Checked (UnicastVars × Nat × List (Addr × Fate))}
    (h : later a t x = .error e) : x = .error e := by
  cases x with
  | error e' => exact h
  | ok r => cases h

/-- The fates of a client, and of those behind it. -/
theorem filter_fates {fates : List (Addr × Fate)} (b : Addr) :
    (t.fates.map (fun fate => (a, fate)) ++ fates).filter (fun f => f.1 == b) =
      (if a = b then t.fates.map (fun fate => (a, fate)) else []) ++
        fates.filter fun f => f.1 == b := by
  rw [List.filter_append]
  congr 1
  split
  case isTrue h => simp [h, List.filter_map, Function.comp_def]
  case isFalse h => simp [h, List.filter_map, Function.comp_def]

/-- What a run of the loop over `rest` leaves. -/
structure Ran (p : TimedParameters) (buf : List UInt8) (inputs : Addr → ClientInput)
    (u : UnicastVars) (errno : Nat) (lists : Nat → List Addr) (rest : List Addr) (u' : UnicastVars)
    (fates : List (Addr × Fate)) : Prop where
  kept : ∃ all' lists' queued', Kept u' all' lists' queued' ∧
    ∀ j, surplus u' lists' j = surplus u lists j
  others : ∀ b, b ∉ rest → coreOf u'.heap b = coreOf u.heap b
  members : ∀ f ∈ fates, f.1 ∈ rest
  once : Once u' fates rest ↔ ServesAll p buf inputs u errno rest

theorem servesAll_nil (u : UnicastVars) (errno : Nat) : ServesAll p buf inputs u errno [] :=
  ⟨fun xs b ys v hsplit => by simp at hsplit, fun xs b ys v hsplit => by simp at hsplit⟩

theorem filter_eq_nil {fates : List (Addr × Fate)} {rest : List Addr} {b : Addr}
    (hmembers : ∀ f ∈ fates, f.1 ∈ rest) (hb : b ∉ rest) :
    fates.filter (fun f => f.1 == b) = [] := by
  rw [List.filter_eq_nil_iff]
  intro f hf heq
  exact hb (beq_iff_eq.mp heq ▸ hmembers f hf)

theorem view_congr {all₁ : List Addr} {lists₁ : Nat → List Addr} {queued₁ : Addr → List Element}
    (hk : Kept u all lists queued) (hk₁ : Kept u' all₁ lists₁ queued₁) (ha : a ∈ all)
    (ha₁ : a ∈ all₁) (hcore : coreOf u'.heap a = coreOf u.heap a) (hqueued : queued₁ a = queued a) :
    view u' a = view u a := by
  obtain ⟨n, hread⟩ := hk.chain.read ha
  have hn := coreOf_read hread
  rw [view_eq hk ha hn, view_eq hk₁ ha₁ (hcore.trans hn), hqueued]

/-- A client that stays, before a run over the others. -/
theorem Ran.stays {u₁ : UnicastVars} {errno : Nat} {tl : List Addr} {v : View}
    {fates : List (Addr × Fate)} (hopen : t.close = false) (hnotin : a ∉ tl)
    (hchannels : u₁.channels = u.channels)
    (hothers : ∀ b, b ≠ a → coreOf u₁.heap b = coreOf u.heap b)
    (hself : ∃ c, coreOf u₁.heap a = .ok c) (hview : view u a = .ok v)
    (hviews : ∀ b ∈ tl, view u₁ b = view u b) (hhandles : Handles p buf (inputs a) errno v t)
    (herrno : t.state.errno = errnoAfter (inputs a).outcome 0
      (sends p.toUnicastParameters v.sending v.queued buf) errno)
    (hran : Ran p buf inputs u₁ t.state.errno lists tl u' fates) :
    Ran p buf inputs u errno lists (a :: tl) u'
      (t.fates.map (fun fate => (a, fate)) ++ fates) := by
  have hnot : ¬ Disconnects p buf (inputs a) v := fun hd => by
    rw [← hhandles.close, hopen] at hd
    cases hd
  have hfate : t.fates.length = 1 ↔ ¬ Flushes p buf (inputs a) errno v := by
    constructor
    · intro hone hf
      rw [hhandles.flushed hf] at hone
      cases hone
    · intro hf
      obtain ⟨fate, hfate⟩ := hhandles.handled hf
      rw [hfate]
      rfl
  have honce : Once u' (t.fates.map (fun fate => (a, fate)) ++ fates) (a :: tl) ↔
      t.fates.length = 1 ∧ Once u' fates tl := by
    have hcount : ((t.fates.map (fun fate => (a, fate)) ++ fates).filter fun f => f.1 == a).length =
        t.fates.length := by
      rw [filter_fates, if_pos rfl, filter_eq_nil hran.members hnotin, List.append_nil,
        List.length_map]
    have hcounts : ∀ b ∈ tl, ((t.fates.map (fun fate => (a, fate)) ++ fates).filter
        fun f => f.1 == b) = fates.filter fun f => f.1 == b := by
      intro b hb
      rw [filter_fates, if_neg (ne_of_mem_of_not_mem hb hnotin).symm, List.nil_append]
    constructor
    · intro h
      refine ⟨?_, fun b hb hread => ?_⟩
      · obtain ⟨c, hc⟩ := hself
        obtain ⟨n, hn, _⟩ := read_coreOf ((hran.others a hnotin).trans hc)
        rw [← hcount]
        exact h a List.mem_cons_self ⟨n, hn⟩
      · rw [← hcounts b hb]
        exact h b (List.mem_cons_of_mem _ hb) hread
    · rintro ⟨hone, h⟩ b hb hread
      rcases List.mem_cons.mp hb with rfl | hb
      · rw [hcount, hone]
      · rw [hcounts b hb]
        exact h b hb hread
  refine ⟨?_, fun b hb => ?_, fun f hf => ?_, ?_⟩
  · obtain ⟨all', lists', queued', hk', hsurplus⟩ := hran.kept
    refine ⟨all', lists', queued', hk', fun j => (hsurplus j).trans ?_⟩
    rw [surplus, surplus, hchannels]
  · rw [List.mem_cons, not_or] at hb
    exact (hran.others b hb.2).trans (hothers b hb.1)
  · rcases List.mem_append.mp hf with hf | hf
    · obtain ⟨fate, _, rfl⟩ := List.mem_map.mp hf
      exact List.mem_cons_self
    · exact List.mem_cons_of_mem _ (hran.members f hf)
  · rw [honce, servesAll_cons hview hviews, hran.once, hfate, herrno]
    exact ⟨fun h => ⟨fun hd => absurd hd hnot, fun _ => h.1, h.2⟩, fun h => ⟨h.2.1 hnot, h.2.2⟩⟩

/-- A client that is disconnected: the one behind it, if there is one, gets nothing. -/
theorem Ran.closes {u₁ : UnicastVars} {errno : Nat} {tl : List Addr} {v : View}
    {fates : List (Addr × Fate)} (hclose : t.close = true) (hnodup : (a :: tl).Nodup)
    (hsurplus : ∀ j, surplus u₁ (without lists a) j = surplus u lists j)
    (hothers : ∀ b, b ≠ a → coreOf u₁.heap b = coreOf u.heap b)
    (hreadable : ∀ b ∈ tl, ∃ c, coreOf u.heap b = .ok c)
    (hreleased : u₁.heap.read a = .error .released) (hview : view u a = .ok v)
    (hhandles : Handles p buf (inputs a) errno v t)
    (hran : Ran p buf inputs u₁ t.state.errno (without lists a) tl.tail u' fates) :
    Ran p buf inputs u errno lists (a :: tl) u'
      (t.fates.map (fun fate => (a, fate)) ++ fates) := by
  have hd : Disconnects p buf (inputs a) v := hhandles.close.mp hclose
  obtain ⟨hnotin, hnodup⟩ := List.nodup_cons.mp hnodup
  refine ⟨?_, fun b hb => ?_, fun f hf => ?_, ?_⟩
  · obtain ⟨all', lists', queued', hk', hsame⟩ := hran.kept
    exact ⟨all', lists', queued', hk', fun j => (hsame j).trans (hsurplus j)⟩
  · rw [List.mem_cons, not_or] at hb
    exact (hran.others b fun hmem => hb.2 (List.mem_of_mem_tail hmem)).trans (hothers b hb.1)
  · rcases List.mem_append.mp hf with hf | hf
    · obtain ⟨fate, _, rfl⟩ := List.mem_map.mp hf
      exact List.mem_cons_self
    · exact List.mem_cons_of_mem _ (List.mem_of_mem_tail (hran.members f hf))
  · cases tl with
    | nil =>
      refine iff_of_true (fun b hb => ?_) ((servesAll_cons hview fun b hb => by cases hb).mpr
        ⟨fun _ => rfl, fun hnot => absurd hd hnot, servesAll_nil u _⟩)
      rintro ⟨n, hn⟩
      have hsame := hran.others a (List.not_mem_nil)
      rw [List.mem_singleton.mp hb] at hn
      rw [coreOf_read hn, coreOf, hreleased] at hsame
      cases hsame
    | cons b tl =>
      have hbtl := (List.nodup_cons.mp hnodup).1
      have hba : b ≠ a := fun hba => hnotin (hba ▸ List.mem_cons_self)
      refine iff_of_false (fun h => ?_) fun h => ?_
      · obtain ⟨c, hc⟩ := hreadable b List.mem_cons_self
        obtain ⟨n, hn, _⟩ := read_coreOf (((hran.others b hbtl).trans (hothers b hba)).trans hc)
        have hone := h b (by simp) ⟨n, hn⟩
        rw [filter_fates, if_neg hba.symm, filter_eq_nil hran.members hbtl] at hone
        cases hone
      · cases h.last [] a (b :: tl) v rfl hview hd

/-- The loop reads no client that is freed, and it serves all who stay exactly when the condition
holds. The induction is on the turns. -/
theorem sendToClients_spec {i : Nat} (fuel : Nat) : ∀ {u : UnicastVars} {errno : Nat}
    {all : List Addr} {lists : Nat → List Addr} {queued : Addr → List Element} {us rest : List Addr},
    Kept u all lists queued → lists i = us ++ rest → rest.length < fuel →
    (∀ e, sendToClients p buf inputs fuel u errno rest.head? = .error e →
      SendFault p buf inputs rest e) ∧
    ∀ r, sendToClients p buf inputs fuel u errno rest.head? = .ok r →
      Ran p buf inputs u errno lists rest r.1 r.2.2 := by
  induction fuel with
  | zero =>
    intro u errno all lists queued us rest _ _ hlen
    exact absurd hlen (Nat.not_lt_zero _)
  | succ fuel ih =>
    intro u errno all lists queued us rest hk hlist hlen
    cases rest with
    | nil =>
      rw [List.head?_nil, sendToClients]
      refine ⟨fun e h => by (cases h), fun r h => ?_⟩
      cases h
      exact ⟨⟨all, lists, queued, hk, fun _ => rfl⟩, fun _ _ => rfl, fun f hf => by (cases hf),
        iff_of_true (fun b hb => by cases hb) ⟨fun xs b ys v hsplit => by simp at hsplit,
          fun xs b ys v hsplit => by simp at hsplit⟩⟩
    | cons a tl =>
      obtain ⟨n, hread, hnext⟩ := chanNext_eq hk hlist
      have ha : a ∈ all := hk.toLists.subset (i := i) (by rw [hlist]; simp)
      have hq : IsQueue u.blocks n.sending.queue (queued a) := hk.queue a ha _ (coreOf_read hread)
      rw [List.length_cons] at hlen
      rw [List.head?_cons]
      cases ht : sendToClientTimed p buf (inputs a) (begin u errno n) with
      | error e =>
        have herror : sendToClients p buf inputs (fuel + 1) u errno (some a) = .error e := by
          rw [sendToClients, hread, bind_ok, ht, bind_error]
        rw [herror]
        refine ⟨fun e' h => ?_, fun r h => by cases h⟩
        cases h
        exact ⟨a, List.mem_cons_self, begin u errno n, queued a, hq, ht⟩
      | ok t =>
        obtain ⟨_, _, _, _, _, _, v, hview, hhandles, herrno⟩ := body_spec hk ha hread ht
        have hnodup : (a :: tl).Nodup :=
          (List.nodup_append.mp (hlist ▸ (hk.chanChain i).nodup)).2.1
        have hmem : ∀ b ∈ tl, b ∈ all ∧ b ≠ a := fun b hb =>
          ⟨hk.toLists.subset (i := i) (by rw [hlist]; simp [hb]),
            ne_of_mem_of_not_mem hb (List.nodup_cons.mp hnodup).1⟩
        cases hclose : t.close with
        | false =>
          obtain ⟨u₁, queued', hk₁, hchannels, hothers, hself, hsend⟩ :=
            sendToClients_stays fuel hk hlist hread ht hclose
          obtain ⟨herror, hok⟩ := ih hk₁
            (show lists i = (us ++ [a]) ++ tl by rw [hlist]; simp) (by omega)
          rw [hsend]
          refine ⟨fun e h => ?_, fun r h => ?_⟩
          · obtain ⟨b, hb, hfault⟩ := herror e (later_eq_error h)
            exact ⟨b, List.mem_cons_of_mem _ hb, hfault⟩
          · obtain ⟨fates, h, hfates⟩ := later_eq_ok h
            rw [hfates]
            exact (hok _ h).stays hclose (List.nodup_cons.mp hnodup).1 hchannels
              (fun b hb => (hothers b hb).1) hself hview (fun b hb => view_congr hk hk₁ (hmem b hb).1
                (hmem b hb).1 (hothers b (hmem b hb).2).1 (hothers b (hmem b hb).2).2) hhandles herrno
        | true =>
          obtain ⟨u₁, queued', hk₁, hsurplus, hothers, hreleased, hsend⟩ :=
            sendToClients_closes fuel hk hlist hread ht hclose
          obtain ⟨us', hlist₁⟩ : ∃ us', without lists a i = us' ++ tl.tail := by
            rw [without, hlist, erase_middle (hlist ▸ (hk.chanChain i).nodup)]
            cases tl with
            | nil => exact ⟨us, rfl⟩
            | cons b tl => exact ⟨us ++ [b], by simp⟩
          obtain ⟨herror, hok⟩ := ih hk₁ hlist₁ (by rw [List.length_tail]; omega)
          rw [hsend]
          refine ⟨fun e h => ?_, fun r h => ?_⟩
          · obtain ⟨b, hb, hfault⟩ := herror e (later_eq_error h)
            exact ⟨b, List.mem_cons_of_mem _ (List.mem_of_mem_tail hb), hfault⟩
          · obtain ⟨fates, h, hfates⟩ := later_eq_ok h
            rw [hfates]
            refine (hok _ h).closes hclose hnodup hsurplus (fun b hb => (hothers b hb).1)
              (fun b hb => ?_) hreleased hview hhandles
            obtain ⟨m, hm⟩ := hk.chain.read (hmem b hb).1
            exact ⟨_, coreOf_read hm⟩

theorem unicastDataSend_spec (hk : Kept u all lists queued) {i : Nat}
    (hchannel : i < u.channels.length) (errno : Nat) :
    (∀ e, unicastDataSend p buf inputs u errno i = .error e → SendFault p buf inputs (lists i) e) ∧
      ∀ r, unicastDataSend p buf inputs u errno i = .ok r →
        Ran p buf inputs u errno lists (lists i) r.1 r.2.2 := by
  have hlen := (hk.chanChain i).length_le
  rw [unicastDataSend, List.getElem?_eq_getElem hchannel]
  dsimp only
  rw [hk.chanHead i _ (List.getElem?_eq_getElem hchannel)]
  exact sendToClients_spec _ hk (show lists i = [] ++ lists i from rfl) (by omega)

/-- A master socket and a channel. -/
def oneChannel : UnicastVars where
  heap := ⟨[]⟩
  blocks := ⟨[]⟩
  clients := none
  clientNumber := 0
  maxClients := 0
  pfds := [4, 0]
  fdInfo := [⟨.master, -1, none⟩]
  pfdsnum := 1
  channels := [⟨⟨1, CString.bytes "TV"⟩, none, 0, .ready, .detected, false, 100, 1, 0, .undef, 0⟩]

/-- Clients of the channel with the sockets 5 and 6. -/
def twoClients : Checked UnicastVars := do
  let s ← unicastAcceptConnection oneChannel 0 5
  let s ← attachClient s 5 0 0 true
  let s ← unicastAcceptConnection s 0 6
  attachClient s 6 1 0 true

def timed : TimedParameters where
  queueMaxSize := 1000
  flushOnEagain := false
  consecutiveErrorsTimeout := 5

/-- The sends to the first client fail. -/
def firstFails (now : Int) (a : Addr) : ClientInput :=
  ⟨fun k => if a = 0 then refused a k else .accepted 1, now⟩

/-- A client of the channel with the socket 5. -/
def oneClient : UnicastVars := { oneChannel with
  heap := ⟨[some { UnicastClients.newClient 5 with
    http := { UnicastHttp.newClient with chanPtr := some 0 } }]⟩
  clients := some 0
  clientNumber := 1
  pfds := [4, 5, 0]
  fdInfo := [⟨.master, -1, none⟩, ⟨.client, -1, some 0⟩]
  pfdsnum := 2
  channels := oneChannel.channels.map fun channel =>
    { channel with clients := some 0, numClients := 1 } }

/-- The list of the channel. -/
def oneList (i : Nat) : List Addr := if i = 0 then [0] else []

theorem kept_oneClient : Kept oneClient [0] oneList fun _ => [] := by
  have hcore : ∀ a c, coreOf oneClient.heap a = .ok c →
      a = 0 ∧ c = core { UnicastClients.newClient 5 with
        http := { UnicastHttp.newClient with chanPtr := some 0 } } := by
    intro a c hc
    cases a with
    | zero => exact ⟨rfl, (Except.ok.inj hc).symm⟩
    | succ a => cases hc
  have hsingle : ∀ L : LinkedList.Links Client, (∃ n, oneClient.heap.read 0 = .ok n ∧
      L.next n = none ∧ L.prev n = none) → LinkedList.Chained L oneClient.heap [0] := by
    intro L hread
    refine ⟨List.nodup_singleton 0, fun xs a ys hsplit => ?_⟩
    obtain ⟨rfl, rfl, rfl⟩ : xs = [] ∧ a = 0 ∧ ys = [] := by
      cases xs with
      | nil =>
        obtain ⟨rfl, rfl⟩ := List.cons.inj hsplit
        exact ⟨rfl, rfl, rfl⟩
      | cons x xs => simp at hsplit
    exact hread
  refine ⟨⟨hsingle _ ⟨_, rfl, rfl, rfl⟩, rfl, rfl, fun i => ?_, fun i channel hchannel => ?_,
    fun i a => ?_, fun i hnone => ?_⟩, ⟨rfl, rfl, by decide, List.Perm.refl _, fun i info hinfo htype => ?_⟩,
    ⟨fun a _ c hc => ?_, fun a ha b hb hne => ?_⟩, fun a _ c hc => ?_⟩
  · cases i with
    | zero => exact hsingle _ ⟨_, rfl, rfl, rfl⟩
    | succ i => exact LinkedList.chained_nil _
  · cases i with
    | zero =>
      cases hchannel
      rfl
    | succ i => cases hchannel
  · rw [List.mem_singleton]
    constructor
    · intro ha
      cases i with
      | zero => exact ⟨List.mem_singleton.mp ha, _, by rw [List.mem_singleton.mp ha]; rfl, rfl⟩
      | succ i => cases ha
    · rintro ⟨rfl, c, hc, hptr⟩
      rw [(hcore 0 c hc).2] at hptr
      cases hptr
      exact List.mem_singleton_self 0
  · cases i with
    | zero => cases hnone
    | succ i => rfl
  · cases i with
    | zero =>
      cases hinfo
      cases htype
    | succ i =>
      cases i with
      | zero =>
        cases hinfo
        exact ⟨0, _, rfl, rfl, rfl⟩
      | succ i => cases hinfo
  · rw [(hcore a c hc).2]
    exact isQueue_empty _
  · exact absurd ((List.mem_singleton.mp ha).trans (List.mem_singleton.mp hb).symm) hne
  · rw [(hcore a c hc).2]
    exact ⟨fun hasked => absurd rfl hasked, fun cells hcells => by (cases hcells), fun _ => rfl,
      Nat.le_refl 0⟩

end MuMuDVB.UnicastDisconnect
