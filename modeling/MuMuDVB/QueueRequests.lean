import MuMuDVB.UnicastSend

/-!
# What is asked of a client's queue

`unicast_data_send` calls the functions of the queue one after the other, each
under a condition of its own. Here are these calls in any order, with a record of
what entered the queue and what left it, and the invariant that they keep.
-/
namespace MuMuDVB.QueueRequests

open CheckedMemory CheckedHeap RecordedRun MuMuDVB.UnicastQueue MuMuDVB.UnicastSend

/-- The queue of a client. What entered it and what left it is kept for the proofs only. -/
structure QueueState where
  heap : Heap Block
  header : QueueHeader
  entered : List (List UInt8)
  left : List (List UInt8)

inductive Request where
  /-- `unicast_queue_add_data`, behind the check of the size -/
  | add (data : List UInt8)
  /-- the mark that the queue is full -/
  | full
  | get
  /-- the first buffer was written -/
  | remove
  /-- a part of the first buffer was written: it is removed and its rest put back -/
  | requeue (writtenLen : Nat)
  | clear
  /-- something else is done with the heap -/
  | elsewhere (heap : Heap Block)

/-- The conditions under which `unicast_data_send` makes the calls. -/
def Issued (queueMaxSize : Int) (s : QueueState) : Request → Prop
  | .add data => s.header.dataBytesInQueue + data.length < queueMaxSize
  | .get => s.header.packetsInQueue ≠ 0
  | .remove => s.header.packetsInQueue ≠ 0
  | .requeue writtenLen => 0 < writtenLen ∧ ∃ data len,
      unicastQueueGetData s.heap s.header = .ok (data, len) ∧ writtenLen < len
  | .elsewhere heap => ∀ es, IsQueue s.heap s.header es →
      ∀ a ∈ footprint es, heap.read a = s.heap.read a
  | _ => True

/-- The queue after some of its first buffers were taken away. -/
def QueueState.without (s : QueueState) (blocks : List (List UInt8))
    (r : Heap Block × QueueHeader) : QueueState :=
  ⟨r.1, r.2, s.entered,
    s.left ++ blocks.take (s.header.packetsInQueue - r.2.packetsInQueue)⟩

def serve (s : QueueState) : Request → Checked QueueState
  | .add data => do
    let r ← unicastQueueAddData s.heap s.header data
    return ⟨r.1, r.2, s.entered ++ [data], s.left⟩
  | .full => .ok { s with header := { s.header with full := true } }
  | .get => do
    let _ ← unicastQueueGetData s.heap s.header
    return s
  | .remove => do
    let blocks ← buffers s.heap s.header
    let r ← unicastQueueRemoveData s.heap s.header
    return s.without blocks r
  | .requeue writtenLen => do
    let (data, len) ← unicastQueueGetData s.heap s.header
    let blocks ← buffers s.heap s.header
    let r ← unicastQueueRemoveData s.heap s.header
    let s' := s.without blocks r
    let r' ← unicastQueueRequeue s'.heap s'.header data writtenLen (len - writtenLen)
    return { s' with heap := r'.1, header := r'.2 }
  | .clear => do
    let blocks ← buffers s.heap s.header
    let r ← unicastQueueClear (s.header.packetsInQueue + 1) s.heap s.header
    return s.without blocks r
  | .elsewhere heap => .ok { s with heap := heap }

/-- The queue of a new client, and the requests to it. -/
def queueSystem (queueMaxSize : Int) : System QueueState Request where
  Initial s := s.header = emptyHeader ∧ s.entered = [] ∧ s.left = []
  Step s r s' := Issued queueMaxSize s r ∧ serve s r = .ok s'

/-- The header describes the chain, the bytes in it are below the maximum, and the buffers leave in
the order in which they entered. -/
def Sound (queueMaxSize : Int) (s : QueueState) : Prop :=
  ∃ es, IsQueue s.heap s.header es ∧ s.header.dataBytesInQueue < queueMaxSize ∧
    s.entered = s.left ++ contents es

/-- The rest of a buffer is to be put back although another one is behind it. -/
def TearsInFront (s : QueueState) (r : Request) : Prop :=
  ∃ writtenLen, r = .requeue writtenLen ∧ 1 < s.header.packetsInQueue

/-- The invariant without the maximum, which the empty queue of a new client may be above. -/
structure Kept (queueMaxSize : Int) (s : QueueState) (es : List Element) : Prop where
  queue : IsQueue s.heap s.header es
  below : es ≠ [] → s.header.dataBytesInQueue < queueMaxSize
  order : s.entered = s.left ++ contents es

section serve

variable {queueMaxSize : Int} {s s' : QueueState} {e : Element} {es : List Element}
  {data : List UInt8} {past : List Request}

theorem size_empty {h : Heap Block} {header : QueueHeader} (hq : IsQueue h header []) :
    header.dataBytesInQueue = 0 := hq.size

theorem Kept.sound_iff (hk : Kept queueMaxSize s es) : Sound queueMaxSize s ↔ 0 < queueMaxSize := by
  constructor
  · rintro ⟨es', hq, hbelow, -⟩
    have hsize := hq.size
    omega
  · intro hpos
    refine ⟨es, hk.queue, ?_, hk.order⟩
    by_cases hempty : es = []
    · have hq := hk.queue
      rw [hempty] at hq
      rw [size_empty hq]
      exact hpos
    · exact hk.below hempty

theorem Kept.add (hk : Kept queueMaxSize s es)
    (hroom : s.header.dataBytesInQueue + data.length < queueMaxSize) :
    ∃ s' es', serve s (.add data) = .ok s' ∧ Kept queueMaxSize s' es' := by
  obtain ⟨h', header', e, hadd, hbytes, hq', -⟩ := hk.queue.addData data
  have hcontents : contents (es ++ [e]) = contents es ++ [data] := by
    rw [contents_concat, hbytes]
  have hsize : header'.dataBytesInQueue = s.header.dataBytesInQueue + data.length := by
    rw [hq'.size, hk.queue.size, hcontents, List.flatten_append, List.length_append,
      List.flatten_singleton, Int.natCast_add]
  refine ⟨⟨h', header', s.entered ++ [data], s.left⟩, es ++ [e], ?_, hq', fun _ => ?_, ?_⟩
  · rw [serve, hadd]
    rfl
  · dsimp only
    omega
  · rw [hcontents, ← List.append_assoc, ← hk.order]

/-- The first buffer leaves. -/
theorem Kept.without_head (hk : Kept queueMaxSize s (e :: es)) {r : Heap Block × QueueHeader}
    (hq : IsQueue r.1 r.2 es) :
    Kept queueMaxSize (s.without (contents (e :: es)) r) es := by
  have hsize : r.2.dataBytesInQueue ≤ s.header.dataBytesInQueue := by
    rw [hq.size, hk.queue.size, contents_cons, List.flatten_cons, List.length_append]
    omega
  have hone : s.header.packetsInQueue - r.2.packetsInQueue = 1 := by
    rw [hk.queue.packets, hq.packets, List.length_cons]
    omega
  refine ⟨hq, fun _ => ?_, ?_⟩
  · have := hk.below (List.cons_ne_nil e es)
    show r.2.dataBytesInQueue < queueMaxSize
    omega
  · show s.entered = s.left ++ _ ++ contents es
    rw [hone, hk.order, contents_cons, List.append_assoc]
    rfl

theorem Kept.remove (hk : Kept queueMaxSize s (e :: es)) :
    ∃ s', serve s .remove = .ok s' ∧ Kept queueMaxSize s' es := by
  obtain ⟨h', header', hremove, hq', -⟩ := hk.queue.removeData
  refine ⟨_, ?_, hk.without_head (r := (h', header')) hq'⟩
  rw [serve, hk.queue.buffers, bind_ok, hremove]
  rfl

theorem Kept.clear (hk : Kept queueMaxSize s es) :
    ∃ s', serve s .clear = .ok s' ∧ Kept queueMaxSize s' [] := by
  obtain ⟨h', header', hclear, hq', -⟩ := hk.queue.clear
  refine ⟨s.without (contents es) (h', header'), ?_, hq', fun hne => absurd rfl hne, ?_⟩
  · rw [serve, hk.queue.buffers, bind_ok, hclear]
    rfl
  · have hall : s.header.packetsInQueue - header'.packetsInQueue = (contents es).length := by
      rw [hk.queue.packets, hq'.packets, contents, List.length_map]
      rfl
    show s.entered = s.left ++ _ ++ contents []
    rw [hall, List.take_length, hk.order]
    exact (List.append_nil _).symm

/-- The only buffer of a queue is gone when its rest is to be put back. -/
theorem Kept.requeue_single (hk : Kept queueMaxSize s [e]) (writtenLen : Nat) :
    ∃ s', serve s (.requeue writtenLen) = .ok s' ∧ Kept queueMaxSize s' [] := by
  obtain ⟨h', header', hremove, hq', -⟩ := hk.queue.removeData
  refine ⟨_, ?_, hk.without_head (r := (h', header')) hq'⟩
  have hzero : (s.without (contents [e]) (h', header')).header.packetsInQueue = 0 := hq'.packets
  rw [serve, hk.queue.getData, bind_ok]
  dsimp only
  rw [hk.queue.buffers, bind_ok, hremove, bind_ok, unicastQueueRequeue, if_pos hzero]
  rfl

/-- With another buffer behind it the copy reads what was released. -/
theorem Kept.requeue_fault {e' : Element} (hk : Kept queueMaxSize s (e :: e' :: es))
    (writtenLen : Nat) : serve s (.requeue writtenLen) = .error .released := by
  obtain ⟨h', header', hremove, hq', -, hreleased⟩ := hk.queue.removeData
  have hnonzero :
      (s.without (contents (e :: e' :: es)) (h', header')).header.packetsInQueue ≠ 0 := by
    show header'.packetsInQueue ≠ 0
    rw [hq'.packets]
    exact Nat.succ_ne_zero _
  have hread : readBytes (s.without (contents (e :: e' :: es)) (h', header')).heap e.data
      (writtenLen + (e.bytes.length - writtenLen)) = .error .released := by
    show readBytes h' e.data _ = _
    rw [readBytes, hreleased]
    rfl
  rw [serve, hk.queue.getData, bind_ok]
  dsimp only
  rw [hk.queue.buffers, bind_ok, hremove, bind_ok, unicastQueueRequeue, if_neg hnonzero, hread]
  rfl

/-- Something elsewhere in the heap. -/
theorem Kept.elsewhere (hk : Kept queueMaxSize s es) {heap : Heap Block}
    (hsame : ∀ a ∈ footprint es, heap.read a = s.heap.read a) :
    Kept queueMaxSize { s with heap := heap } es :=
  ⟨hk.queue.congr hsame, hk.below, hk.order⟩

theorem getData_nonempty (hq : IsQueue s.heap s.header es) (hne : s.header.packetsInQueue ≠ 0) :
    ∃ e es', es = e :: es' := by
  rw [hq.packets] at hne
  exact List.exists_cons_of_ne_nil fun hnil => hne (by rw [hnil]; rfl)

/-- A request is served, and the queue stays one, unless it tears a buffer in front of another. -/
theorem Kept.served (hk : Kept queueMaxSize s es) {r : Request} (hissued : Issued queueMaxSize s r)
    (htears : ¬TearsInFront s r) :
    ∃ s' es', serve s r = .ok s' ∧ Kept queueMaxSize s' es' := by
  cases r with
  | add data => exact hk.add hissued
  | full =>
    exact ⟨_, es, rfl, ⟨hk.queue.linked, hk.queue.last, hk.queue.packets, hk.queue.size,
      hk.queue.apart⟩, hk.below, hk.order⟩
  | get =>
    obtain ⟨e, es', rfl⟩ := getData_nonempty hk.queue hissued
    refine ⟨s, _, ?_, hk⟩
    rw [serve, hk.queue.getData]
    rfl
  | remove =>
    obtain ⟨e, es', rfl⟩ := getData_nonempty hk.queue hissued
    obtain ⟨s', hs', hk'⟩ := hk.remove
    exact ⟨s', es', hs', hk'⟩
  | requeue writtenLen =>
    obtain ⟨hpos, data, len, hget, hlt⟩ := hissued
    have hne : s.header.packetsInQueue ≠ 0 := by
      intro hzero
      rw [unicastQueueGetData, if_pos hzero] at hget
      cases hget
    obtain ⟨e, es', rfl⟩ := getData_nonempty hk.queue hne
    cases es' with
    | nil =>
      obtain ⟨s', hs', hk'⟩ := hk.requeue_single writtenLen
      exact ⟨s', [], hs', hk'⟩
    | cons e' es' =>
      refine absurd ⟨writtenLen, rfl, ?_⟩ htears
      rw [hk.queue.packets]
      simp
  | clear =>
    obtain ⟨s', hs', hk'⟩ := hk.clear
    exact ⟨s', [], hs', hk'⟩
  | elsewhere heap => exact ⟨_, es, rfl, hk.elsewhere (hissued es hk.queue)⟩

theorem Kept.faults (hk : Kept queueMaxSize s es) {r : Request} (htears : TearsInFront s r) :
    serve s r = .error .released := by
  obtain ⟨writtenLen, rfl, hmany⟩ := htears
  rw [hk.queue.packets] at hmany
  obtain _ | ⟨e, _ | ⟨e', es⟩⟩ := es
  · exact absurd hmany (Nat.not_lt_zero 1)
  · exact absurd hmany (Nat.lt_irrefl 1)
  · exact hk.requeue_fault writtenLen

/-- Every run keeps the queue. -/
theorem run_kept (hrun : Run (queueSystem queueMaxSize) past s) :
    ∃ es, Kept queueMaxSize s es := by
  refine hrun.invariant (P := fun _ s => ∃ es, Kept queueMaxSize s es) ?_ ?_
  · rintro s ⟨hheader, hentered, hleft⟩
    refine ⟨[], by rw [hheader]; exact isQueue_empty s.heap, fun hne => absurd rfl hne, ?_⟩
    rw [hentered, hleft]
    rfl
  · rintro past s r s' ⟨es, hk⟩ ⟨hissued, hserve⟩
    by_cases htears : TearsInFront s r
    · rw [hk.faults htears] at hserve
      cases hserve
    · obtain ⟨s₁, es', hs₁, hk'⟩ := hk.served hissued htears
      rw [hserve] at hs₁
      cases hs₁
      exact ⟨es', hk'⟩

end serve

section sends

/-! The calls of `unicast_data_send` are such requests. -/

variable {p : UnicastParameters} {buf : List UInt8} {outcome : Nat → SendOutcome}
  {s s' : ClientState} {es : List Element}

/-- The queue of the client is that of a run. -/
def Asked (queueMaxSize : Int) (s : ClientState) : Prop :=
  ∃ past q, Run (queueSystem queueMaxSize) past q ∧ q.heap = s.heap ∧ q.header = s.client.queue

theorem asked_initial (queueMaxSize : Int) (h : Heap Block) (errno : Nat) :
    Asked queueMaxSize ⟨h, errno, newClient⟩ :=
  ⟨[], ⟨h, emptyHeader, [], []⟩, .start ⟨rfl, rfl, rfl⟩, rfl, rfl⟩

/-- What does not touch the queue. -/
theorem Asked.same {queueMaxSize : Int} (h : Asked queueMaxSize s) (hheap : s'.heap = s.heap)
    (hqueue : s'.client.queue = s.client.queue) : Asked queueMaxSize s' := by
  obtain ⟨past, q, hrun, hq, hheader⟩ := h
  exact ⟨past, q, hrun, hq.trans hheap.symm, hheader.trans hqueue.symm⟩

theorem Asked.kept {queueMaxSize : Int} (h : Asked queueMaxSize s) :
    ∃ es, IsQueue s.heap s.client.queue es := by
  obtain ⟨past, q, hrun, hheap, hheader⟩ := h
  obtain ⟨es, hk⟩ := run_kept hrun
  exact ⟨es, by rw [← hheap, ← hheader]; exact hk.queue⟩

theorem Asked.add {data : List UInt8} {r : Heap Block × QueueHeader}
    (h : Asked p.queueMaxSize s)
    (hroom : s.client.queue.dataBytesInQueue + data.length < p.queueMaxSize)
    (hadd : unicastQueueAddData s.heap s.client.queue data = .ok r) :
    Asked p.queueMaxSize (s.setQueue r) := by
  obtain ⟨past, q, hrun, hheap, hheader⟩ := h
  refine ⟨_, ⟨r.1, r.2, q.entered ++ [data], q.left⟩,
    hrun.next (e := Request.add data) ⟨?_, ?_⟩, rfl, rfl⟩
  · show q.header.dataBytesInQueue + data.length < p.queueMaxSize
    rw [hheader]
    exact hroom
  · rw [serve, hheap, hheader, hadd]
    rfl

theorem Asked.full (h : Asked p.queueMaxSize s) :
    Asked p.queueMaxSize { s with client := { s.client with
      queue := { s.client.queue with full := true } } } := by
  obtain ⟨past, q, hrun, hheap, hheader⟩ := h
  refine ⟨_, { q with header := { q.header with full := true } },
    hrun.next (e := Request.full) ⟨trivial, rfl⟩, hheap, ?_⟩
  dsimp only
  rw [hheader]

theorem Asked.remove {r : Heap Block × QueueHeader} (h : Asked p.queueMaxSize s)
    (hne : s.client.queue.packetsInQueue ≠ 0)
    (hremove : unicastQueueRemoveData s.heap s.client.queue = .ok r) :
    Asked p.queueMaxSize (s.setQueue r) := by
  obtain ⟨past, q, hrun, hheap, hheader⟩ := h
  obtain ⟨es, hk⟩ := run_kept hrun
  refine ⟨_, q.without (contents es) r, hrun.next (e := Request.remove) ⟨?_, ?_⟩, rfl, rfl⟩
  · show q.header.packetsInQueue ≠ 0
    rw [hheader]
    exact hne
  · rw [serve, hk.queue.buffers, bind_ok, hheap, hheader, hremove]
    rfl

theorem Asked.clear {r : Heap Block × QueueHeader} (h : Asked p.queueMaxSize s)
    (hclear : unicastQueueClear (s.client.queue.packetsInQueue + 1) s.heap s.client.queue = .ok r) :
    Asked p.queueMaxSize (s.setQueue r) := by
  obtain ⟨past, q, hrun, hheap, hheader⟩ := h
  obtain ⟨es, hk⟩ := run_kept hrun
  refine ⟨_, q.without (contents es) r, hrun.next (e := Request.clear) ⟨trivial, ?_⟩, rfl, rfl⟩
  rw [serve, hk.queue.buffers, bind_ok, hheap, hheader, hclear]
  rfl

theorem Asked.requeue {data : Addr} {len writtenLen : Nat} {r r' : Heap Block × QueueHeader}
    (h : Asked p.queueMaxSize s)
    (hget : unicastQueueGetData s.heap s.client.queue = .ok (data, len))
    (hpos : 0 < writtenLen) (hlt : writtenLen < len)
    (hremove : unicastQueueRemoveData s.heap s.client.queue = .ok r)
    (hrequeue : unicastQueueRequeue r.1 r.2 data writtenLen (len - writtenLen) = .ok r') :
    Asked p.queueMaxSize (s.setQueue r') := by
  obtain ⟨past, q, hrun, hheap, hheader⟩ := h
  obtain ⟨es, hk⟩ := run_kept hrun
  refine ⟨_, { q.without (contents es) r with heap := r'.1, header := r'.2 },
    hrun.next (e := Request.requeue writtenLen) ⟨?_, ?_⟩, rfl, rfl⟩
  · refine ⟨hpos, data, len, ?_, hlt⟩
    rw [hheap, hheader]
    exact hget
  · have hblocks := hk.queue.buffers
    rw [serve]
    rw [hheap, hheader] at hblocks ⊢
    rw [hget, bind_ok]
    dsimp only
    rw [hblocks, bind_ok, hremove, bind_ok]
    dsimp only [QueueState.without]
    rw [hrequeue]
    rfl

theorem length_readBytes {h : Heap Block} {block : Addr} {len : Nat} {buffer : List UInt8}
    (hread : readBytes h block len = .ok buffer) : buffer.length = len := by
  rw [readBytes] at hread
  obtain ⟨b, -, hread⟩ := bind_eq_ok.mp hread
  cases b with
  | node element => cases hread
  | bytes data =>
    dsimp only at hread
    split at hread
    case isTrue hle =>
      cases hread
      rw [List.length_take, Nat.min_eq_left hle]
    case isFalse => cases hread

theorem clearErrors_queue (client : UnicastClient) : (clearErrors client).queue = client.queue := by
  unfold clearErrors
  split <;> rfl

/-- A buffer of the queue that was not written completely. -/
theorem Asked.notWritten_queue {block : Addr} {len : Nat} {buffer : List UInt8} {writtenLen : Int}
    (h : Asked p.queueMaxSize s)
    (hget : unicastQueueGetData s.heap s.client.queue = .ok (block, len))
    (hlen : buffer.length = len) (hlt : 0 < writtenLen → writtenLen < len)
    (hcall : notWritten p s (some (block, len)) buffer writtenLen = .ok s') :
    Asked p.queueMaxSize s' := by
  rw [notWritten] at hcall
  obtain ⟨s₁, hs₁, ⟨⟩⟩ := bind_eq_ok.mp hcall
  refine Asked.same (s := s₁) ?_ rfl rfl
  split at hs₁
  · obtain ⟨r, hclear, ⟨⟩⟩ := bind_eq_ok.mp hs₁
    exact h.clear hclear
  · dsimp only at hs₁
    split at hs₁
    case isTrue hpos =>
      obtain ⟨r, hremove, hs₁⟩ := bind_eq_ok.mp hs₁
      obtain ⟨r', hrequeue, ⟨⟩⟩ := bind_eq_ok.mp hs₁
      rw [hlen] at hrequeue
      have hpart := hlt hpos
      exact h.requeue hget (by omega) (by omega) hremove hrequeue
    case isFalse =>
      cases hs₁
      exact h

/-- The buffer of the channel that was not written completely. -/
theorem Asked.notWritten_channel {writtenLen : Int} (h : Asked p.queueMaxSize s)
    (hle : writtenLen ≤ buf.length)
    (hcall : notWritten p s none buf writtenLen = .ok s') : Asked p.queueMaxSize s' := by
  rw [notWritten] at hcall
  obtain ⟨s₁, hs₁, ⟨⟩⟩ := bind_eq_ok.mp hcall
  refine Asked.same (s := s₁) ?_ rfl rfl
  split at hs₁
  · cases hs₁
    exact h
  · split at hs₁
    case isTrue hroom =>
      obtain ⟨rest, hrest, hs₁⟩ := bind_eq_ok.mp hs₁
      obtain ⟨r, hadd, ⟨⟩⟩ := bind_eq_ok.mp hs₁
      rw [bytesFrom] at hrest
      split at hrest
      case isTrue hnonneg =>
        cases hrest
        refine h.add ?_ hadd
        rw [List.length_drop]
        omega
      case isFalse => cases hrest
    case isFalse =>
      cases hs₁
      exact h

/-- The pointer that the loop holds is that of the first buffer of the queue. -/
def Holding (s : ClientState) : Option (Addr × Nat) → Prop
  | none => True
  | some next => unicastQueueGetData s.heap s.client.queue = .ok next

/-- A send, from the queue or of the buffer of the channel, that was not complete. -/
theorem Asked.notWritten {data : Option (Addr × Nat)} {buffer : List UInt8} {writtenLen : Int}
    (h : Asked p.queueMaxSize s) (hholding : Holding s data)
    (hbuffer : ∀ block len, data = some (block, len) → buffer.length = len)
    (hle : writtenLen ≤ buffer.length) (hlt : 0 < writtenLen → writtenLen < buffer.length)
    (hcall : UnicastSend.notWritten p s data buffer writtenLen = .ok s') :
    Asked p.queueMaxSize s' := by
  cases data with
  | none => exact h.notWritten_channel hle hcall
  | some next =>
    obtain ⟨block, len⟩ := next
    have hlen := hbuffer block len rfl
    exact h.notWritten_queue hholding hlen (by rw [← hlen]; exact hlt) hcall

theorem Asked.sendPackets (packetsLeft : Nat) : ∀ {k : Nat} {data : Option (Addr × Nat)}
    {s : ClientState}, Asked p.queueMaxSize s → Holding s data →
      UnicastSend.sendPackets p buf outcome packetsLeft k data s = .ok s' →
        Asked p.queueMaxSize s' := by
  induction packetsLeft with
  | zero =>
    intro k data s h _ hcall
    cases hcall
    exact h
  | succ packetsLeft ih =>
    intro k data s h hholding hcall
    rw [UnicastSend.sendPackets.eq_def] at hcall
    dsimp only at hcall
    obtain ⟨buffer, hbuffer, hcall⟩ := bind_eq_ok.mp hcall
    have hlength : ∀ block len, data = some (block, len) → buffer.length = len := by
      rintro block len rfl
      exact length_readBytes hbuffer
    cases hout : outcome k with
    | failed errno =>
      rw [hout] at hcall
      dsimp only at hcall
      split at hcall
      · exact Asked.notWritten (s := { s with
          errno := errno.val
          client := { s.client with lastWriteError := errno.val } })
          (h.same rfl rfl) (by cases data <;> exact hholding) hlength (by omega) (by omega) hcall
      · exact Asked.notWritten (s := { s with errno := errno.val })
          (h.same rfl rfl) (by cases data <;> exact hholding) hlength (by omega) (by omega) hcall
    | accepted n =>
      rw [hout] at hcall
      dsimp only at hcall
      split at hcall
      case isTrue hpart =>
        exact Asked.notWritten (s := { s with client := { s.client with
          accepted := s.client.accepted ++ buffer.take (min n buffer.length) } })
          (h.same rfl rfl) (by cases data <;> exact hholding) hlength (by omega) (by omega) hcall
      case isFalse hwhole =>
        have hclear : Asked p.queueMaxSize { s with client := clearErrors { s.client with
            accepted := s.client.accepted ++ buffer.take (min n buffer.length) } } :=
          h.same rfl (clearErrors_queue _)
        cases data with
        | none =>
          have hnone : Holding { s with client := clearErrors { s.client with
              accepted := s.client.accepted ++ buffer.take (min n buffer.length) } } none :=
            True.intro
          exact ih hclear hnone hcall
        | some next =>
          obtain ⟨r, hremove, hcall⟩ := bind_eq_ok.mp hcall
          have hne : s.client.queue.packetsInQueue ≠ 0 := by
            intro hzero
            have hget : unicastQueueGetData s.heap s.client.queue = .ok next := hholding
            rw [unicastQueueGetData, if_pos hzero] at hget
            cases hget
          have hremoved := hclear.remove (by rw [clearErrors_queue]; exact hne) hremove
          split at hcall
          · cases hcall
            exact hremoved
          · obtain ⟨next', hget, hcall⟩ := bind_eq_ok.mp hcall
            have hnext : Holding _ (some next') := hget
            exact ih hremoved hnext hcall

/-- The sends to one client ask nothing else of its queue. -/
theorem Asked.sendToClient (h : Asked p.queueMaxSize s)
    (hcall : UnicastSend.sendToClient p buf outcome s = .ok s') : Asked p.queueMaxSize s' := by
  rw [UnicastSend.sendToClient] at hcall
  split at hcall
  case isTrue hne =>
    obtain ⟨s₁, hs₁, hcall⟩ := bind_eq_ok.mp hcall
    obtain ⟨next, hget, hcall⟩ := bind_eq_ok.mp hcall
    have hnext : Holding s₁ (some next) := hget
    refine Asked.sendPackets _ ?_ hnext hcall
    split at hs₁
    case isTrue hroom =>
      obtain ⟨r, hadd, ⟨⟩⟩ := bind_eq_ok.mp hs₁
      exact h.add hroom hadd
    case isFalse =>
      cases hs₁
      exact h.full
  case isFalse =>
    have hnone : Holding s none := True.intro
    exact h.sendPackets _ hnone hcall

end sends

/-! Two buffers of two bytes are queued; one byte of the first is written. -/

def noRequest : QueueState := ⟨⟨[]⟩, emptyHeader, [], []⟩

def oneQueued : QueueState where
  heap := ⟨[some (.bytes [1, 2]), some (.node ⟨0, 2, none⟩)]⟩
  header := ⟨1, 2, false, some 1, some 1⟩
  entered := [[1, 2]]
  left := []

def twoQueued : QueueState where
  heap := ⟨[some (.bytes [1, 2]), some (.node ⟨0, 2, some 3⟩), some (.bytes [3, 4]),
    some (.node ⟨2, 2, none⟩)]⟩
  header := ⟨2, 4, false, some 1, some 3⟩
  entered := [[1, 2], [3, 4]]
  left := []

theorem twoQueued_run :
    Run (queueSystem 100) [.add [3, 4], .add [1, 2]] twoQueued := by
  have hstart : Run (queueSystem 100) [] noRequest := .start ⟨rfl, rfl, rfl⟩
  have hfirst : Issued 100 noRequest (.add [1, 2]) := show (0 : Int) + 2 < 100 by decide
  have hone : Run (queueSystem 100) [.add [1, 2]] oneQueued := hstart.next ⟨hfirst, rfl⟩
  have hsecond : Issued 100 oneQueued (.add [3, 4]) := show (2 : Int) + 2 < 100 by decide
  exact hone.next ⟨hsecond, rfl⟩

end MuMuDVB.QueueRequests
