import Mathlib.Data.List.Nodup
import MuMuDVB.RecordedRun
import MuMuDVB.UnicastQueue

/-!
# Sending to the unicast clients

A full buffer of a channel goes to each of its clients: directly while the queue
of the client is empty, else through the queue. The clients share one heap. The
clock is left out: no client is disconnected for a timeout.
-/
namespace MuMuDVB.UnicastSend

open CheckedMemory CheckedHeap RecordedRun MuMuDVB.UnicastQueue

/-- A value that a failing call leaves in `errno`. -/
abbrev Errno := { e : Nat // e ≠ 0 }

@[simp] abbrev eagain : Nat := 11
/-- `UNICAST_MULTIPLE_QUEUE_SEND`. -/
@[simp] abbrev unicastMultipleQueueSend : Nat := 3

/-- What `send` does: it accepts some bytes, at most all, or it fails. -/
inductive SendOutcome where
  | accepted (n : Nat)
  | failed (errno : Errno)

structure UnicastParameters where
  queueMaxSize : Int
  flushOnEagain : Bool

structure UnicastClient where
  queue : QueueHeader
  consecutiveErrors : Nat
  lastWriteError : Nat
  /-- what the socket has accepted so far -/
  accepted : List UInt8

/-- A client allocated by `calloc`. -/
def newClient : UnicastClient := ⟨emptyHeader, 0, 0, []⟩

/-- What the body of the loop over the clients works on. -/
structure ClientState where
  heap : Heap Block
  errno : Nat
  client : UnicastClient

def ClientState.setQueue (s : ClientState) (r : Heap Block × QueueHeader) : ClientState :=
  { s with heap := r.1, client := { s.client with queue := r.2 } }

/-- The bytes from `buffer+written_len` on. -/
def bytesFrom (buffer : List UInt8) (writtenLen : Int) : Checked (List UInt8) :=
  if 0 ≤ writtenLen then .ok (buffer.drop writtenLen.toNat) else .error .outOfBounds

/-- The branch of `unicast_data_send` for data that was not written completely; `data` is the
pointer into the queue, if the data is from there. -/
def notWritten (p : UnicastParameters) (s : ClientState) (data : Option (Addr × Nat))
    (buffer : List UInt8) (writtenLen : Int) : Checked ClientState := do
  let s ← (if p.flushOnEagain ∧ s.errno = eagain then
      match data with
      | none => .ok s
      | some _ => do
        let r ← unicastQueueClear (s.client.queue.packetsInQueue + 1) s.heap s.client.queue
        return s.setQueue r
    else
      match data with
      | none =>
        if s.client.queue.dataBytesInQueue + buffer.length - writtenLen < p.queueMaxSize then do
          let rest ← bytesFrom buffer writtenLen
          let r ← unicastQueueAddData s.heap s.client.queue rest
          return s.setQueue r
        else .ok s
      | some (block, _) =>
        if 0 < writtenLen then do
          let (h, queue) ← unicastQueueRemoveData s.heap s.client.queue
          let r ← unicastQueueRequeue h queue block writtenLen.toNat
            (buffer.length - writtenLen.toNat)
          return s.setQueue r
        else .ok s : Checked ClientState)
  return { s with client := { s.client with
    consecutiveErrors := if s.client.consecutiveErrors = 0 then 1 else s.client.consecutiveErrors } }

/-- The error state after a complete write. -/
def clearErrors (client : UnicastClient) : UnicastClient :=
  if client.consecutiveErrors ≠ 0 then { client with consecutiveErrors := 0, lastWriteError := 0 }
  else client

/-- The loop of `unicast_data_send` over the sends to one client; `outcome k` is what the `k`-th
does. -/
def sendPackets (p : UnicastParameters) (buf : List UInt8) (outcome : Nat → SendOutcome) :
    Nat → Nat → Option (Addr × Nat) → ClientState → Checked ClientState
  | 0, _, _, s => .ok s
  | packetsLeft + 1, k, data, s => do
    let buffer ← (match data with
      | none => .ok buf
      | some (block, len) => readBytes s.heap block len : Checked (List UInt8))
    match outcome k with
    | .failed errno =>
      let s := { s with errno := errno.val }
      if errno.val ≠ s.client.lastWriteError then
        notWritten p { s with client := { s.client with lastWriteError := errno.val } } data buffer 0
      -- the same error again: `written_len` stays −1
      else notWritten p s data buffer (-1)
    | .accepted n =>
      let writtenLen := min n buffer.length
      let s := { s with client := { s.client with
        accepted := s.client.accepted ++ buffer.take writtenLen } }
      if writtenLen < buffer.length then notWritten p s data buffer writtenLen
      else
        let s := { s with client := clearErrors s.client }
        match data with
        | none => sendPackets p buf outcome packetsLeft (k + 1) none s
        | some _ => do
          let r ← unicastQueueRemoveData s.heap s.client.queue
          let s := s.setQueue r
          if s.client.queue.packetsInQueue = 0 ∨ packetsLeft = 0 then return s
          else do
            let next ← unicastQueueGetData s.heap s.client.queue
            sendPackets p buf outcome packetsLeft (k + 1) (some next) s

/-- A new buffer does not fit behind the queued ones. -/
def QueueFull (p : UnicastParameters) (client : UnicastClient) (buf : List UInt8) : Prop :=
  client.queue.packetsInQueue ≠ 0 ∧
    ¬ client.queue.dataBytesInQueue + buf.length < p.queueMaxSize

instance (p : UnicastParameters) (client : UnicastClient) (buf : List UInt8) :
    Decidable (QueueFull p client buf) := by
  unfold QueueFull
  infer_instance

/-- The body of the loop over the clients. -/
def sendToClient (p : UnicastParameters) (buf : List UInt8) (outcome : Nat → SendOutcome)
    (s : ClientState) : Checked ClientState :=
  if s.client.queue.packetsInQueue ≠ 0 then do
    let s ← (if s.client.queue.dataBytesInQueue + buf.length < p.queueMaxSize then do
        let r ← unicastQueueAddData s.heap s.client.queue buf
        return s.setQueue r
      else .ok { s with client := { s.client with
        queue := { s.client.queue with full := true } } } : Checked ClientState)
    let next ← unicastQueueGetData s.heap s.client.queue
    sendPackets p buf outcome unicastMultipleQueueSend 0 (some next) s
  else sendPackets p buf outcome 1 0 none s

/-- The heap, `errno` and the clients of a channel. -/
structure UnicastState where
  heap : Heap Block
  errno : Nat
  clients : List UnicastClient

/-- `unicast_data_send`; `outcomes i` is for the sends to client `i`. -/
def unicastDataSend (p : UnicastParameters) (buf : List UInt8) :
    (Nat → Nat → SendOutcome) → Heap Block → Nat → List UnicastClient → Checked UnicastState
  | _, h, errno, [] => .ok ⟨h, errno, []⟩
  | outcomes, h, errno, client :: clients => do
    let s ← sendToClient p buf (outcomes 0) ⟨h, errno, client⟩
    let later ← unicastDataSend p buf (fun i => outcomes (i + 1)) s.heap s.errno clients
    return { later with clients := s.client :: later.clients }

section client

/-- The error state says that the last write succeeded where the code relies on it. -/
structure Tidy (client : UnicastClient) : Prop where
  empty : client.queue.packetsInQueue = 0 → client.lastWriteError = 0
  quiet : client.consecutiveErrors = 0 → client.lastWriteError = 0

/-- After work on a client whose queue was `es`: the queue is a list again, and the bytes that the
socket has accepted and the queued ones are `stream`. -/
def Served (h : Heap Block) (es : List Element) (stream : List UInt8) (s : ClientState) : Prop :=
  ∃ es', IsQueue s.heap s.client.queue es' ∧ Tidy s.client ∧
    Transfers h (footprint es) s.heap (footprint es') ∧
    s.client.accepted ++ (contents es').flatten = stream

/-- A send from the queue accepts a part of a buffer. -/
def Tears (outcome : Nat → SendOutcome) : Nat → Nat → List (List UInt8) → Prop
  | packetsLeft + 1, k, block :: blocks =>
    match outcome k with
    | .accepted n => if n < block.length then 0 < n else Tears outcome packetsLeft (k + 1) blocks
    | .failed _ => False
  | _, _, _ => False

variable {p : UnicastParameters} {buf : List UInt8} {outcome : Nat → SendOutcome}
  {s : ClientState} {e : Element} {es : List Element}

theorem clearErrors_tidy {client : UnicastClient} (h : Tidy client) :
    (clearErrors client).lastWriteError = 0 ∧ (clearErrors client).queue = client.queue ∧
      (clearErrors client).accepted = client.accepted := by
  unfold clearErrors
  split
  case isTrue => exact ⟨rfl, rfl, rfl⟩
  case isFalse hquiet => exact ⟨h.quiet (not_not.mp hquiet), rfl, rfl⟩

/-- Nothing of a queued buffer was accepted: it stays. -/
theorem notWritten_queue (hflush : p.flushOnEagain = false) (data : Addr × Nat)
    (buffer : List UInt8) {writtenLen : Int} (hnone : ¬ 0 < writtenLen) :
    ∃ n, n ≠ 0 ∧ notWritten p s (some data) buffer writtenLen =
      .ok { s with client := { s.client with consecutiveErrors := n } } := by
  refine ⟨if s.client.consecutiveErrors = 0 then 1 else s.client.consecutiveErrors, ?_, ?_⟩
  · split <;> omega
  · rw [notWritten, if_neg (by simp [hflush])]
    dsimp only
    rw [if_neg hnone, bind_ok]
    rfl

/-- What is left of the buffer of the channel goes to the empty queue. -/
theorem notWritten_channel (hflush : p.flushOnEagain = false)
    (hroom : (buf.length : Int) < p.queueMaxSize) (hq : IsQueue s.heap s.client.queue [])
    (n : Nat) :
    ∃ s', notWritten p s none buf n = .ok s' ∧
      Served s.heap [] (s.client.accepted ++ buf.drop n) s' := by
  have hsize : s.client.queue.dataBytesInQueue = 0 := hq.size
  obtain ⟨h', header', e, hadd, hbytes, hq', htransfer⟩ := hq.addData (buf.drop n)
  have hfrom : bytesFrom buf n = .ok (buf.drop n) := by
    rw [bytesFrom, if_pos (by omega), Int.toNat_natCast]
  rw [notWritten, if_neg (by simp [hflush])]
  dsimp only
  rw [hsize, if_pos (by omega), hfrom, bind_ok, hadd]
  refine ⟨_, rfl, [e], hq', ⟨fun hempty => ?_, fun hquiet => ?_⟩, htransfer, ?_⟩
  · have hone : header'.packetsInQueue = 1 := hq'.packets
    have hzero : header'.packetsInQueue = 0 := hempty
    omega
  · dsimp only at hquiet
    split at hquiet <;> omega
  · rw [contents, List.map_singleton, hbytes, List.flatten_singleton]
    rfl

variable (p buf) in
/-- A whole buffer was accepted: it leaves the queue, and the loop goes on with the next one. -/
theorem sendPackets_whole (packetsLeft : Nat) {k n : Nat} (hq : IsQueue s.heap s.client.queue (e :: es))
    (htidy : Tidy s.client) (hout : outcome k = .accepted n) (hlen : e.bytes.length ≤ n) :
    ∃ s₁, IsQueue s₁.heap s₁.client.queue es ∧ Tidy s₁.client ∧
      Transfers s.heap (footprint (e :: es)) s₁.heap (footprint es) ∧
      s₁.client.accepted = s.client.accepted ++ e.bytes ∧
      sendPackets p buf outcome (packetsLeft + 1) k (some (e.data, e.bytes.length)) s =
        match es with
        | [] => .ok s₁
        | e' :: _ => if packetsLeft = 0 then .ok s₁ else
          sendPackets p buf outcome packetsLeft (k + 1) (some (e'.data, e'.bytes.length)) s₁ := by
  have hmin : min n e.bytes.length = e.bytes.length := Nat.min_eq_right hlen
  obtain ⟨h', header', hremove, hq', htransfer, -⟩ := hq.removeData
  have htidy' : Tidy { s.client with accepted := s.client.accepted ++ e.bytes } :=
    ⟨htidy.empty, htidy.quiet⟩
  obtain ⟨hclear, hqueue, haccepted⟩ := clearErrors_tidy htidy'
  let client := clearErrors { s.client with accepted := s.client.accepted ++ e.bytes }
  refine ⟨⟨h', s.errno, { client with queue := header' }⟩, hq', ⟨fun _ => hclear, fun _ => hclear⟩,
    htransfer, haccepted, ?_⟩
  rw [sendPackets, readBytes_eq hq.head, bind_ok, hout]
  dsimp only
  rw [hmin, if_neg (Nat.lt_irrefl _), List.take_length, hqueue, hremove, bind_ok]
  have hpackets : header'.packetsInQueue = es.length := hq'.packets
  cases es with
  | nil =>
    rw [if_pos (.inl hpackets)]
    rfl
  | cons e' es =>
    have hnonzero : header'.packetsInQueue ≠ 0 := by
      rw [hpackets]
      exact Nat.succ_ne_zero _
    dsimp only [ClientState.setQueue]
    by_cases hleft : packetsLeft = 0
    · have hlast : header'.packetsInQueue = 0 ∨ packetsLeft = 0 := .inr hleft
      refine Eq.trans (if_pos hlast) ?_
      rw [if_pos hleft]
      rfl
    · have hmore : ¬ (header'.packetsInQueue = 0 ∨ packetsLeft = 0) :=
        fun hlast => hlast.elim hnonzero hleft
      refine Eq.trans (if_neg hmore) ?_
      rw [if_neg hleft, hq'.getData]
      rfl

/-- Nothing was accepted: the loop ends. -/
theorem sendPackets_nothing (hflush : p.flushOnEagain = false) {packetsLeft k : Nat}
    (hq : IsQueue s.heap s.client.queue (e :: es))
    (hnothing : (∃ errno, outcome k = .failed errno) ∨
      (outcome k = .accepted 0 ∧ 0 < e.bytes.length)) :
    ∃ s', sendPackets p buf outcome (packetsLeft + 1) k (some (e.data, e.bytes.length)) s = .ok s' ∧
      Served s.heap (e :: es) (s.client.accepted ++ (contents (e :: es)).flatten) s' := by
  have hserved : ∀ {errno last n : Nat}, n ≠ 0 → Served s.heap (e :: es)
      (s.client.accepted ++ (contents (e :: es)).flatten) ⟨s.heap, errno, { s.client with
        consecutiveErrors := n
        lastWriteError := last }⟩ := by
    intro errno last n hn
    refine ⟨e :: es, hq, ⟨fun hempty => ?_, fun hquiet => absurd hquiet hn⟩, Transfers.refl _ _, rfl⟩
    have hzero : s.client.queue.packetsInQueue = 0 := hempty
    exact absurd (hzero.symm.trans hq.packets) (Nat.succ_ne_zero _).symm
  rw [sendPackets, readBytes_eq hq.head, bind_ok]
  rcases hnothing with ⟨errno, hout⟩ | ⟨hout, hlen⟩
  · rw [hout]
    dsimp only
    split
    · obtain ⟨n, hn, hresult⟩ := notWritten_queue hflush (s := ⟨s.heap, errno.val, { s.client with
        lastWriteError := errno.val }⟩) (e.data, e.bytes.length) e.bytes
        (show ¬ (0 : Int) < 0 by omega)
      exact ⟨_, hresult, hserved hn⟩
    · obtain ⟨n, hn, hresult⟩ := notWritten_queue hflush (s := ⟨s.heap, errno.val, s.client⟩)
        (e.data, e.bytes.length) e.bytes (show ¬ (0 : Int) < -1 by omega)
      exact ⟨_, hresult, hserved hn⟩
  · rw [hout]
    dsimp only
    rw [Nat.zero_min, if_pos hlen, List.take_zero, List.append_nil]
    obtain ⟨n, hn, hresult⟩ := notWritten_queue hflush (s := s) (e.data, e.bytes.length)
      e.bytes (show ¬ (0 : Int) < ((0 : Nat) : Int) by omega)
    exact ⟨_, hresult, hserved hn⟩

/-- The cases of one send from the queue. -/
theorem tears_cons {packetsLeft k : Nat} (hnot : ¬ Tears outcome (packetsLeft + 1) k
    (contents (e :: es))) :
    ((∃ errno, outcome k = .failed errno) ∨ (outcome k = .accepted 0 ∧ 0 < e.bytes.length)) ∨
    ∃ n, outcome k = .accepted n ∧ e.bytes.length ≤ n ∧
      ¬ Tears outcome packetsLeft (k + 1) (contents es) := by
  rw [contents_cons, Tears] at hnot
  cases hout : outcome k with
  | failed errno => exact .inl (.inl ⟨errno, rfl⟩)
  | accepted n =>
    rw [hout] at hnot
    dsimp only at hnot
    split at hnot
    case isTrue hlen =>
      obtain rfl : n = 0 := by omega
      exact .inl (.inr ⟨rfl, hlen⟩)
    case isFalse hlen => exact .inr ⟨n, rfl, Nat.le_of_not_lt hlen, hnot⟩

variable (buf) in
/-- The sends from the queue lose nothing, unless one of them tears a buffer. -/
theorem sendPackets_queue (hflush : p.flushOnEagain = false) (packetsLeft : Nat) :
    ∀ {k : Nat} {s : ClientState} {e : Element} {es : List Element},
      IsQueue s.heap s.client.queue (e :: es) → Tidy s.client →
      ¬ Tears outcome (packetsLeft + 1) k (contents (e :: es)) →
      ∃ s', sendPackets p buf outcome (packetsLeft + 1) k (some (e.data, e.bytes.length)) s =
          .ok s' ∧
        Served s.heap (e :: es) (s.client.accepted ++ (contents (e :: es)).flatten) s' := by
  have hflatten : ∀ (e : Element) (es : List Element),
      (contents (e :: es)).flatten = e.bytes ++ (contents es).flatten := fun _ _ => rfl
  induction packetsLeft with
  | zero =>
    intro k s e es hq htidy htears
    rcases tears_cons htears with hnothing | ⟨n, hout, hlen, -⟩
    · exact sendPackets_nothing hflush hq hnothing
    · obtain ⟨s₁, hq₁, htidy₁, htransfer, haccepted, hsend⟩ := sendPackets_whole p
        buf 0 hq htidy hout hlen
      refine ⟨s₁, ?_, es, hq₁, htidy₁, htransfer, ?_⟩
      · rw [hsend]
        cases es <;> rfl
      · rw [haccepted, hflatten, List.append_assoc]
  | succ packetsLeft ih =>
    intro k s e es hq htidy htears
    rcases tears_cons htears with hnothing | ⟨n, hout, hlen, htears⟩
    · exact sendPackets_nothing hflush hq hnothing
    · obtain ⟨s₁, hq₁, htidy₁, htransfer, haccepted, hsend⟩ := sendPackets_whole p
        buf (packetsLeft + 1) hq htidy hout hlen
      rw [hflatten, ← List.append_assoc, ← haccepted]
      cases es with
      | nil => exact ⟨s₁, hsend, [], hq₁, htidy₁, htransfer, rfl⟩
      | cons e' es =>
        obtain ⟨s', hlater, es', hq', htidy', htransfer', hstream⟩ := ih hq₁ htidy₁ htears
        refine ⟨s', ?_, es', hq', htidy', htransfer.trans htransfer', hstream⟩
        rw [hsend]
        dsimp only
        rw [if_neg (Nat.succ_ne_zero _), hlater]

/-- A torn buffer: what is left of it is lost with the rest of the queue, or the copy reads memory
that was released. -/
theorem sendPackets_torn (hflush : p.flushOnEagain = false) (packetsLeft : Nat) :
    ∀ {k : Nat} {s s' : ClientState} {e : Element} {es : List Element},
      IsQueue s.heap s.client.queue (e :: es) → Tidy s.client →
      Tears outcome packetsLeft k (contents (e :: es)) →
      sendPackets p buf outcome packetsLeft k (some (e.data, e.bytes.length)) s = .ok s' →
      s'.client.queue.packetsInQueue = 0 ∧
        s'.client.accepted.length < (s.client.accepted ++ (contents (e :: es)).flatten).length := by
  induction packetsLeft with
  | zero =>
    intro k s s' e es _ _ htears
    cases htears
  | succ packetsLeft ih =>
    intro k s s' e es hq htidy htears h
    rw [contents_cons, Tears] at htears
    cases hout : outcome k with
    | failed errno =>
      rw [hout] at htears
      cases htears
    | accepted n =>
      rw [hout] at htears
      dsimp only at htears
      split at htears
      case isTrue hlen =>
        have hmin : min n e.bytes.length = n := Nat.min_eq_left (Nat.le_of_lt hlen)
        obtain ⟨h', header', hremove, hq', -, hreleased⟩ := hq.removeData
        have hpackets : header'.packetsInQueue = es.length := hq'.packets
        rw [sendPackets, readBytes_eq hq.head, bind_ok, hout] at h
        dsimp only at h
        rw [hmin, if_pos hlen, notWritten, if_neg (by simp [hflush])] at h
        dsimp only at h
        rw [if_pos (by omega), hremove, bind_ok] at h
        dsimp only at h
        rw [unicastQueueRequeue] at h
        cases es with
        | nil =>
          have hzero : header'.packetsInQueue = 0 := hpackets
          rw [if_pos hzero] at h
          cases h
          refine ⟨hzero, ?_⟩
          simp only [contents, ClientState.setQueue, List.map_cons, List.map_nil,
            List.flatten_cons, List.flatten_nil, List.length_append, List.length_take,
            List.append_nil]
          omega
        | cons e' es =>
          have hnonzero : header'.packetsInQueue ≠ 0 := by
            rw [hpackets]
            exact Nat.succ_ne_zero _
          rw [if_neg hnonzero, readBytes, hreleased] at h
          cases h
      case isFalse hlen =>
        obtain ⟨s₁, hq₁, htidy₁, -, haccepted, hsend⟩ := sendPackets_whole p buf
          packetsLeft hq htidy hout (Nat.le_of_not_lt hlen)
        cases es with
        | nil => cases packetsLeft <;> cases htears
        | cons e' es =>
          cases packetsLeft with
          | zero => cases htears
          | succ packetsLeft =>
            rw [hsend] at h
            dsimp only at h
            rw [if_neg (Nat.succ_ne_zero _)] at h
            obtain ⟨hempty, hless⟩ := ih hq₁ htidy₁ htears h
            refine ⟨hempty, ?_⟩
            rw [haccepted, List.append_assoc] at hless
            exact hless

/-- The buffer that is not thrown away because the queue is full. -/
def taken (p : UnicastParameters) (client : UnicastClient) (buf : List UInt8) : List (List UInt8) :=
  if QueueFull p client buf then [] else [buf]

/-- The sends of a call to a client whose queue is not empty tear a buffer. -/
def ClientTears (p : UnicastParameters) (h : Heap Block) (client : UnicastClient)
    (buf : List UInt8) (outcome : Nat → SendOutcome) : Prop :=
  client.queue.packetsInQueue ≠ 0 ∧ ∃ blocks, buffers h client.queue = .ok blocks ∧
    Tears outcome unicastMultipleQueueSend 0 (blocks ++ taken p client buf)

variable (p buf outcome) in
/-- The new buffer in the queue, or the mark that it is full. -/
theorem sendToClient_queue (hq : IsQueue s.heap s.client.queue (e :: es)) :
    ∃ s₁ es', IsQueue s₁.heap s₁.client.queue (e :: es') ∧
      contents (e :: es') = contents (e :: es) ++ taken p s.client buf ∧
      Transfers s.heap (footprint (e :: es)) s₁.heap (footprint (e :: es')) ∧
      s₁.client.accepted = s.client.accepted ∧ s₁.errno = s.errno ∧
      (Tidy s.client → Tidy s₁.client) ∧
      sendToClient p buf outcome s =
        sendPackets p buf outcome unicastMultipleQueueSend 0 (some (e.data, e.bytes.length)) s₁ := by
  have hnonzero : s.client.queue.packetsInQueue ≠ 0 := by
    rw [hq.packets]
    exact Nat.succ_ne_zero _
  have htidy : ∀ (s₁ : ClientState) {es' : List Element},
      IsQueue s₁.heap s₁.client.queue (e :: es') →
      s₁.client.consecutiveErrors = s.client.consecutiveErrors →
      s₁.client.lastWriteError = s.client.lastWriteError → Tidy s.client → Tidy s₁.client := by
    intro s₁ es' hq₁ herrors hlast ht
    refine ⟨fun hempty => ?_, fun hquiet => hlast.trans (ht.quiet (herrors ▸ hquiet))⟩
    exact absurd (hempty.symm.trans hq₁.packets) (Nat.succ_ne_zero _).symm
  rw [sendToClient, if_pos hnonzero]
  by_cases hroom : s.client.queue.dataBytesInQueue + buf.length < p.queueMaxSize
  · obtain ⟨h', header', new, hadd, hbytes, hq', htransfer⟩ := hq.addData buf
    rw [List.cons_append] at hq' htransfer
    refine ⟨s.setQueue (h', header'), es ++ [new], hq', ?_, htransfer, rfl,
      rfl, htidy (s.setQueue (h', header')) hq' rfl rfl, ?_⟩
    · rw [taken, if_neg fun hfull => hfull.2 hroom, ← hbytes]
      exact contents_concat (e :: es) new
    · rw [if_pos hroom, hadd, bind_ok, pure_ok, bind_ok]
      dsimp only [ClientState.setQueue]
      rw [hq'.getData, bind_ok]
  · have hq' : IsQueue s.heap { s.client.queue with full := true } (e :: es) :=
      ⟨hq.linked, hq.last, hq.packets, hq.size, hq.apart⟩
    refine ⟨{ s with client := { s.client with queue := { s.client.queue with full := true } } }, es,
      hq', ?_, Transfers.refl _ _, rfl, rfl, htidy { s with client := { s.client with
        queue := { s.client.queue with full := true } } } hq' rfl rfl, ?_⟩
    · rw [taken, if_pos ⟨hnonzero, hroom⟩, List.append_nil]
    · rw [if_neg hroom, bind_ok]
      dsimp only
      rw [hq'.getData, bind_ok]

variable (outcome) in
/-- A call with an empty queue sends the buffer and queues the rest. -/
theorem sendToClient_direct (hflush : p.flushOnEagain = false)
    (hroom : (buf.length : Int) < p.queueMaxSize) (hq : IsQueue s.heap s.client.queue [])
    (htidy : Tidy s.client) :
    ∃ s', sendToClient p buf outcome s = .ok s' ∧ Served s.heap [] (s.client.accepted ++ buf) s' := by
  have hzero : s.client.queue.packetsInQueue = 0 := hq.packets
  have hlast := htidy.empty hzero
  rw [sendToClient, if_neg (not_not.mpr hzero), sendPackets, bind_ok]
  cases outcome 0 with
  | failed errno =>
    dsimp only
    rw [if_pos (by rw [hlast]; exact errno.property)]
    exact notWritten_channel (s := ⟨s.heap, errno.val, { s.client with
      lastWriteError := errno.val }⟩) hflush hroom hq 0
  | accepted n =>
    dsimp only
    split
    case isTrue hpart =>
      obtain ⟨s', hs', es', hq', htidy', htransfer, hstream⟩ := notWritten_channel (s := { s with
        client := { s.client with accepted := s.client.accepted ++ buf.take (min n buf.length) } })
        hflush hroom hq (min n buf.length)
      refine ⟨s', hs', es', hq', htidy', htransfer, ?_⟩
      rw [hstream, List.append_assoc, List.take_append_drop]
    case isFalse hwhole =>
      have hmin : min n buf.length = buf.length := by omega
      rw [hmin, List.take_length]
      have htidy' : Tidy { s.client with accepted := s.client.accepted ++ buf } :=
        ⟨htidy.empty, htidy.quiet⟩
      obtain ⟨hclear, hqueue, haccepted⟩ := clearErrors_tidy htidy'
      refine ⟨⟨s.heap, s.errno, clearErrors { s.client with
        accepted := s.client.accepted ++ buf }⟩, rfl, [], ?_, ⟨fun _ => hclear, fun _ => hclear⟩,
        Transfers.refl _ _, ?_⟩
      · dsimp only
        rw [hqueue]
        exact hq
      · dsimp only
        rw [haccepted]
        exact List.append_nil _

theorem sendToClient_served (hflush : p.flushOnEagain = false)
    (hroom : (buf.length : Int) < p.queueMaxSize) (hq : IsQueue s.heap s.client.queue es)
    (htidy : Tidy s.client) (htears : ¬ ClientTears p s.heap s.client buf outcome) :
    ∃ s', sendToClient p buf outcome s = .ok s' ∧
      Served s.heap es (s.client.accepted ++ (contents es ++ taken p s.client buf).flatten) s' := by
  cases es with
  | nil =>
    obtain ⟨s', hs', hserved⟩ := sendToClient_direct outcome hflush hroom hq htidy
    refine ⟨s', hs', ?_⟩
    rw [taken, if_neg fun hfull => hfull.1 hq.packets]
    simpa [contents] using hserved
  | cons e es =>
    obtain ⟨s₁, es', hq₁, hcontents, htransfer, haccepted, _, htidy₁, hsend⟩ :=
      sendToClient_queue p buf outcome hq
    have hnot : ¬ Tears outcome unicastMultipleQueueSend 0 (contents (e :: es')) := by
      intro ht
      refine htears ⟨?_, contents (e :: es), hq.buffers, hcontents ▸ ht⟩
      rw [hq.packets]
      exact Nat.succ_ne_zero _
    obtain ⟨s', hs', es'', hq', htidy', htransfer', hstream⟩ :=
      sendPackets_queue buf hflush 2 hq₁ (htidy₁ htidy) hnot
    refine ⟨s', hsend.trans hs', es'', hq', htidy', htransfer.trans htransfer', ?_⟩
    rw [hstream, haccepted, hcontents]

theorem sendToClient_torn (hflush : p.flushOnEagain = false) {s' : ClientState}
    (hq : IsQueue s.heap s.client.queue es) (htidy : Tidy s.client)
    (htears : ClientTears p s.heap s.client buf outcome)
    (h : sendToClient p buf outcome s = .ok s') :
    s'.client.queue.packetsInQueue = 0 ∧ s'.client.accepted.length <
      (s.client.accepted ++ (contents es ++ taken p s.client buf).flatten).length := by
  obtain ⟨hnonzero, blocks, hblocks, ht⟩ := htears
  rw [hq.buffers] at hblocks
  cases hblocks
  cases es with
  | nil => exact absurd hq.packets hnonzero
  | cons e es =>
    obtain ⟨s₁, es', hq₁, hcontents, -, haccepted, _, htidy₁, hsend⟩ :=
      sendToClient_queue p buf outcome hq
    rw [hsend] at h
    rw [← hcontents, ← haccepted]
    exact sendPackets_torn hflush _ hq₁ (htidy₁ htidy) (hcontents ▸ ht) h

end client

section clients

/-! The clients with the elements of their queues. -/

/-- The queue of a client is a list of these elements. -/
def Holds (h : Heap Block) (x : UnicastClient × List Element) : Prop :=
  IsQueue h x.1.queue x.2 ∧ Tidy x.1

/-- What the socket has accepted, then what is queued. -/
def stream (x : UnicastClient × List Element) : List UInt8 := x.1.accepted ++ (contents x.2).flatten

def owned (xs : List (UnicastClient × List Element)) : List Addr := xs.flatMap fun x => footprint x.2

variable {p : UnicastParameters} {buf : List UInt8} {h h' : Heap Block}
  {x : UnicastClient × List Element} {xs : List (UnicastClient × List Element)}

theorem owned_cons (x : UnicastClient × List Element) (xs : List (UnicastClient × List Element)) :
    owned (x :: xs) = footprint x.2 ++ owned xs := List.flatMap_cons

theorem owned_allocated (hxs : ∀ x ∈ xs, Holds h x) : Allocated h (owned xs) := by
  intro a ha
  obtain ⟨x, hx, ha⟩ := List.mem_flatMap.mp ha
  exact (hxs x hx).1.allocated a ha

/-- The queues of other clients stay. -/
theorem holds_congr (hxs : ∀ x ∈ xs, Holds h x)
    (hsame : ∀ a ∈ owned xs, h'.read a = h.read a) : ∀ x ∈ xs, Holds h' x := fun x hx =>
  ⟨(hxs x hx).1.congr fun a ha => hsame a (List.mem_flatMap.mpr ⟨x, hx, ha⟩), (hxs x hx).2⟩

theorem clientTears_congr {outcome : Nat → SendOutcome} (hx : Holds h x) (hx' : Holds h' x) :
    ClientTears p h' x.1 buf outcome ↔ ClientTears p h x.1 buf outcome := by
  rw [ClientTears, ClientTears, hx.1.buffers, hx'.1.buffers]

/-- The first client is served and the others are as before. -/
theorem served_head (hflush : p.flushOnEagain = false)
    (hroom : (buf.length : Int) < p.queueMaxSize) (errno : Nat) {outcome : Nat → SendOutcome}
    (hxs : ∀ y ∈ x :: xs, Holds h y) (hapart : (owned (x :: xs)).Nodup)
    (htears : ¬ ClientTears p h x.1 buf outcome) :
    ∃ s y, sendToClient p buf outcome ⟨h, errno, x.1⟩ = .ok s ∧ s.client = y.1 ∧ Holds s.heap y ∧
      Transfers h (footprint x.2) s.heap (footprint y.2) ∧
      (∀ z ∈ xs, Holds s.heap z) ∧ (footprint y.2).Disjoint (owned xs) ∧
      stream y = stream x ++ (taken p x.1 buf).flatten := by
  have hx := hxs x List.mem_cons_self
  have hothers : ∀ z ∈ xs, Holds h z := fun z hz => hxs z (List.mem_cons_of_mem _ hz)
  rw [owned_cons] at hapart
  obtain ⟨-, -, hdisjoint⟩ := List.nodup_append'.mp hapart
  obtain ⟨s, hs, es, hq, htidy, htransfer, hstream⟩ :=
    sendToClient_served (s := ⟨h, errno, x.1⟩) hflush hroom hx.1 hx.2 htears
  obtain ⟨hsame, hdisjoint'⟩ := htransfer.apart (owned_allocated hothers)
    (List.disjoint_symm hdisjoint)
  refine ⟨s, (s.client, es), hs, rfl, ⟨hq, htidy⟩, htransfer, holds_congr hothers hsame,
    List.disjoint_symm hdisjoint', ?_⟩
  rw [stream, stream, hstream, List.flatten_append, List.append_assoc]

/-- A call for all clients: every stream goes on with what is taken of the buffer. -/
theorem unicastDataSend_served (hflush : p.flushOnEagain = false)
    (hroom : (buf.length : Int) < p.queueMaxSize)
    (xs : List (UnicastClient × List Element)) :
    ∀ (outcomes : Nat → Nat → SendOutcome) {h : Heap Block} (errno : Nat),
      (∀ x ∈ xs, Holds h x) → (owned xs).Nodup →
      (∀ (i : Nat) x, xs[i]? = some x → ¬ ClientTears p h x.1 buf (outcomes i)) →
      ∃ (s' : UnicastState) (ys : List (UnicastClient × List Element)),
        unicastDataSend p buf outcomes h errno (xs.map Prod.fst) = .ok s' ∧
        s'.clients = ys.map Prod.fst ∧ (∀ y ∈ ys, Holds s'.heap y) ∧ (owned ys).Nodup ∧
        Transfers h (owned xs) s'.heap (owned ys) ∧
        ∀ (i : Nat) y, ys[i]? = some y → ∃ x, xs[i]? = some x ∧
          stream y = stream x ++ (taken p x.1 buf).flatten := by
  induction xs with
  | nil =>
    intro outcomes h errno _ _ _
    exact ⟨⟨h, errno, []⟩, [], rfl, rfl, fun y hy => by (cases hy), List.nodup_nil,
      Transfers.refl _ _, fun i y hy => by simp at hy⟩
  | cons x xs ih =>
    intro outcomes h errno hxs hapart htears
    obtain ⟨s, y, hs, hclient, hy, htransfer, hothers, hdisjoint, hstream⟩ :=
      served_head hflush hroom errno hxs hapart (htears 0 x rfl)
    rw [owned_cons] at hapart
    obtain ⟨-, hapart, -⟩ := List.nodup_append'.mp hapart
    obtain ⟨s', ys, hlater, hclients, hys, hapart', htransfer', hstreams⟩ :=
      ih (fun i => outcomes (i + 1)) s.errno hothers hapart fun i z hz => by
        have hmem := List.mem_of_getElem? hz
        rw [clientTears_congr (hxs z (List.mem_cons_of_mem _ hmem)) (hothers z hmem)]
        exact htears (i + 1) z hz
    obtain ⟨hsame, hdisjoint'⟩ := htransfer'.apart hy.1.allocated hdisjoint
    refine ⟨{ s' with clients := s.client :: s'.clients }, y :: ys, ?_, ?_, ?_, ?_, ?_, ?_⟩
    · rw [List.map_cons, unicastDataSend, hs, bind_ok, hlater]
      rfl
    · rw [hclients, hclient]
      rfl
    · intro z hz
      rcases List.mem_cons.mp hz with rfl | hz
      · exact ⟨hy.1.congr hsame, hy.2⟩
      · exact hys z hz
    · rw [owned_cons]
      exact List.nodup_append'.mpr ⟨hy.1.apart, hapart', hdisjoint'⟩
    · rw [owned_cons, owned_cons]
      exact (htransfer.more_right _).trans (htransfer'.more_left _)
    · intro i z hz
      cases i with
      | zero =>
        cases hz
        exact ⟨x, rfl, hstream⟩
      | succ i => exact hstreams i z hz

/-- A call that tears a buffer of some client loses data of the first such client, if it returns. -/
theorem unicastDataSend_torn (hflush : p.flushOnEagain = false)
    (hroom : (buf.length : Int) < p.queueMaxSize) (xs : List (UnicastClient × List Element)) :
    ∀ {outcomes : Nat → Nat → SendOutcome} {h : Heap Block} {errno : Nat} {s' : UnicastState},
      (∀ x ∈ xs, Holds h x) → (owned xs).Nodup →
      (∃ (i : Nat) (x : UnicastClient × List Element), xs[i]? = some x ∧ ClientTears p h x.1 buf (outcomes i)) →
      unicastDataSend p buf outcomes h errno (xs.map Prod.fst) = .ok s' →
      ∃ (i : Nat) (x : UnicastClient × List Element) (client : UnicastClient),
        xs[i]? = some x ∧ s'.clients[i]? = some client ∧
        client.queue.packetsInQueue = 0 ∧
        client.accepted.length < (stream x ++ (taken p x.1 buf).flatten).length := by
  induction xs with
  | nil =>
    rintro outcomes h errno s' _ _ ⟨i, x, hfound, -⟩
    simp at hfound
  | cons x xs ih =>
    rintro outcomes h errno s' hxs hapart ⟨i, z, hfound, htears⟩ hcall
    rw [List.map_cons, unicastDataSend, bind_eq_ok] at hcall
    obtain ⟨s, hs, hcall⟩ := hcall
    rw [bind_eq_ok] at hcall
    obtain ⟨later, hlater, hcall⟩ := hcall
    cases hcall
    have hx := hxs x List.mem_cons_self
    by_cases hhead : ClientTears p h x.1 buf (outcomes 0)
    · obtain ⟨hempty, hless⟩ := sendToClient_torn (s := ⟨h, errno, x.1⟩) hflush hx.1 hx.2 hhead hs
      refine ⟨0, x, s.client, rfl, rfl, hempty, ?_⟩
      rw [stream, List.append_assoc, ← List.flatten_append]
      exact hless
    · obtain ⟨s₁, y, hs₁, -, -, -, hothers, -, -⟩ :=
        served_head hflush hroom errno hxs hapart hhead
      rw [hs] at hs₁
      cases hs₁
      rw [owned_cons] at hapart
      obtain ⟨-, hapart, -⟩ := List.nodup_append'.mp hapart
      cases i with
      | zero =>
        cases hfound
        exact absurd htears hhead
      | succ i =>
        replace hfound : xs[i]? = some z := hfound
        have hmem := List.mem_of_getElem? hfound
        obtain ⟨j, w, client, hw, hclient, hlost⟩ := ih hothers hapart
          ⟨i, z, hfound, (clientTears_congr (hxs z (List.mem_cons_of_mem _ hmem))
            (hothers z hmem)).mpr htears⟩ hlater
        exact ⟨j + 1, w, client, hw, hclient, hlost⟩

end clients

section runs

/-- A call of `unicast_data_send`, with the clients that it finds. -/
inductive Event where
  | call (buf : List UInt8) (outcomes : Nat → Nat → SendOutcome) (clients : List UnicastClient)

/-- One call; `queue_max_size` is larger than the buffer. -/
inductive Step (p : UnicastParameters) : UnicastState → Event → UnicastState → Prop where
  | call {s s' : UnicastState} {buf : List UInt8} {outcomes : Nat → Nat → SendOutcome}
      (room : (buf.length : Int) < p.queueMaxSize)
      (sent : unicastDataSend p buf outcomes s.heap s.errno s.clients = .ok s') :
      Step p s (.call buf outcomes s.clients) s'

/-- The calls for a list of clients that start with nothing queued. -/
def unicastSystem (p : UnicastParameters) : System UnicastState Event :=
  ⟨fun s => ∀ client ∈ s.clients, client = newClient, Step p⟩

/-- No send from a queue accepts a positive number of bytes below the length of the buffer. -/
def Whole (p : UnicastParameters) (s : UnicastState) (buf : List UInt8)
    (outcomes : Nat → Nat → SendOutcome) : Prop :=
  ∀ i client, s.clients[i]? = some client → ¬ ClientTears p s.heap client buf (outcomes i)

/-- The runs in which every call meets the condition. -/
def wholeSystem (p : UnicastParameters) : System UnicastState Event :=
  (unicastSystem p).restrict fun s e =>
    match e with
    | .call buf outcomes _ => Whole p s buf outcomes

/-- The buffers given to client `i`, without those thrown away because its queue was full. -/
def given (p : UnicastParameters) : List Event → Nat → List (List UInt8)
  | [], _ => []
  | .call buf _ clients :: past, i =>
    given p past i ++ (clients[i]?.map fun client => taken p client buf).getD []

/-- For every client the accepted bytes, followed by those still queued, are the given buffers in
order. -/
def Intact (p : UnicastParameters) (past : List Event) (s : UnicastState) : Prop :=
  ∀ i client, s.clients[i]? = some client → ∃ blocks, buffers s.heap client.queue = .ok blocks ∧
    client.accepted ++ blocks.flatten = (given p past i).flatten

/-- The queues are lists with blocks of their own, and no stream has lost anything. -/
def Inv (p : UnicastParameters) (past : List Event) (s : UnicastState) : Prop :=
  ∃ xs : List (UnicastClient × List Element), s.clients = xs.map Prod.fst ∧
    (∀ x ∈ xs, Holds s.heap x) ∧ (owned xs).Nodup ∧
    ∀ i x, xs[i]? = some x → stream x = (given p past i).flatten

variable {p : UnicastParameters} {past : List Event} {s s' : UnicastState} {buf : List UInt8}
  {outcomes : Nat → Nat → SendOutcome}

theorem Inv.intact (h : Inv p past s) : Intact p past s := by
  obtain ⟨xs, hclients, hxs, -, hstream⟩ := h
  intro i client hfound
  rw [hclients, List.getElem?_map, Option.map_eq_some_iff] at hfound
  obtain ⟨x, hx, rfl⟩ := hfound
  exact ⟨contents x.2, (hxs x (List.mem_of_getElem? hx)).1.buffers, hstream i x hx⟩

theorem inv_initial (h : (unicastSystem p).Initial s) : Inv p [] s := by
  refine ⟨s.clients.map fun client => (client, []), ?_, ?_, ?_, ?_⟩
  · rw [List.map_map]
    exact (List.map_id _).symm
  · intro x hx
    obtain ⟨client, hclient, rfl⟩ := List.mem_map.mp hx
    rw [h client hclient]
    exact ⟨isQueue_empty _, fun _ => rfl, fun _ => rfl⟩
  · have hnone : owned (s.clients.map fun client => (client, [])) = [] := by
      rw [owned, List.flatMap_map]
      exact List.flatMap_eq_nil_iff.mpr fun _ _ => rfl
    rw [hnone]
    exact List.nodup_nil
  · intro i x hx
    obtain ⟨client, hclient, rfl⟩ := List.mem_map.mp (List.mem_of_getElem? hx)
    rw [h client hclient]
    rfl

theorem given_call {clients : List UnicastClient} {i : Nat} {client : UnicastClient}
    (hfound : clients[i]? = some client) :
    (given p (.call buf outcomes clients :: past) i).flatten =
      (given p past i).flatten ++ (taken p client buf).flatten := by
  rw [given, hfound, Option.map_some, Option.getD_some, List.flatten_append]

/-- A call that tears nothing returns and keeps the invariant. -/
theorem Inv.call (hflush : p.flushOnEagain = false) (hinv : Inv p past s)
    (hroom : (buf.length : Int) < p.queueMaxSize) (hwhole : Whole p s buf outcomes) :
    ∃ s', unicastDataSend p buf outcomes s.heap s.errno s.clients = .ok s' ∧
      Inv p (.call buf outcomes s.clients :: past) s' := by
  obtain ⟨xs, hclients, hxs, hapart, hstream⟩ := hinv
  have hfst : ∀ {i : Nat} {x : UnicastClient × List Element}, xs[i]? = some x →
      s.clients[i]? = some x.1 := fun hx => by
    rw [hclients, List.getElem?_map, hx]
    rfl
  obtain ⟨s', ys, hcall, hclients', hys, hapart', -, hstreams⟩ := unicastDataSend_served
    hflush hroom xs outcomes s.errno hxs hapart fun i x hx => hwhole i x.1 (hfst hx)
  refine ⟨s', hclients ▸ hcall, ys, hclients', hys, hapart', fun i y hy => ?_⟩
  obtain ⟨x, hx, hy⟩ := hstreams i y hy
  rw [hy, hstream i x hx, given_call (hfst hx)]

/-- A call that tears a buffer does not return or loses data. -/
theorem Inv.torn (hflush : p.flushOnEagain = false) (hinv : Inv p past s)
    (hroom : (buf.length : Int) < p.queueMaxSize) (htorn : ¬ Whole p s buf outcomes)
    (hcall : unicastDataSend p buf outcomes s.heap s.errno s.clients = .ok s') :
    ¬ Intact p (.call buf outcomes s.clients :: past) s' := by
  obtain ⟨xs, hclients, hxs, hapart, hstream⟩ := hinv
  simp only [Whole, not_forall, not_not] at htorn
  obtain ⟨i, client, hfound, htears⟩ := htorn
  rw [hclients, List.getElem?_map, Option.map_eq_some_iff] at hfound
  obtain ⟨x, hx, rfl⟩ := hfound
  rw [hclients] at hcall
  obtain ⟨j, y, client', hy, hclient', hempty, hless⟩ :=
    unicastDataSend_torn hflush hroom xs hxs hapart ⟨i, x, hx, htears⟩ hcall
  intro hintact
  obtain ⟨blocks, hblocks, hall⟩ := hintact j client' hclient'
  have hfst : s.clients[j]? = some y.1 := by
    rw [hclients, List.getElem?_map, hy]
    rfl
  rw [buffers, hempty] at hblocks
  cases hblocks
  rw [given_call hfst, ← hstream j y hy, List.flatten_nil, List.append_nil] at hall
  rw [hall] at hless
  exact Nat.lt_irrefl _ hless

theorem inv_run (hflush : p.flushOnEagain = false) (hrun : Run (wholeSystem p) past s) :
    Inv p past s := by
  have hstart : ∀ s, (wholeSystem p).Initial s → Inv p [] s := fun s h => inv_initial h
  refine hrun.invariant hstart ?_
  rintro past s e s' hinv ⟨hwhole, hstep⟩
  cases hstep with
  | call room sent =>
    obtain ⟨s₁, hcall, hinv'⟩ := hinv.call hflush room hwhole
    rw [sent] at hcall
    cases hcall
    exact hinv'

/-- In a run whose calls tear no queued buffer no stream loses anything; and a further call returns
and keeps the streams exactly when it tears none either. -/
theorem unicastDataSend_intact_iff (hflush : p.flushOnEagain = false)
    (hrun : Run (wholeSystem p) past s) : Intact p past s ∧
      ∀ buf outcomes, (buf.length : Int) < p.queueMaxSize →
        ((∃ s', unicastDataSend p buf outcomes s.heap s.errno s.clients = .ok s' ∧
          Intact p (.call buf outcomes s.clients :: past) s') ↔ Whole p s buf outcomes) := by
  have hinv := inv_run hflush hrun
  refine ⟨hinv.intact, fun buf outcomes hroom => ⟨?_, fun hwhole => ?_⟩⟩
  · rintro ⟨s', hcall, hintact⟩
    by_contra htorn
    exact hinv.torn hflush hroom htorn hcall hintact
  · obtain ⟨s', hcall, hinv'⟩ := hinv.call hflush hroom hwhole
    exact ⟨s', hcall, hinv'.intact⟩

end runs

/-! One client that cannot take the first buffer. -/

def roomy : UnicastParameters := ⟨100, false⟩

/-- A queue that holds one buffer only. -/
def narrow : UnicastParameters := ⟨3, false⟩

def fresh : UnicastState := ⟨⟨[]⟩, 0, [newClient]⟩

def refused : Nat → Nat → SendOutcome := fun _ _ => .failed ⟨eagain, by decide⟩

def takes (n : Nat) : Nat → Nat → SendOutcome := fun _ _ => .accepted n

/-- The buffer is queued. -/
def waiting : UnicastState where
  heap := ⟨[some (.bytes [1, 2]), some (.node ⟨0, 2, none⟩)]⟩
  errno := eagain
  clients := [⟨⟨1, 2, false, some 1, some 1⟩, 1, eagain, []⟩]

def firstCall : Event := .call [1, 2] refused [newClient]

theorem waiting_run {p : UnicastParameters} (hroom : (2 : Int) < p.queueMaxSize)
    (hcall : unicastDataSend p [1, 2] refused ⟨[]⟩ 0 [newClient] = .ok waiting) :
    Run (wholeSystem p) [firstCall] waiting := by
  have hstart : Run (wholeSystem p) [] fresh := .start fun client h => List.mem_singleton.mp h
  refine .next hstart ⟨fun i client hfound => ?_, .call hroom hcall⟩
  rw [List.mem_singleton.mp (List.mem_of_getElem? hfound)]
  exact fun htears => htears.1 rfl

theorem intact_waiting : Intact roomy [firstCall] waiting ∧
    ∃ s', unicastDataSend roomy [3, 4] (takes 2) waiting.heap waiting.errno waiting.clients = .ok s' ∧
      Intact roomy (.call [3, 4] (takes 2) waiting.clients :: [firstCall]) s' := by
  have hrun := waiting_run (p := roomy) (by decide) rfl
  obtain ⟨hintact, hcalls⟩ := unicastDataSend_intact_iff (p := roomy) rfl hrun
  refine ⟨hintact, (hcalls [3, 4] (takes 2) (by decide)).mpr fun i client hfound => ?_⟩
  rw [List.mem_singleton.mp (List.mem_of_getElem? hfound)]
  rintro ⟨-, blocks, hblocks, htears⟩
  cases hblocks
  exact htears

/-- A send that accepts one of the two queued bytes: with a second buffer behind it the copy reads
released memory, without one the other byte is lost. -/
theorem not_intact_waiting :
    (Run (unicastSystem roomy) [firstCall] waiting ∧
      unicastDataSend roomy [3, 4] (takes 1) waiting.heap waiting.errno waiting.clients =
        .error .released) ∧
    ∃ s, Run (unicastSystem narrow) [.call [3, 4] (takes 1) waiting.clients, firstCall] s ∧
      ¬ Intact narrow [.call [3, 4] (takes 1) waiting.clients, firstCall] s := by
  refine ⟨⟨(waiting_run (by decide) rfl).of_restrict, rfl⟩, ?_⟩
  have hrun := (waiting_run (p := narrow) (by decide) rfl).of_restrict
  refine ⟨_, .next hrun (.call (by decide) rfl), fun hintact => ?_⟩
  obtain ⟨blocks, hblocks, hall⟩ := hintact 0 _ rfl
  cases hblocks
  exact absurd hall (by decide)

end MuMuDVB.UnicastSend
