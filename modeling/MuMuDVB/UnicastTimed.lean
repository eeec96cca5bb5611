import MuMuDVB.UnicastSend

/-!
# Sending with the clock

The sends to one client in `unicast_data_send`, with the time of the errors: a
client whose writes have failed for too long is to be closed. What becomes of
the buffer of the channel is recorded.
-/
namespace MuMuDVB.UnicastTimed

open CheckedMemory CheckedHeap MuMuDVB.UnicastQueue MuMuDVB.UnicastSend

/-- What becomes of the buffer of the channel: it is sent, or it or the rest of it is put into the
queue, or there is no room for it in the queue. -/
inductive Fate where
  | sent | queued | dropped
  deriving DecidableEq, Repr

structure TimedParameters extends UnicastParameters where
  consecutiveErrorsTimeout : Int

/-- What the system does for one client: its sends, and what `gettimeofday` says after one that was
not complete. -/
structure ClientInput where
  outcome : Nat → SendOutcome
  now : Int

/-- The state of the loop over the sends, and whether the connection is to be closed. -/
structure TimedState where
  state : ClientState
  firstErrorTime : Int
  fates : List Fate
  close : Bool

/-- Data that was not written completely: what becomes of it, when it comes from the channel. -/
def unsentFates (p : TimedParameters) (s : ClientState) (data : Option (Addr × Nat))
    (buffer : List UInt8) (writtenLen : Int) : List Fate :=
  if p.flushOnEagain ∧ s.errno = eagain then []
  else
    match data with
    | none =>
      if s.client.queue.dataBytesInQueue + buffer.length - writtenLen < p.queueMaxSize then [.queued]
      else [.dropped]
    | some _ => []

/-- The branch for data that was not written completely, with the clock. -/
def notWrittenTimed (p : TimedParameters) (now : Int) (t : TimedState) (data : Option (Addr × Nat))
    (buffer : List UInt8) (writtenLen : Int) : Checked TimedState := do
  let s ← notWritten p.toUnicastParameters t.state data buffer writtenLen
  let fates := t.fates ++ unsentFates p t.state data buffer writtenLen
  if t.state.client.consecutiveErrors = 0 then
    return { t with state := s, fates := fates, firstErrorTime := now }
  -- "We have errors, we check if we reached the timeout"
  else if 0 < p.consecutiveErrorsTimeout ∧
      p.consecutiveErrorsTimeout < now - t.firstErrorTime then
    return { t with state := s, fates := fates, close := true }
  else return { t with state := s, fates := fates }

/-- The loop over the sends to one client. -/
def sendPacketsTimed (p : TimedParameters) (buf : List UInt8) (input : ClientInput) :
    Nat → Nat → Option (Addr × Nat) → TimedState → Checked TimedState
  | 0, _, _, t => .ok t
  | packetsLeft + 1, k, data, t => do
    let buffer ← (match data with
      | none => .ok buf
      | some (block, len) => readBytes t.state.heap block len : Checked (List UInt8))
    match input.outcome k with
    | .failed errno =>
      let s := { t.state with errno := errno.val }
      if errno.val ≠ s.client.lastWriteError then
        notWrittenTimed p input.now { t with state := { s with client := { s.client with
          lastWriteError := errno.val } } } data buffer 0
      else notWrittenTimed p input.now { t with state := s } data buffer (-1)
    | .accepted n =>
      let writtenLen := min n buffer.length
      let s := { t.state with client := { t.state.client with
        accepted := t.state.client.accepted ++ buffer.take writtenLen } }
      if writtenLen < buffer.length then
        notWrittenTimed p input.now { t with state := s } data buffer writtenLen
      else
        let s := { s with client := clearErrors s.client }
        match data with
        | none =>
          let t := { t with state := s, fates := t.fates ++ [.sent] }
          sendPacketsTimed p buf input packetsLeft (k + 1) none t
        | some _ => do
          let r ← unicastQueueRemoveData s.heap s.client.queue
          let t := { t with state := s.setQueue r }
          if t.state.client.queue.packetsInQueue = 0 ∨ packetsLeft = 0 then return t
          else do
            let next ← unicastQueueGetData t.state.heap t.state.client.queue
            sendPacketsTimed p buf input packetsLeft (k + 1) (some next) t

/-- The body of the loop over the clients. -/
def sendToClientTimed (p : TimedParameters) (buf : List UInt8) (input : ClientInput)
    (t : TimedState) : Checked TimedState :=
  if t.state.client.queue.packetsInQueue ≠ 0 then do
    let t ← (if t.state.client.queue.dataBytesInQueue + buf.length < p.queueMaxSize then do
        let r ← unicastQueueAddData t.state.heap t.state.client.queue buf
        return { t with state := t.state.setQueue r, fates := t.fates ++ [.queued] }
      else .ok { t with
        state := { t.state with client := { t.state.client with
          queue := { t.state.client.queue with full := true } } }
        fates := t.fates ++ [.dropped] } : Checked TimedState)
    let next ← unicastQueueGetData t.state.heap t.state.client.queue
    sendPacketsTimed p buf input unicastMultipleQueueSend 0 (some next) t
  else sendPacketsTimed p buf input 1 0 none t

/-- A send does not take a whole buffer. -/
def Short (o : SendOutcome) (buffer : List UInt8) : Prop :=
  match o with
  | .failed _ => True
  | .accepted n => n < buffer.length

/-- The errors of a client have lasted too long. -/
def Late (p : TimedParameters) (input : ClientInput) (firstErrorTime : Int) : Prop :=
  0 < p.consecutiveErrorsTimeout ∧ p.consecutiveErrorsTimeout < input.now - firstErrorTime

variable {p : TimedParameters} {buf buffer : List UInt8} {input : ClientInput} {t t' : TimedState}
  {data : Option (Addr × Nat)} {writtenLen : Int} {s s' : ClientState} {es : List Element}

/-! ## Without the clock -/

theorem notWrittenTimed_state : (notWrittenTimed p input.now t data buffer writtenLen).map
    TimedState.state = notWritten p.toUnicastParameters t.state data buffer writtenLen := by
  rw [notWrittenTimed]
  cases notWritten p.toUnicastParameters t.state data buffer writtenLen with
  | error e => rfl
  | ok s =>
    rw [bind_ok]
    split
    · rfl
    · split <;> rfl

theorem map_bind {α β γ : Type} {f : α → Checked β} {g : β → γ} {f' : α → Checked γ}
    (x : Checked α) (h : ∀ a, (f a).map g = f' a) : (x >>= f).map g = x >>= f' := by
  cases x with
  | error e => rfl
  | ok a => exact h a

/-- The loop does what it does without the clock. -/
theorem sendPacketsTimed_state (packetsLeft : Nat) : ∀ {k : Nat} {data : Option (Addr × Nat)}
    {t : TimedState}, (sendPacketsTimed p buf input packetsLeft k data t).map TimedState.state =
      sendPackets p.toUnicastParameters buf input.outcome packetsLeft k data t.state := by
  induction packetsLeft with
  | zero => exact rfl
  | succ packetsLeft ih =>
    intro k data t
    simp only [sendPacketsTimed, sendPackets]
    refine map_bind _ fun buffer => ?_
    cases input.outcome k with
    | failed errno =>
      dsimp only
      split
      · exact notWrittenTimed_state
      · exact notWrittenTimed_state
    | accepted n =>
      dsimp only
      split
      · exact notWrittenTimed_state
      · cases data with
        | none => exact ih
        | some block =>
          dsimp only
          refine map_bind _ fun r => ?_
          split
          · rfl
          · exact map_bind _ fun next => ih

theorem sendToClientTimed_state : (sendToClientTimed p buf input t).map TimedState.state =
    sendToClient p.toUnicastParameters buf input.outcome t.state := by
  rw [sendToClientTimed, sendToClient]
  split
  · by_cases hroom : t.state.client.queue.dataBytesInQueue + buf.length < p.queueMaxSize
    · rw [if_pos hroom, if_pos hroom]
      cases unicastQueueAddData t.state.heap t.state.client.queue buf with
      | error e => rfl
      | ok r => exact map_bind _ fun next => sendPacketsTimed_state _
    · rw [if_neg hroom, if_neg hroom]
      exact map_bind _ fun next => sendPacketsTimed_state _
  · exact sendPacketsTimed_state 1

/-! ## The queue and `errno` -/

/-- The value of `errno` after the sends of these buffers, which end with the first one that is not
complete. -/
def errnoAfter (outcome : Nat → SendOutcome) : Nat → List (List UInt8) → Nat → Nat
  | _, [], errno => errno
  | k, buffer :: buffers, errno =>
    match outcome k with
    | .failed e => e.val
    | .accepted n =>
      if n < buffer.length then errno else errnoAfter outcome (k + 1) buffers errno

/-- The data is from the channel and the queue is empty, or it is the first element. -/
def DataOf (data : Option (Addr × Nat)) (es : List Element) : Prop :=
  match data with
  | none => es = []
  | some next => ∃ e rest, es = e :: rest ∧ next = (e.data, e.bytes.length)

/-- The queue is still a list, of blocks of its own. -/
def Queued (s : ClientState) (es : List Element) (s' : ClientState) : Prop :=
  ∃ es', IsQueue s'.heap s'.client.queue es' ∧
    Transfers s.heap (footprint es) s'.heap (footprint es')

theorem Queued.refl (hq : IsQueue s.heap s.client.queue es) : Queued s es s :=
  ⟨es, hq, Transfers.refl _ _⟩

theorem Queued.trans {s₁ : ClientState} {es₁ : List Element}
    (ht : Transfers s.heap (footprint es) s₁.heap (footprint es₁)) (h : Queued s₁ es₁ s') :
    Queued s es s' := by
  obtain ⟨es', hq', ht'⟩ := h
  exact ⟨es', hq', ht.trans ht'⟩

variable {par : UnicastParameters} {outcome : Nat → SendOutcome}

theorem notWritten_queued (hq : IsQueue s.heap s.client.queue es) (hdata : DataOf data es)
    (h : notWritten par s data buffer writtenLen = .ok s') : Queued s es s' ∧ s'.errno = s.errno := by
  obtain ⟨s₁, hs₁, h⟩ := bind_eq_ok.mp h
  cases h
  suffices hrest : Queued s es s₁ ∧ s₁.errno = s.errno from hrest
  split at hs₁
  · cases data with
    | none =>
      cases hs₁
      exact ⟨Queued.refl hq, rfl⟩
    | some next =>
      obtain ⟨h', header', hclear, hq', htransfer⟩ := hq.clear
      dsimp only at hs₁
      rw [hclear] at hs₁
      cases hs₁
      exact ⟨⟨[], hq', htransfer⟩, rfl⟩
  · cases data with
    | none =>
      dsimp only at hs₁
      split at hs₁
      · obtain ⟨rest, _, hs₁⟩ := bind_eq_ok.mp hs₁
        obtain ⟨h', header', e, hadd, _, hq', htransfer⟩ := hq.addData rest
        rw [hadd] at hs₁
        cases hs₁
        exact ⟨⟨_, hq', htransfer⟩, rfl⟩
      · cases hs₁
        exact ⟨Queued.refl hq, rfl⟩
    | some next =>
      obtain ⟨e, rest, rfl, rfl⟩ := hdata
      dsimp only at hs₁
      split at hs₁
      · obtain ⟨h', header', hremove, hq', htransfer, hreleased⟩ := hq.removeData
        rw [hremove, bind_ok] at hs₁
        dsimp only at hs₁
        rw [unicastQueueRequeue] at hs₁
        split at hs₁
        · cases hs₁
          exact ⟨⟨_, hq', htransfer⟩, rfl⟩
        · -- the element has been released
          rw [readBytes, hreleased] at hs₁
          cases hs₁
      · cases hs₁
        exact ⟨Queued.refl hq, rfl⟩

theorem clearErrors_queue (client : UnicastClient) : (clearErrors client).queue = client.queue := by
  rw [clearErrors]
  split <;> rfl

/-- The sends from the queue. The induction is on the sends that are left. -/
theorem sendPackets_queued (packetsLeft : Nat) : ∀ {k : Nat} {s s' : ClientState} {e : Element}
    {es : List Element}, IsQueue s.heap s.client.queue (e :: es) →
    sendPackets par buf outcome packetsLeft k (some (e.data, e.bytes.length)) s = .ok s' →
    Queued s (e :: es) s' ∧
      s'.errno = errnoAfter outcome k ((contents (e :: es)).take packetsLeft) s.errno := by
  induction packetsLeft with
  | zero =>
    intro k s s' e es hq h
    cases h
    exact ⟨Queued.refl hq, rfl⟩
  | succ packetsLeft ih =>
    intro k s s' e es hq h
    have hdata : DataOf (some (e.data, e.bytes.length)) (e :: es) := ⟨e, es, rfl, rfl⟩
    rw [sendPackets, readBytes_eq hq.head, bind_ok] at h
    rw [contents_cons, List.take_succ_cons, errnoAfter]
    cases hout : outcome k with
    | failed errno =>
      rw [hout] at h
      dsimp only at h ⊢
      split at h
      · exact notWritten_queued (s := ⟨s.heap, errno.val, { s.client with
          lastWriteError := errno.val }⟩) hq hdata h
      · exact notWritten_queued (s := ⟨s.heap, errno.val, s.client⟩) hq hdata h
    | accepted n =>
      rw [hout] at h
      dsimp only at h ⊢
      split at h
      case isTrue hshort =>
        rw [if_pos (by omega)]
        exact notWritten_queued (s := { s with client := { s.client with
          accepted := s.client.accepted ++ e.bytes.take (min n e.bytes.length) } }) hq hdata h
      case isFalse hwhole =>
        obtain ⟨h', header', hremove, hq', htransfer, _⟩ := hq.removeData
        rw [if_neg (by omega)]
        rw [clearErrors_queue, hremove, bind_ok] at h
        dsimp only [ClientState.setQueue] at h
        by_cases hlast : header'.packetsInQueue = 0 ∨ packetsLeft = 0
        · obtain rfl := Except.ok.inj ((if_pos hlast).symm.trans h)
          refine ⟨⟨es, hq', htransfer⟩, ?_⟩
          rcases hlast with hempty | hzero
          · have hnil : es = [] := List.length_eq_zero_iff.mp (hq'.packets.symm.trans hempty)
            rw [hnil]
            cases packetsLeft <;> rfl
          · rw [hzero]
            rfl
        · cases es with
          | nil => exact absurd (Or.inl hq'.packets) hlast
          | cons e' es =>
            replace h := (if_neg hlast).symm.trans h
            rw [hq'.getData, bind_ok] at h
            obtain ⟨hqueued, herrno⟩ := ih (s := ⟨h', s.errno, _⟩) hq' h
            exact ⟨hqueued.trans htransfer, herrno⟩

/-- The send of the buffer itself. -/
theorem sendPackets_direct (hq : IsQueue s.heap s.client.queue [])
    (h : sendPackets par buf outcome 1 0 none s = .ok s') :
    Queued s [] s' ∧ s'.errno = errnoAfter outcome 0 [buf] s.errno := by
  have hdata : DataOf none [] := rfl
  rw [sendPackets, bind_ok] at h
  rw [errnoAfter]
  cases hout : outcome 0 with
  | failed errno =>
    rw [hout] at h
    dsimp only at h ⊢
    split at h
    · exact notWritten_queued (s := ⟨s.heap, errno.val, { s.client with
        lastWriteError := errno.val }⟩) hq hdata h
    · exact notWritten_queued (s := ⟨s.heap, errno.val, s.client⟩) hq hdata h
  | accepted n =>
    rw [hout] at h
    dsimp only at h ⊢
    split at h
    case isTrue hshort =>
      rw [if_pos (by omega)]
      exact notWritten_queued (s := { s with client := { s.client with
        accepted := s.client.accepted ++ buf.take (min n buf.length) } }) hq hdata h
    case isFalse hwhole =>
      cases h
      rw [if_neg (by omega)]
      refine ⟨⟨[], ?_, Transfers.refl _ _⟩, rfl⟩
      dsimp only
      rw [clearErrors_queue]
      exact hq

/-- The buffers that are sent in one call, in their order, as long as all of each is accepted. -/
def sends (par : UnicastParameters) (client : UnicastClient) (queued : List (List UInt8))
    (buf : List UInt8) : List (List UInt8) :=
  if queued = [] then [buf]
  else (queued ++ taken par client buf).take unicastMultipleQueueSend

theorem sendToClient_queued (hq : IsQueue s.heap s.client.queue es)
    (h : sendToClient par buf outcome s = .ok s') : Queued s es s' ∧
      s'.errno = errnoAfter outcome 0 (sends par s.client (contents es) buf) s.errno := by
  cases es with
  | nil =>
    have hzero : s.client.queue.packetsInQueue = 0 := hq.packets
    rw [sendToClient, if_neg (not_not.mpr hzero)] at h
    exact sendPackets_direct hq h
  | cons e es =>
    obtain ⟨s₁, es', hq₁, hcontents, htransfer, _, hsame, _, hsend⟩ :=
      sendToClient_queue par buf outcome hq
    rw [hsend] at h
    obtain ⟨hqueued, herrno⟩ := sendPackets_queued _ hq₁ h
    refine ⟨hqueued.trans htransfer, ?_⟩
    rw [sends, if_neg (by simp), ← hcontents, herrno, hsame]

/-! ## The clock and the buffer of the channel -/

theorem notWrittenTimed_ok (h : notWrittenTimed p input.now t data buffer writtenLen = .ok t')
    (hopen : t.close = false) :
    t'.fates = t.fates ++ unsentFates p t.state data buffer writtenLen ∧
      (t'.close = true ↔ t.state.client.consecutiveErrors ≠ 0 ∧ Late p input t.firstErrorTime) := by
  obtain ⟨s₁, _, h⟩ := bind_eq_ok.mp h
  rw [Late]
  split at h
  case isTrue hquiet =>
    cases h
    exact ⟨rfl, by simp [hopen, hquiet]⟩
  case isFalse herrors =>
    split at h
    case isTrue hlate =>
      cases h
      exact ⟨rfl, by simp [herrors, hlate]⟩
    case isFalse hearly =>
      cases h
      exact ⟨rfl, by simp [hopen, herrors, hearly]⟩

theorem clearErrors_quiet (client : UnicastClient) : (clearErrors client).consecutiveErrors = 0 := by
  rw [clearErrors]
  split
  case isTrue => rfl
  case isFalse hquiet => exact not_not.mp hquiet

theorem unsentFates_queue (s : ClientState) (next : Addr × Nat) (buffer : List UInt8)
    (writtenLen : Int) : unsentFates p s (some next) buffer writtenLen = [] := by
  rw [unsentFates]
  split <;> rfl

theorem notWrittenTimed_queue {next : Addr × Nat}
    (h : notWrittenTimed p input.now t (some next) buffer writtenLen = .ok t')
    (hopen : t.close = false) : t'.fates = t.fates ∧
      (t'.close = true ↔ t.state.client.consecutiveErrors ≠ 0 ∧ Late p input t.firstErrorTime) := by
  obtain ⟨hfates, hclose⟩ := notWrittenTimed_ok h hopen
  rw [unsentFates_queue, List.append_nil] at hfates
  exact ⟨hfates, hclose⟩

/-- Only the first send from the queue can find errors that have lasted too long. -/
theorem sendPacketsTimed_ok (packetsLeft : Nat) : ∀ {k : Nat} {next : Addr × Nat}
    {t t' : TimedState}, 0 < packetsLeft →
    sendPacketsTimed p buf input packetsLeft k (some next) t = .ok t' →
    t.close = false → ∃ buffer, readBytes t.state.heap next.1 next.2 = .ok buffer ∧
      t'.fates = t.fates ∧ (t'.close = true ↔ Short (input.outcome k) buffer ∧
        t.state.client.consecutiveErrors ≠ 0 ∧ Late p input t.firstErrorTime) := by
  induction packetsLeft with
  | zero =>
    intro k next t t' hpos
    exact absurd hpos (Nat.lt_irrefl 0)
  | succ packetsLeft ih =>
    intro k next t t' _ h hopen
    rw [sendPacketsTimed] at h
    obtain ⟨buffer, hread, h⟩ := bind_eq_ok.mp h
    refine ⟨buffer, hread, ?_⟩
    cases hout : input.outcome k with
    | failed errno =>
      have hshort : Short (.failed errno) buffer := trivial
      rw [hout] at h
      dsimp only at h
      split at h
      · obtain ⟨hfates, hclose⟩ := notWrittenTimed_queue h hopen
        exact ⟨hfates, by rw [hclose]; exact (and_iff_right hshort).symm⟩
      · obtain ⟨hfates, hclose⟩ := notWrittenTimed_queue h hopen
        exact ⟨hfates, by rw [hclose]; exact (and_iff_right hshort).symm⟩
    | accepted n =>
      rw [hout] at h
      dsimp only at h
      split at h
      case isTrue hpart =>
        have hshort : Short (.accepted n) buffer := by
          show n < buffer.length
          omega
        obtain ⟨hfates, hclose⟩ := notWrittenTimed_queue h hopen
        exact ⟨hfates, by rw [hclose]; exact (and_iff_right hshort).symm⟩
      case isFalse hwhole =>
        have hshort : ¬ Short (.accepted n) buffer := by
          show ¬ n < buffer.length
          omega
        obtain ⟨r, _, h⟩ := bind_eq_ok.mp h
        have hquiet := clearErrors_quiet { t.state.client with
          accepted := t.state.client.accepted ++ buffer.take (min n buffer.length) }
        by_cases hlast : r.2.packetsInQueue = 0 ∨ packetsLeft = 0
        · obtain rfl := Except.ok.inj ((if_pos hlast).symm.trans h)
          exact ⟨rfl, by simp [hopen, hshort]⟩
        · replace h := (if_neg hlast).symm.trans h
          obtain ⟨next', _, h⟩ := bind_eq_ok.mp h
          obtain ⟨_, _, hfates, hclose⟩ := ih (by omega) h hopen
          refine ⟨hfates, hclose.trans (iff_of_false (fun hc => hc.2.1 hquiet) fun hc => ?_)⟩
          exact hshort hc.1

/-- What the sends to a client start from. -/
structure View where
  sending : UnicastClient
  firstErrorTime : Int
  queued : List (List UInt8)

/-- The client is disconnected: it had errors already, for too long, and the first send is not
complete. -/
def Disconnects (p : TimedParameters) (buf : List UInt8) (input : ClientInput) (v : View) : Prop :=
  v.sending.consecutiveErrors ≠ 0 ∧ Late p input v.firstErrorTime ∧
    ∃ first, (sends p.toUnicastParameters v.sending v.queued buf).head? = some first ∧
      Short (input.outcome 0) first

/-- The debug feature drops the buffer: nothing is queued, and the send leaves `EAGAIN`, which may be
from an earlier one. -/
def Flushes (p : TimedParameters) (buf : List UInt8) (input : ClientInput) (errno : Nat) (v : View) :
    Prop :=
  v.queued = [] ∧ p.flushOnEagain = true ∧ Short (input.outcome 0) buf ∧
    errnoAfter input.outcome 0 [buf] errno = eagain

/-- The buffer goes to exactly one fate, unless the debug feature drops it. -/
structure Handles (p : TimedParameters) (buf : List UInt8) (input : ClientInput) (errno : Nat)
    (v : View) (t' : TimedState) : Prop where
  close : t'.close = true ↔ Disconnects p buf input v
  flushed : Flushes p buf input errno v → t'.fates = []
  handled : ¬ Flushes p buf input errno v → ∃ fate, t'.fates = [fate]

theorem unsentFates_channel (s : ClientState) (writtenLen : Int) :
    (p.flushOnEagain = true ∧ s.errno = eagain → unsentFates p s none buf writtenLen = []) ∧
      (¬ (p.flushOnEagain = true ∧ s.errno = eagain) →
        ∃ fate, unsentFates p s none buf writtenLen = [fate]) := by
  rw [unsentFates]
  refine ⟨fun h => if_pos h, fun h => ?_⟩
  rw [if_neg h]
  split
  · exact ⟨_, rfl⟩
  · exact ⟨_, rfl⟩

/-- The buffer itself was not sent completely. -/
theorem notWrittenTimed_channel {errno : Nat} {v : View}
    (h : notWrittenTimed p input.now t none buf writtenLen = .ok t') (hopen : t.close = false)
    (hfates : t.fates = []) (hshort : Short (input.outcome 0) buf) (hqueued : v.queued = [])
    (herrors : t.state.client.consecutiveErrors = v.sending.consecutiveErrors)
    (htime : t.firstErrorTime = v.firstErrorTime)
    (herrno : t.state.errno = errnoAfter input.outcome 0 [buf] errno) :
    Handles p buf input errno v t' := by
  obtain ⟨hall, hclose⟩ := notWrittenTimed_ok h hopen
  obtain ⟨hflushed, hkept⟩ := @unsentFates_channel p buf t.state writtenLen
  rw [hfates, List.nil_append] at hall
  rw [herrors, htime] at hclose
  rw [← hall, herrno] at hflushed hkept
  exact ⟨hclose.trans ⟨fun hc => ⟨hc.1, hc.2, buf, by rw [sends, if_pos hqueued]; rfl, hshort⟩,
    fun hd => ⟨hd.1, hd.2.1⟩⟩, fun hf => hflushed ⟨hf.2.1, hf.2.2.2⟩,
    fun hf => hkept fun he => hf ⟨hqueued, he.1, hshort, he.2⟩⟩

/-- The send of the buffer itself. -/
theorem sendPacketsTimed_channel (h : sendPacketsTimed p buf input 1 0 none t = .ok t')
    (hopen : t.close = false) (hfates : t.fates = []) :
    Handles p buf input t.state.errno ⟨t.state.client, t.firstErrorTime, []⟩ t' := by
  rw [sendPacketsTimed, bind_ok] at h
  cases hout : input.outcome 0 with
  | failed errno =>
    have hshort : Short (input.outcome 0) buf := by rw [hout]; trivial
    have herrno : errno.val = errnoAfter input.outcome 0 [buf] t.state.errno := by
      rw [errnoAfter, hout]
    rw [hout] at h
    dsimp only at h
    split at h
    · exact notWrittenTimed_channel h hopen hfates hshort rfl rfl rfl herrno
    · exact notWrittenTimed_channel h hopen hfates hshort rfl rfl rfl herrno
  | accepted n =>
    rw [hout] at h
    dsimp only at h
    split at h
    case isTrue hpart =>
      have hshort : Short (input.outcome 0) buf := by
        rw [hout]
        show n < buf.length
        omega
      refine notWrittenTimed_channel h hopen hfates hshort rfl rfl rfl ?_
      rw [errnoAfter, hout]
      dsimp only
      rw [if_pos (by omega)]
    case isFalse hwhole =>
      have hshort : ¬ Short (input.outcome 0) buf := by
        rw [hout]
        show ¬ n < buf.length
        omega
      cases h
      refine ⟨iff_of_false (by simp [hopen]) ?_, fun hf => absurd hf.2.2.1 hshort,
        fun _ => ⟨.sent, by rw [hfates]; rfl⟩⟩
      rintro ⟨_, _, first, hfirst, hs⟩
      rw [sends, if_pos rfl, List.head?_cons, Option.some.injEq] at hfirst
      exact hshort (hfirst ▸ hs)

/-- What the sends to a client do, when they return. -/
theorem sendToClientTimed_ok (hq : IsQueue t.state.heap t.state.client.queue es)
    (h : sendToClientTimed p buf input t = .ok t') (hopen : t.close = false)
    (hfates : t.fates = []) :
    Handles p buf input t.state.errno ⟨t.state.client, t.firstErrorTime, contents es⟩ t' := by
  rw [sendToClientTimed] at h
  cases es with
  | nil =>
    have hzero : t.state.client.queue.packetsInQueue = 0 := hq.packets
    rw [if_neg (not_not.mpr hzero)] at h
    exact sendPacketsTimed_channel h hopen hfates
  | cons e es =>
    have hnonzero : t.state.client.queue.packetsInQueue ≠ 0 := by
      rw [hq.packets]
      exact Nat.succ_ne_zero _
    rw [if_pos hnonzero] at h
    obtain ⟨t₁, ht₁, h⟩ := bind_eq_ok.mp h
    obtain ⟨next, hnext, h⟩ := bind_eq_ok.mp h
    have hfirst : ∃ fate, t₁.fates = [fate] ∧ t₁.close = false ∧
        t₁.firstErrorTime = t.firstErrorTime ∧
        t₁.state.client.consecutiveErrors = t.state.client.consecutiveErrors ∧
        readBytes t₁.state.heap next.1 next.2 = .ok e.bytes := by
      split at ht₁
      · obtain ⟨h', header', new, hadd, _, hq', _⟩ := hq.addData buf
        rw [List.cons_append] at hq'
        rw [hadd] at ht₁
        cases ht₁
        obtain rfl := Except.ok.inj (hq'.getData.symm.trans hnext)
        exact ⟨.queued, by rw [hfates]; rfl, hopen, rfl, rfl, readBytes_eq hq'.head⟩
      · have hq' : IsQueue t.state.heap { t.state.client.queue with full := true } (e :: es) :=
          ⟨hq.linked, hq.last, hq.packets, hq.size, hq.apart⟩
        cases ht₁
        obtain rfl := Except.ok.inj (hq'.getData.symm.trans hnext)
        exact ⟨.dropped, by rw [hfates]; rfl, hopen, rfl, rfl, readBytes_eq hq'.head⟩
    obtain ⟨fate, hfate, hopen₁, htime, herrors, hread⟩ := hfirst
    obtain ⟨buffer, hbuffer, hsame, hclose⟩ := sendPacketsTimed_ok _ (by decide) h hopen₁
    rw [hread, Except.ok.injEq] at hbuffer
    subst hbuffer
    rw [htime, herrors] at hclose
    refine ⟨hclose.trans ?_, fun hf => absurd hf.1 (by simp), fun _ => ⟨fate, hsame.trans hfate⟩⟩
    rw [Disconnects, sends, if_neg (by simp), contents_cons, List.cons_append, List.take_succ_cons,
      List.head?_cons]
    simp only [Option.some.injEq, exists_eq_left']
    tauto

end MuMuDVB.UnicastTimed
