import MuMuDVB.CheckedMemory
import MuMuDVB.RecordedRun

/-!
# The thread that reads the card

`read_card_thread_func` fills one of two buffers while the main loop works on
the other one, and the main loop swaps them under the mutex. The steps of the
two threads are interleaved anyhow, at the granularity of what they do with the
mutex held and of what they read without it. The counters of the source are in
bytes; here they count packets, since `card_read` returns whole ones.
-/
namespace MuMuDVB.CardThread

open CheckedMemory RecordedRun

/-- Where the main loop stands. -/
inductive MainAt where
  /-- before it looks at `bytes_in_write_buffer` without the mutex -/
  | top
  /-- it saw an empty write buffer, and will take the mutex to wait -/
  | emptySeen
  | waiting
  /-- out of `pthread_cond_wait`, but not yet with the mutex -/
  | woken
  /-- it saw data, and will take the mutex -/
  | locking
  /-- in the loop over the packets of the reading buffer -/
  | processing (readBuffPos : Nat)
  deriving DecidableEq

/-- Where the reading thread stands: before its poll, or with room for a read. -/
inductive ReaderAt where
  | polling | ready
  deriving DecidableEq

/-- The part of `card_buffer_t` and `card_thread_parameters_t` that the threads share, with
what `card_read` has returned and what the main loop has processed so far. -/
structure CardState (α : Type) (n : Nat) where
  buffer1 : Buffer α n
  buffer2 : Buffer α n
  actualReadBuffer : Nat
  bytesRead : Nat
  bytesInWriteBuffer : Nat
  mainWaiting : Bool
  main : MainAt
  reader : ReaderAt
  received : List α
  processed : List α

variable {α : Type} {n : Nat}

namespace CardState

variable (s : CardState α n)

/-- `reading_buffer`. -/
def reading : Buffer α n := if s.actualReadBuffer = 1 then s.buffer1 else s.buffer2

/-- `writing_buffer`. -/
def writing : Buffer α n := if s.actualReadBuffer = 1 then s.buffer2 else s.buffer1

def setWriting (b : Buffer α n) : CardState α n :=
  { s with
    buffer1 := if s.actualReadBuffer = 1 then s.buffer1 else b
    buffer2 := if s.actualReadBuffer = 1 then b else s.buffer2 }

/-- `if(main_waiting) pthread_cond_signal(…)`. -/
def signal : CardState α n :=
  if s.mainWaiting ∧ s.main = .waiting then { s with main := .woken } else s

/-- `card_read` into the write buffer, behind what is there. -/
def cardRead (packets : List α) : Checked (CardState α n) := do
  let b ← s.writing.write s.bytesInWriteBuffer packets
  let s := s.setWriting b
  return { s with
    bytesInWriteBuffer := s.bytesInWriteBuffer + packets.length
    received := s.received ++ packets }

/-- The main loop with the mutex: it swaps the buffers if there is something to read. -/
def swap : CardState α n :=
  if s.bytesInWriteBuffer ≠ 0 then { s with
    actualReadBuffer := if s.actualReadBuffer = 1 then 2 else 1
    bytesRead := s.bytesInWriteBuffer
    bytesInWriteBuffer := 0 }
  else s

/-- The main loop with the mutex, up to its loop over the packets. -/
def locked : CardState α n := { s.swap with mainWaiting := false, main := .processing 0 }

end CardState

inductive Event (α : Type) where
  /-- the poll of the reading thread finds no data -/
  | timeout
  /-- no room for a full read in the write buffer -/
  | full
  | room
  | cardRead (packets : List α)
  /-- the main loop looks at `bytes_in_write_buffer` -/
  | check
  | wait
  /-- `pthread_cond_wait` may return without a signal -/
  | spurious
  /-- the main loop takes the mutex, and leaves it after the swap -/
  | lock
  /-- the next packet of the reading buffer, or the end of the loop -/
  | process

/-- One step, if it is possible; `dvrBufferSize` packets are read at most. -/
def step (dvrBufferSize : Nat) (s : CardState α n) : Event α → Option (CardState α n)
  | .timeout => if s.reader = .polling then some s.signal else none
  | .full =>
    if s.reader = .polling ∧ n < s.bytesInWriteBuffer + dvrBufferSize then some s.signal else none
  | .room =>
    if s.reader = .polling ∧ s.bytesInWriteBuffer + dvrBufferSize ≤ n
      then some { s with reader := .ready } else none
  | .cardRead packets =>
    if s.reader = .ready ∧ packets.length ≤ dvrBufferSize then
      match s.cardRead packets with
      | .ok s => some { s with reader := .polling }.signal
      | .error _ => none
    else none
  | .check =>
    if s.main = .top then
      some { s with main := if s.bytesInWriteBuffer = 0 then .emptySeen else .locking }
    else none
  | .wait =>
    if s.main = .emptySeen then some { s with mainWaiting := true, main := .waiting } else none
  | .spurious => if s.main = .waiting then some { s with main := .woken } else none
  | .lock =>
    if s.main = .locking ∨ s.main = .woken then some s.locked else none
  | .process =>
    match s.main with
    | .processing readBuffPos =>
      if readBuffPos < s.bytesRead then
        match s.reading.read readBuffPos with
        | .ok packet => some { s with
            main := .processing (readBuffPos + 1)
            processed := s.processed ++ [packet] }
        | .error _ => none
      else some { s with main := .top }
    | _ => none

/-- The threads at the start: nothing is read, whatever the buffers hold. -/
structure Initial (s : CardState α n) : Prop where
  actualReadBuffer : s.actualReadBuffer = 1
  bytesRead : s.bytesRead = 0
  bytesInWriteBuffer : s.bytesInWriteBuffer = 0
  mainWaiting : s.mainWaiting = false
  main : s.main = .top
  reader : s.reader = .polling
  received : s.received = []
  processed : s.processed = []

def cardSystem (α : Type) (n dvrBufferSize : Nat) : System (CardState α n) (Event α) where
  Initial := Initial
  Step s e s' := step dvrBufferSize s e = some s'

namespace CardState

variable (s : CardState α n)

/-- What the main loop has still to do of the reading buffer. -/
def unprocessed : List α :=
  match s.main with
  | .processing readBuffPos => (s.reading.cells.take s.bytesRead).drop readBuffPos
  | _ => []

/-- What waits in the write buffer. -/
def unread : List α := s.writing.cells.take s.bytesInWriteBuffer

/-- What was processed is, in order and once, what the card delivered, up to what is still in the
two buffers. -/
def Delivers : Prop := s.processed ++ (s.unprocessed ++ s.unread) = s.received

end CardState

/-- When the main loop comes out of its wait, something is in the write buffer, or nothing was read
so far. -/
def Fresh (s : CardState α n) : Event α → Prop
  | .lock => s.main = .woken → s.bytesInWriteBuffer ≠ 0 ∨ s.bytesRead = 0
  | _ => True

structure Invariant (dvrBufferSize : Nat) (s : CardState α n) : Prop where
  delivers : s.Delivers
  written : s.bytesInWriteBuffer ≤ n
  read : s.bytesRead ≤ n
  ready : s.reader = .ready → s.bytesInWriteBuffer + dvrBufferSize ≤ n
  /-- only the main loop empties the write buffer -/
  locking : s.main = .locking → s.bytesInWriteBuffer ≠ 0

section steps

variable {d : Nat} {s s' : CardState α n} {packets : List α}

/-- The main loop is not among its packets. -/
def Outside (m : MainAt) : Prop := ∀ pos, m ≠ .processing pos

theorem unprocessed_outside (h : Outside s.main) : s.unprocessed = [] := by
  rw [CardState.unprocessed]
  cases hm : s.main with
  | processing pos => exact absurd hm (h pos)
  | _ => rfl

theorem Initial.invariant (h : Initial s) : Invariant d s := by
  have hmain := h.main
  refine ⟨?_, by rw [h.bytesInWriteBuffer]; exact Nat.zero_le n,
    by rw [h.bytesRead]; exact Nat.zero_le n, by simp [h.reader], by simp [hmain]⟩
  rw [CardState.Delivers, unprocessed_outside (by simp [Outside, hmain]), CardState.unread,
    h.bytesInWriteBuffer, h.processed, h.received]
  rfl

/-- The main loop moves on outside its loop over the packets. -/
theorem Invariant.move (h : Invariant d s) (hs : Outside s.main) {m : MainAt} (hm : Outside m)
    (hlocking : m = .locking → s.bytesInWriteBuffer ≠ 0) (waiting : Bool) :
    Invariant d { s with main := m, mainWaiting := waiting } := by
  refine ⟨?_, h.written, h.read, h.ready, hlocking⟩
  have hd := h.delivers
  rw [CardState.Delivers, unprocessed_outside hs] at hd
  rw [CardState.Delivers, unprocessed_outside hm]
  exact hd

theorem Invariant.signal (h : Invariant d s) : Invariant d s.signal := by
  rw [CardState.signal]
  split
  case isTrue hwaiting =>
    refine h.move (by simp [Outside, hwaiting.2]) (by simp [Outside]) (by simp) s.mainWaiting
  case isFalse => exact h

theorem Invariant.room (h : Invariant d s) (hroom : s.bytesInWriteBuffer + d ≤ n) :
    Invariant d { s with reader := .ready } :=
  ⟨h.delivers, h.written, h.read, fun _ => hroom, h.locking⟩

/-- The write buffer is another one than the main loop reads. -/
theorem reading_setWriting (b : Buffer α n) : (s.setWriting b).reading = s.reading := by
  simp only [CardState.setWriting, CardState.reading]
  split <;> rfl

theorem writing_setWriting (b : Buffer α n) : (s.setWriting b).writing = b := by
  simp only [CardState.setWriting, CardState.writing]
  split <;> rfl

theorem unprocessed_eq {t : CardState α n} (hmain : t.main = s.main)
    (hreading : t.reading = s.reading) (hread : t.bytesRead = s.bytesRead) :
    t.unprocessed = s.unprocessed := by
  simp only [CardState.unprocessed, hmain, hreading, hread]

/-- What a read appends waits behind what was there. -/
theorem delivers_cardRead {b : Buffer α n} (h : s.Delivers)
    (hroom : s.bytesInWriteBuffer + packets.length ≤ n)
    (hb : b.cells = splice s.writing.cells s.bytesInWriteBuffer packets) (r : ReaderAt) :
    CardState.Delivers { s.setWriting b with
      bytesInWriteBuffer := s.bytesInWriteBuffer + packets.length
      received := s.received ++ packets
      reader := r } := by
  let t : CardState α n := { s.setWriting b with
    bytesInWriteBuffer := s.bytesInWriteBuffer + packets.length
    received := s.received ++ packets
    reader := r }
  have hunprocessed : t.unprocessed = s.unprocessed :=
    unprocessed_eq rfl (reading_setWriting (s := s) b) rfl
  have hunread : t.unread = s.unread ++ packets := by
    have hcells : t.unread = b.cells.take (s.bytesInWriteBuffer + packets.length) := by
      rw [← writing_setWriting (s := s) b]
      rfl
    rw [hcells, hb]
    exact take_splice (by simp; omega) rfl
  change s.processed ++ (t.unprocessed ++ t.unread) = s.received ++ packets
  rw [hunprocessed, hunread, ← h]
  simp only [List.append_assoc]

/-- A read finds room. -/
theorem Invariant.cardRead (h : Invariant d s) (hready : s.reader = .ready)
    (hlen : packets.length ≤ d) :
    ∃ t, s.cardRead packets = .ok t ∧ Invariant d { t with reader := .polling } := by
  have hroom := h.ready hready
  obtain ⟨b, hwrite, hcells⟩ := s.writing.write_ok s.bytesInWriteBuffer packets (by omega)
  rw [CardState.cardRead, hwrite]
  refine ⟨_, rfl, delivers_cardRead h.delivers (by omega) hcells _, ?_, h.read, by simp, ?_⟩
  · change s.bytesInWriteBuffer + packets.length ≤ n
    omega
  · intro hlocking
    have hwritten : s.bytesInWriteBuffer ≠ 0 := h.locking hlocking
    change s.bytesInWriteBuffer + packets.length ≠ 0
    omega

theorem swap_empty (h : s.bytesInWriteBuffer = 0) : s.swap = s := by
  simp [CardState.swap, h]

theorem reading_swap (h : s.bytesInWriteBuffer ≠ 0) : s.swap.reading = s.writing := by
  rw [CardState.swap, if_pos h]
  simp only [CardState.reading, CardState.writing]
  split <;> simp [*]

/-- The swap hands over what waits in the write buffer. -/
theorem locked_written (h : s.bytesInWriteBuffer ≠ 0) :
    s.locked.unprocessed = s.unread ∧ s.locked.unread = [] := by
  have hreading : s.locked.reading = s.writing := reading_swap h
  have hread : s.locked.bytesRead = s.bytesInWriteBuffer := by
    simp [CardState.locked, CardState.swap, h]
  have hwritten : s.locked.bytesInWriteBuffer = 0 := by
    simp [CardState.locked, CardState.swap, h]
  constructor
  · change (s.locked.reading.cells.take s.locked.bytesRead).drop 0 = _
    rw [hreading, hread]
    rfl
  · rw [CardState.unread, hwritten]
    rfl

/-- Without one, the main loop has the packets before it that it has processed already. -/
theorem locked_empty (h : s.bytesInWriteBuffer = 0) :
    s.locked.unprocessed = s.reading.cells.take s.bytesRead ∧ s.locked.unread = [] := by
  rw [CardState.locked, swap_empty h]
  constructor
  · rfl
  · rw [CardState.unread]
    change s.writing.cells.take s.bytesInWriteBuffer = _
    rw [h]
    rfl

theorem locked_processed (s : CardState α n) :
    s.locked.processed = s.processed ∧ s.locked.received = s.received := by
  rw [CardState.locked, CardState.swap]
  split <;> simp

/-- The main loop takes the mutex: nothing is lost or repeated exactly when there is something in
the write buffer, or nothing in the other one. -/
theorem locked_delivers (h : s.Delivers) (hs : Outside s.main) (hread : s.bytesRead ≤ n) :
    s.locked.Delivers ↔ s.bytesInWriteBuffer ≠ 0 ∨ s.bytesRead = 0 := by
  obtain ⟨hprocessed, hreceived⟩ := locked_processed s
  rw [CardState.Delivers, unprocessed_outside hs, List.nil_append] at h
  rw [CardState.Delivers, hprocessed, hreceived, ← h]
  by_cases hwritten : s.bytesInWriteBuffer = 0
  case neg =>
    obtain ⟨hunprocessed, hunread⟩ := locked_written hwritten
    simp [hunprocessed, hunread, hwritten]
  case pos =>
    obtain ⟨hunprocessed, hunread⟩ := locked_empty hwritten
    have hempty : s.unread = [] := by simp [CardState.unread, hwritten]
    rw [hunprocessed, hunread, hempty]
    simp only [List.append_nil, List.append_right_eq_self, ← List.length_eq_zero_iff,
      List.length_take, Buffer.length_cells]
    omega

/-- The next packet of the reading buffer. -/
theorem process_delivers {pos : Nat} (h : s.Delivers) (hmain : s.main = .processing pos)
    (hread : s.bytesRead ≤ n) (hpos : pos < s.bytesRead) :
    ∃ packet, s.reading.read pos = .ok packet ∧
      CardState.Delivers { s with
        main := .processing (pos + 1)
        processed := s.processed ++ [packet] } := by
  have hlen : pos < s.reading.cells.length := by simp; omega
  have hhead : (s.reading.cells.take s.bytesRead).drop pos =
      s.reading.cells[pos] :: (s.reading.cells.take s.bytesRead).drop (pos + 1) := by
    rw [List.drop_eq_getElem_cons (by simp; omega), List.getElem_take]
  refine ⟨_, Buffer.read_ok _ (List.getElem?_eq_getElem hlen), ?_⟩
  rw [CardState.Delivers, CardState.unprocessed, hmain] at h
  simp only [hhead] at h
  rw [CardState.Delivers, ← h]
  change (_ ++ [_]) ++ ((s.reading.cells.take s.bytesRead).drop (pos + 1) ++ s.unread) = _
  simp

theorem process_end {pos : Nat} (h : s.Delivers) (hmain : s.main = .processing pos)
    (hpos : s.bytesRead ≤ pos) : CardState.Delivers { s with main := .top } := by
  have hempty : s.unprocessed = [] := by
    simp only [CardState.unprocessed, hmain]
    exact List.drop_of_length_le (by simp; omega)
  rw [CardState.Delivers, hempty] at h
  exact h

theorem Invariant.locked (h : Invariant d s) (hmain : s.main = .locking ∨ s.main = .woken)
    (hfresh : Fresh s (.lock : Event α)) : Invariant d s.locked := by
  have houtside : Outside s.main := by
    obtain hmain | hmain := hmain <;> simp [Outside, hmain]
  have hnew : s.bytesInWriteBuffer ≠ 0 ∨ s.bytesRead = 0 :=
    hmain.elim (fun hlocking => .inl (h.locking hlocking)) hfresh
  refine ⟨(locked_delivers h.delivers houtside h.read).mpr hnew, ?_, ?_, ?_, nofun⟩
  all_goals
    simp only [CardState.locked, CardState.swap]
    split
  · exact Nat.zero_le n
  · exact h.written
  · exact h.written
  · exact h.read
  · intro hready
    have := h.ready hready
    change 0 + d ≤ n
    omega
  · exact h.ready

theorem Invariant.process {pos : Nat} (h : Invariant d s) (hmain : s.main = .processing pos)
    (hstep : step d s .process = some s') : Invariant d s' := by
  rw [step, hmain] at hstep
  simp only at hstep
  split at hstep
  case isTrue hpos =>
    obtain ⟨packet, hread, hdelivers⟩ := process_delivers h.delivers hmain h.read hpos
    rw [hread] at hstep
    cases hstep
    exact ⟨hdelivers, h.written, h.read, h.ready, nofun⟩
  case isFalse hpos =>
    cases hstep
    exact ⟨process_end h.delivers hmain (by omega), h.written, h.read, h.ready, nofun⟩

/-- Every step keeps the invariant, if the main loop finds something new when it comes out of its
wait. -/
theorem Invariant.step {e : Event α} (h : Invariant d s) (hfresh : Fresh s e)
    (hstep : step d s e = some s') : Invariant d s' := by
  cases e with
  | timeout =>
    obtain ⟨-, ⟨⟩⟩ := Option.ite_none_right_eq_some.mp hstep
    exact h.signal
  | full =>
    obtain ⟨-, ⟨⟩⟩ := Option.ite_none_right_eq_some.mp hstep
    exact h.signal
  | room =>
    obtain ⟨hroom, ⟨⟩⟩ := Option.ite_none_right_eq_some.mp hstep
    exact h.room hroom.2
  | cardRead packets =>
    obtain ⟨⟨hready, hlen⟩, hread⟩ := Option.ite_none_right_eq_some.mp hstep
    obtain ⟨t, ht, hinv⟩ := h.cardRead hready hlen
    rw [ht] at hread
    cases hread
    exact hinv.signal
  | check =>
    obtain ⟨hmain, ⟨⟩⟩ := Option.ite_none_right_eq_some.mp hstep
    refine h.move (by simp [Outside, hmain]) ?_ ?_ s.mainWaiting
    · split <;> simp [Outside]
    · split <;> simp [*]
  | wait =>
    obtain ⟨hmain, ⟨⟩⟩ := Option.ite_none_right_eq_some.mp hstep
    exact h.move (by simp [Outside, hmain]) (by simp [Outside]) (by simp) true
  | spurious =>
    obtain ⟨hmain, ⟨⟩⟩ := Option.ite_none_right_eq_some.mp hstep
    exact h.move (by simp [Outside, hmain]) (by simp [Outside]) (by simp) s.mainWaiting
  | lock =>
    obtain ⟨hmain, ⟨⟩⟩ := Option.ite_none_right_eq_some.mp hstep
    exact h.locked hmain hfresh
  | process =>
    cases hmain : s.main with
    | processing pos => exact h.process hmain hstep
    | _ => simp [CardThread.step, hmain] at hstep

end steps

section runs

variable {d : Nat} {past : List (Event α)} {s : CardState α n}

theorem invariant_run (hrun : Run ((cardSystem α n d).restrict Fresh) past s) : Invariant d s := by
  have hstart : ∀ s : CardState α n, Initial s → Invariant d s := fun s h => h.invariant
  refine Run.invariant (P := fun _ s => Invariant d s) hstart ?_ hrun
  rintro past s e s' hinv ⟨hfresh, hstep⟩
  exact hinv.step hfresh hstep

/-- No access leaves its buffer: the steps that read or write one are never refused. -/
theorem cardSystem_accesses (hrun : Run ((cardSystem α n d).restrict Fresh) past s) :
    (s.reader = .ready → ∀ packets : List α, packets.length ≤ d →
      ∃ s', step d s (.cardRead packets) = some s') ∧
    (∀ pos, s.main = .processing pos → ∃ s', step d s .process = some s') := by
  have hinv := invariant_run hrun
  constructor
  · intro hready packets hlen
    obtain ⟨t, ht, -⟩ := hinv.cardRead hready hlen
    exact ⟨_, by rw [step, if_pos ⟨hready, hlen⟩, ht]⟩
  · intro pos hmain
    rw [step, hmain]
    by_cases hpos : pos < s.bytesRead
    case pos =>
      obtain ⟨packet, hread, -⟩ := process_delivers hinv.delivers hmain hinv.read hpos
      exact ⟨_, by simp only [if_pos hpos, hread]; rfl⟩
    case neg => exact ⟨_, by simp only [if_neg hpos]; rfl⟩

/-- As long as every wake-up brings something new, the main loop processes what the card delivers,
in order and once; a step that is not so ends it. -/
theorem cardSystem_delivers_iff (hrun : Run ((cardSystem α n d).restrict Fresh) past s) :
    s.Delivers ∧ ∀ e s', (cardSystem α n d).Step s e s' → (s'.Delivers ↔ Fresh s e) := by
  have hinv := invariant_run hrun
  refine ⟨hinv.delivers, fun e s' hstep => ⟨fun hdelivers => ?_, fun hfresh => ?_⟩⟩
  · cases e with
    | lock =>
      intro hwoken
      obtain ⟨-, ⟨⟩⟩ := Option.ite_none_right_eq_some.mp hstep
      exact (locked_delivers hinv.delivers (by simp [Outside, hwoken]) hinv.read).mp hdelivers
    | _ => trivial
  · exact (hinv.step hfresh hstep).delivers

end runs

/-! One packet in buffers of one: after it the main loop waits, and the poll times out. -/

def empty : CardState Nat 1 where
  buffer1 := ⟨[0], rfl⟩
  buffer2 := ⟨[0], rfl⟩
  actualReadBuffer := 1
  bytesRead := 0
  bytesInWriteBuffer := 0
  mainWaiting := false
  main := .top
  reader := .polling
  received := []
  processed := []

/-- The packet has been processed. -/
def idle : CardState Nat 1 where
  buffer1 := ⟨[0], rfl⟩
  buffer2 := ⟨[7], rfl⟩
  actualReadBuffer := 2
  bytesRead := 1
  bytesInWriteBuffer := 0
  mainWaiting := true
  main := .waiting
  reader := .polling
  received := [7]
  processed := [7]

def onePacket : List (Event Nat) :=
  [.wait, .check, .process, .process, .lock, .check, .cardRead [7], .room]

theorem idle_run : Run ((cardSystem Nat 1 1).restrict Fresh) onePacket idle := by
  have hstart : Run ((cardSystem Nat 1 1).restrict Fresh) [] empty :=
    .start ⟨rfl, rfl, rfl, rfl, rfl, rfl, rfl, rfl⟩
  exact .next (.next (.next (.next (.next (.next (.next (.next hstart ⟨trivial, rfl⟩)
    ⟨trivial, rfl⟩) ⟨trivial, rfl⟩) ⟨nofun, rfl⟩) ⟨trivial, rfl⟩) ⟨trivial, rfl⟩)
    ⟨trivial, rfl⟩) ⟨trivial, rfl⟩

theorem delivers_idle : idle.Delivers ∧ ∀ e s', (cardSystem Nat 1 1).Step idle e s' →
    (s'.Delivers ↔ Fresh idle e) :=
  cardSystem_delivers_iff idle_run

/-- The timeout wakes the main loop, which processes the packet again. -/
theorem not_delivers_timeout : ∃ s,
    Run (cardSystem Nat 1 1) (.process :: .lock :: .timeout :: onePacket) s ∧
      s.received = [7] ∧ s.processed = [7, 7] ∧ ¬ s.Delivers := by
  refine ⟨_, .next (.next (.next idle_run.of_restrict rfl) rfl) rfl, rfl, rfl, ?_⟩
  intro (hdelivers : [7, 7] = [7])
  exact absurd hdelivers (by decide)

end MuMuDVB.CardThread
