import MuMuDVB.RecentRing
import MuMuDVB.RecordedRun
import MuMuDVB.TsHeader

/-!
# The ring between the descrambling threads

A channel that is descrambled by software has a ring of packets. `buffer_func`
writes them into it, the thread of `decsathread_func` walks behind and decrypts
them in batches, and the thread of `sendthread_func` takes what is released.
The three are interleaved at the granularity of what they do with the lock of
the ring held, and of what the descrambling thread does to its batches without
it.
-/
namespace MuMuDVB.ScamRing

open CheckedMemory RecordedRun RecentRing MuMuDVB.TsHeader

abbrev ControlWord := List UInt8

inductive Parity where
  | even | odd
  deriving DecidableEq

/-- The size of the ring, which `round_up` makes a power of two that an `int` holds, and the parts
of libdvbcsa: the size of its batches, and what decrypting a packet's payload makes of it. -/
structure Setup where
  exponent : Nat
  exponent_le : exponent ≤ 30
  batchSize : Nat
  batchSize_pos : 0 < batchSize
  batchSize_le : batchSize ≤ 256
  decrypt : ControlWord → List UInt8 → List UInt8
  length_decrypt : ∀ key payload, (decrypt key payload).length = payload.length

def Setup.ringBufferSize (setup : Setup) : Nat := 2 ^ setup.exponent

/-- The bytes of a packet in the ring. The number of the packet and how often it was decrypted are
kept for the proofs only. -/
structure Slot where
  bytes : List UInt8
  serial : Nat
  decryptions : Nat

/-- `ring_buffer_t`, without its times. -/
structure RingBuffer where
  data : Nat → Slot
  writeIdx : Nat
  toDescramble : Nat
  readDecsaIdx : Nat
  toSend : Nat
  readSendIdx : Nat

/-- `struct dvbcsa_bs_batch_s`: the payload lies in a slot of the ring. -/
structure BatchEntry where
  slot : Nat
  offset : Nat
  len : Nat
  deriving DecidableEq

/-- The arrays of one parity and their index, an `unsigned char`. A `none` is the data pointer
`NULL`. -/
structure Batch where
  entries : List (Option BatchEntry)
  scntField : List Nat
  idx : Nat

/-- Where the descrambling thread stands. -/
inductive DecsaAt where
  /-- before it looks at `to_descramble` -/
  | polling
  /-- it saw a packet, and may have slept since -/
  | ready
  /-- a batch is full, and the lock of the ring is held -/
  | loading (p : Parity)
  /-- without the lock -/
  | decrypting (p : Parity)
  | releasing
  deriving DecidableEq

/-- The local variables of `decsathread_func`. -/
structure Decsa where
  stage : DecsaAt
  scrambled : Nat
  nscrambled : Nat
  caIdx : Nat
  batch : Parity → Batch
  key : Parity → ControlWord
  gotFirstKey : Parity → Bool

/-- What the other threads set of the channel under `cw_lock`. -/
structure ChannelKeys where
  cw : Parity → ControlWord
  gotKey : Parity → Bool
  caIdx : Nat

inductive SenderAt where
  | polling | ready
  deriving DecidableEq

/-- What has gone through the ring: the packets pushed, how many of them were taken for
descrambling and how many released, those sent, and the numbers of those overwritten before. -/
structure Flow where
  pushed : List Packet
  taken : Nat
  released : Nat
  sent : List Slot
  lost : List Nat

/-- What has gone through the batches: the packets put in since the last flush, those ever put in,
and for each key loaded how many packets of its parity were in the batch. -/
structure BatchLog where
  added : Parity → List Nat
  batched : List Nat
  loads : List (Parity × Nat)

structure State where
  ring : RingBuffer
  decsa : Decsa
  keys : ChannelKeys
  sender : SenderAt
  flow : Flow
  log : BatchLog

/-- `ts_packet_get_payload_offset`. -/
def tsPacketGetPayloadOffset (tsPacket : List UInt8) : Nat :=
  if byteAt tsPacket 0 ≠ 0x47 then 0
  else if adaptationFieldControl tsPacket % 2 = 0 then 0
  else if adaptationFieldControl tsPacket / 2 = 1 then
    if 182 < (byteAt tsPacket 4).toNat then 0 else 4 + 1 + (byteAt tsPacket 4).toNat
  else 4

/-- `scrambling_control_packet`: a packet whose payload is not found counts as clear. -/
def scramblingControlPacket (tsPacket : List UInt8) : Nat :=
  if tsPacketGetPayloadOffset tsPacket = 0 then 0 else transportScramblingControl tsPacket

/-- The cases of the `switch`. -/
def scrambledParity (tsPacket : List UInt8) : Option Parity :=
  match scramblingControlPacket tsPacket with
  | 2 => some .even
  | 3 => some .odd
  | _ => none

/-- One more packet, at the index. -/
def Batch.add (b : Batch) (slot offset : Nat) : Batch where
  entries := b.entries.set b.idx (some ⟨slot, offset, tsPacketSize - offset⟩)
  scntField := b.scntField.set b.idx slot
  idx := (b.idx + 1) % 256

/-- `batch[idx].data = NULL`. -/
def Batch.close (b : Batch) : Batch := { b with entries := b.entries.set b.idx none }

/-- The entries up to `NULL`. -/
def Batch.untilNull (b : Batch) : List BatchEntry :=
  (b.entries.takeWhile Option.isSome).reduceOption

def Slot.decrypt (setup : Setup) (key : ControlWord) (entry : BatchEntry) (slot : Slot) : Slot :=
  { slot with
    bytes := splice slot.bytes entry.offset
      (setup.decrypt key ((slot.bytes.drop entry.offset).take entry.len))
    decryptions := slot.decryptions + 1 }

/-- `*scnt_field &= 0x3f`. -/
def Slot.clear (slot : Slot) : Slot :=
  { slot with bytes := slot.bytes.set 3 (byteAt slot.bytes 3 &&& 0x3f) }

/-- `dvbcsa_bs_decrypt` on a batch, then the scrambling control of its packets. -/
def decryptBatch (setup : Setup) (key : ControlWord) (b : Batch) (data : Nat → Slot) :
    Nat → Slot :=
  if b.idx = 0 then data
  else
    updateAll id (fun _ => Slot.clear)
      (updateAll BatchEntry.slot (Slot.decrypt setup key) data b.untilNull)
      (b.scntField.take b.idx)

namespace State

variable (setup : Setup) (s : State)

/-- The part of `buffer_func` for a channel that is descrambled by software. -/
def push (tsPacket : Packet) : State :=
  { s with
    ring := { s.ring with
      data := Function.update s.ring.data s.ring.writeIdx
        ⟨tsPacket.cells, s.flow.pushed.length, 0⟩
      writeIdx := advance setup.ringBufferSize s.ring.writeIdx
      toDescramble := increase s.ring.toDescramble 1 }
    flow := { s.flow with
      pushed := s.flow.pushed ++ [tsPacket]
      lost :=
        if s.flow.sent.length + setup.ringBufferSize ≤ s.flow.pushed.length then
          s.flow.lost ++ [s.flow.pushed.length - setup.ringBufferSize]
        else s.flow.lost } }

/-- The packet that the descrambling thread looks at. -/
def current : List UInt8 := (s.ring.data s.ring.readDecsaIdx).bytes

/-- The batch that the current packet goes into. -/
def adds : Option Parity :=
  (scrambledParity s.current).filter fun p => s.decsa.caIdx ≠ 0 ∧ s.decsa.gotFirstKey p

/-- The `switch` on the scrambling control. -/
def count : State :=
  { s with decsa := { s.decsa with
    scrambled := s.decsa.scrambled + (scrambledParity s.current).isSome.toNat
    nscrambled := s.decsa.nscrambled + (scrambledParity s.current).isNone.toNat } }

/-- The batch of a parity, with the current packet if that goes into it. -/
def filled (p : Parity) : Batch :=
  if s.adds = some p then
    (s.decsa.batch p).add s.ring.readDecsaIdx (tsPacketGetPayloadOffset s.current)
  else s.decsa.batch p

def addToBatch : State :=
  { s with
    decsa := { s.decsa with batch := s.filled }
    log := { s.log with
      added := fun p =>
        if s.adds = some p then s.log.added p ++ [s.flow.taken] else s.log.added p
      batched := if s.adds = none then s.log.batched else s.log.batched ++ [s.flow.taken] } }

def stepOver : State :=
  { s with
    ring := { s.ring with
      readDecsaIdx := advance setup.ringBufferSize s.ring.readDecsaIdx
      toDescramble := decrement s.ring.toDescramble }
    flow := { s.flow with taken := s.flow.taken + 1 } }

/-- The two batches end here if there is enough to flush. -/
def closeBatches : State :=
  if s.decsa.scrambled = setup.batchSize ∨ s.decsa.nscrambled = setup.batchSize then
    { s with decsa := { s.decsa with
      stage := .loading .even, batch := fun p => (s.decsa.batch p).close } }
  else { s with decsa := { s.decsa with stage := .polling } }

/-- The descrambling thread takes one packet. -/
def take : State := (s.addToBatch.count.stepOver setup).closeBatches setup

end State

def Parity.other : Parity → Parity
  | .even => .odd
  | .odd => .even

namespace State

variable (setup : Setup) (s : State)

/-- A new key is loaded while the old one is not needed. -/
def loadKey (p : Parity) : State :=
  if (((s.decsa.batch p.other).idx ≠ 0 ∧ (s.decsa.batch p).idx = 0) ∨ !s.decsa.gotFirstKey p) ∧
      s.keys.gotKey p then
    { s with
      decsa := { s.decsa with
        key := Function.update s.decsa.key p (s.keys.cw p)
        gotFirstKey := Function.update s.decsa.gotFirstKey p true }
      keys := { s.keys with gotKey := Function.update s.keys.gotKey p false }
      log := { s.log with loads := s.log.loads ++ [(p, (s.log.added p).length)] } }
  else s

def decrypt (p : Parity) : State :=
  { s with ring := { s.ring with
    data := decryptBatch setup (s.decsa.key p) (s.decsa.batch p) s.ring.data } }

/-- Both batches are empty again. -/
def resetBatches : State :=
  { s with
    decsa := { s.decsa with batch := fun p => { s.decsa.batch p with idx := 0 } }
    log := { s.log with added := fun _ => [] } }

/-- The packets behind the last flush become sendable. -/
def release : State :=
  { s with
    ring := { s.ring with
      toSend := increase s.ring.toSend (s.decsa.scrambled + s.decsa.nscrambled) }
    decsa := { s.decsa with scrambled := 0, nscrambled := 0, caIdx := s.keys.caIdx }
    flow := { s.flow with
      released := s.flow.released + (s.decsa.scrambled + s.decsa.nscrambled) } }

def goTo (stage : DecsaAt) : State := { s with decsa := { s.decsa with stage } }

/-- The next step of `decsathread_func`. -/
def decsathread : State :=
  match s.decsa.stage with
  | .polling => if s.ring.toDescramble = 0 then s else s.goTo .ready
  | .ready => s.take setup
  | .loading .even => (s.loadKey .even).goTo (.loading .odd)
  | .loading .odd => (s.loadKey .odd).goTo (.decrypting .even)
  | .decrypting .even => (s.decrypt setup .even).goTo (.decrypting .odd)
  | .decrypting .odd => ((s.decrypt setup .odd).resetBatches).goTo .releasing
  | .releasing => s.release.goTo .polling

/-- The next step of `sendthread_func`: it looks at `to_send`, and later takes a packet. -/
def sendthread : State :=
  match s.sender with
  | .polling => if s.ring.toSend = 0 then s else { s with sender := .ready }
  | .ready =>
    { s with
      sender := .polling
      ring := { s.ring with
        readSendIdx := advance setup.ringBufferSize s.ring.readSendIdx
        toSend := decrement s.ring.toSend }
      flow := { s.flow with sent := s.flow.sent ++ [s.ring.data s.ring.readSendIdx] } }

/-- The descrambling thread keeps the lock of the ring between two of its steps. -/
def locked : Bool :=
  match s.decsa.stage with
  | .loading _ => true
  | _ => false

end State

inductive Event where
  | push (tsPacket : Packet)
  | decsathread
  | sendthread
  /-- a control word arrives, from the key server or a static one -/
  | newKey (p : Parity) (cw : ControlWord)
  | newCaIdx (caIdx : Nat)

def step (setup : Setup) (s : State) : Event → Option State
  | .push tsPacket => if s.locked then none else some (s.push setup tsPacket)
  | .decsathread => some (s.decsathread setup)
  | .sendthread => if s.locked then none else some (s.sendthread setup)
  | .newKey p cw => some { s with keys := { s.keys with
      cw := Function.update s.keys.cw p cw, gotKey := Function.update s.keys.gotKey p true } }
  | .newCaIdx caIdx => some { s with keys := { s.keys with caIdx } }

/-- The threads at the start. The slots of the ring and the entries of the batches are whatever
lies in the memory they get. -/
structure Initial (setup : Setup) (s : State) : Prop where
  writeIdx : s.ring.writeIdx = 0
  toDescramble : s.ring.toDescramble = 0
  readDecsaIdx : s.ring.readDecsaIdx = 0
  toSend : s.ring.toSend = 0
  readSendIdx : s.ring.readSendIdx = 0
  stage : s.decsa.stage = .polling
  scrambled : s.decsa.scrambled = 0
  nscrambled : s.decsa.nscrambled = 0
  caIdx : s.decsa.caIdx = 0
  entries : ∀ p, (s.decsa.batch p).entries.length = setup.batchSize + 1
  scntField : ∀ p, (s.decsa.batch p).scntField.length = setup.batchSize + 1
  idx : ∀ p, (s.decsa.batch p).idx = 0
  gotFirstKey : ∀ p, s.decsa.gotFirstKey p = false
  sender : s.sender = .polling
  flow : s.flow = ⟨[], 0, 0, [], []⟩
  log : s.log = ⟨fun _ => [], [], []⟩

def ringSystem (setup : Setup) : System State Event where
  Initial := Initial setup
  Step s e s' := step setup s e = some s'

/-- What the indices and the counters say about the packets, whatever was overwritten. -/
structure Counts (setup : Setup) (s : State) : Prop where
  sent_le : s.flow.sent.length ≤ s.flow.released
  taken_eq : s.flow.taken = s.flow.released + (s.decsa.scrambled + s.decsa.nscrambled)
  taken_le : s.flow.taken ≤ s.flow.pushed.length
  writeIdx : s.ring.writeIdx = s.flow.pushed.length % setup.ringBufferSize
  readDecsaIdx : s.ring.readDecsaIdx = s.flow.taken % setup.ringBufferSize
  readSendIdx : s.ring.readSendIdx = s.flow.sent.length % setup.ringBufferSize
  toDescramble : s.ring.toDescramble = (s.flow.pushed.length - s.flow.taken) % 2 ^ 32
  toSend : s.ring.toSend = (s.flow.released - s.flow.sent.length) % 2 ^ 32
  /-- only the descrambling thread takes packets -/
  ready : s.decsa.stage = .ready → s.flow.taken < s.flow.pushed.length
  /-- only the sending thread takes released ones -/
  sending : s.sender = .ready → s.flow.sent.length < s.flow.released
  serials : Recent setup.ringBufferSize s.flow.pushed.length (fun m slot => slot.serial = m)
    s.ring.data
  kept : s.flow.lost = [] → s.flow.pushed.length ≤ s.flow.sent.length + setup.ringBufferSize
  order : s.flow.lost = [] → s.flow.sent.map Slot.serial = List.range s.flow.sent.length

section counts

variable {setup : Setup} {s s' : State}

theorem Setup.advance_mod (setup : Setup) (count : Nat) :
    advance setup.ringBufferSize (count % setup.ringBufferSize) =
      (count + 1) % setup.ringBufferSize :=
  RecentRing.advance_mod (by have := setup.exponent_le; omega) count

theorem Initial.counts (h : Initial setup s) : Counts setup s := by
  have hflow := h.flow
  constructor <;> simp [h.writeIdx, h.toDescramble, h.readDecsaIdx, h.toSend, h.readSendIdx,
    h.stage, h.scrambled, h.nscrambled, h.sender, hflow, recent_zero]

/-- A step that has to do with the batches and the keys only. -/
theorem Counts.congr (h : Counts setup s) (hring : s'.ring = s.ring) (hflow : s'.flow = s.flow)
    (hsender : s'.sender = s.sender)
    (hcount : s'.decsa.scrambled + s'.decsa.nscrambled = s.decsa.scrambled + s.decsa.nscrambled)
    (hready : s'.decsa.stage = .ready → s.decsa.stage = .ready) : Counts setup s' := by
  constructor <;> simp only [hring, hflow, hsender, hcount]
  · exact h.sent_le
  · exact h.taken_eq
  · exact h.taken_le
  · exact h.writeIdx
  · exact h.readDecsaIdx
  · exact h.readSendIdx
  · exact h.toDescramble
  · exact h.toSend
  · exact fun hstage => h.ready (hready hstage)
  · exact h.sending
  · exact h.serials
  · exact h.kept
  · exact h.order

/-- A packet is overwritten before it was sent exactly when the ring is full. -/
theorem push_lost (tsPacket : Packet) : (s.push setup tsPacket).flow.lost = [] ↔
    s.flow.lost = [] ∧ s.flow.pushed.length < s.flow.sent.length + setup.ringBufferSize := by
  simp only [State.push]
  split
  case isTrue hfull => simp [Nat.not_lt.mpr hfull]
  case isFalse hroom => simp [Nat.not_le.mp hroom]

theorem Counts.push (h : Counts setup s) (tsPacket : Packet) :
    Counts setup (s.push setup tsPacket) := by
  have hlength : (s.push setup tsPacket).flow.pushed.length = s.flow.pushed.length + 1 := by
    simp [State.push]
  have htaken := h.taken_le
  refine ⟨h.sent_le, h.taken_eq, ?_, ?_, h.readDecsaIdx, h.readSendIdx, ?_, h.toSend, ?_,
    h.sending, ?_, ?_, ?_⟩
  · rw [hlength]
    exact Nat.le_succ_of_le h.taken_le
  · rw [hlength, ← Setup.advance_mod, ← h.writeIdx]
    rfl
  · rw [hlength]
    change increase s.ring.toDescramble 1 = _
    rw [h.toDescramble]
    exact increase_sub h.taken_le 1
  · intro hstage
    rw [hlength]
    exact Nat.lt_succ_of_lt (h.ready hstage)
  · rw [hlength]
    change Recent _ _ _ (Function.update s.ring.data s.ring.writeIdx _)
    rw [h.writeIdx]
    exact h.serials.push rfl
  · intro hlost
    rw [hlength]
    exact ((push_lost tsPacket).mp hlost).2
  · exact fun hlost => h.order ((push_lost tsPacket).mp hlost).1

/-- The sending thread takes the packet whose turn it is, unless that was overwritten. -/
theorem Counts.sendthread (h : Counts setup s) : Counts setup (s.sendthread setup) := by
  rw [State.sendthread]
  split
  case h_1 hpolling =>
    split
    case isTrue => exact h
    case isFalse htoSend =>
      refine ⟨h.sent_le, h.taken_eq, h.taken_le, h.writeIdx, h.readDecsaIdx, h.readSendIdx,
        h.toDescramble, h.toSend, h.ready, fun _ => ?_, h.serials, h.kept, h.order⟩
      rw [h.toSend] at htoSend
      exact lt_of_counter h.sent_le htoSend
  case h_2 hready =>
    have hlt := h.sending hready
    have hlength (slot : Slot) : (s.flow.sent ++ [slot]).length = s.flow.sent.length + 1 := by
      simp
    have htaken := h.taken_eq
    have hpushed := h.taken_le
    refine ⟨?_, h.taken_eq, h.taken_le, h.writeIdx, h.readDecsaIdx, ?_, h.toDescramble, ?_, h.ready,
      fun hsender => (by cases hsender), h.serials, ?_, ?_⟩
    · rw [hlength]
      exact hlt
    · rw [hlength, ← Setup.advance_mod, ← h.readSendIdx]
    · rw [hlength]
      change decrement s.ring.toSend = _
      rw [h.toSend]
      exact decrement_sub hlt
    · intro hlost
      have hkept := h.kept hlost
      rw [hlength]
      change s.flow.pushed.length ≤ _
      omega
    · intro hlost
      have hserial := h.serials s.flow.sent.length (by omega) (h.kept hlost)
      rw [hlength, List.range_succ, List.map_append, h.order hlost]
      change _ = _ ++ [_]
      rw [h.readSendIdx, List.map_singleton, hserial]

theorem closeBatches_congr (s : State) :
    (s.closeBatches setup).ring = s.ring ∧ (s.closeBatches setup).flow = s.flow ∧
      (s.closeBatches setup).sender = s.sender ∧
      (s.closeBatches setup).decsa.scrambled = s.decsa.scrambled ∧
      (s.closeBatches setup).decsa.nscrambled = s.decsa.nscrambled ∧
      (s.closeBatches setup).decsa.stage ≠ .ready := by
  rw [State.closeBatches]
  split <;> exact ⟨rfl, rfl, rfl, rfl, rfl, by simp⟩

theorem count_add (s : State) : s.count.decsa.scrambled + s.count.decsa.nscrambled =
    s.decsa.scrambled + s.decsa.nscrambled + 1 := by
  simp only [State.count]
  cases scrambledParity s.current with
  | none => simp; omega
  | some p => simp; omega

theorem take_ring (s : State) : (s.take setup).ring = { s.ring with
    readDecsaIdx := advance setup.ringBufferSize s.ring.readDecsaIdx
    toDescramble := decrement s.ring.toDescramble } := by
  rw [State.take, (closeBatches_congr _).1]
  rfl

theorem take_flow (s : State) :
    (s.take setup).flow = { s.flow with taken := s.flow.taken + 1 } := by
  rw [State.take, (closeBatches_congr _).2.1]
  rfl

theorem take_sender (s : State) : (s.take setup).sender = s.sender := by
  rw [State.take, (closeBatches_congr _).2.2.1]
  rfl

theorem take_stage (s : State) : (s.take setup).decsa.stage ≠ .ready := by
  rw [State.take]
  exact (closeBatches_congr _).2.2.2.2.2

theorem take_count (s : State) :
    (s.take setup).decsa.scrambled + (s.take setup).decsa.nscrambled =
      s.decsa.scrambled + s.decsa.nscrambled + 1 := by
  rw [State.take, (closeBatches_congr _).2.2.2.1, (closeBatches_congr _).2.2.2.2.1]
  exact count_add s.addToBatch

theorem Counts.take (h : Counts setup s) (hready : s.decsa.stage = .ready) :
    Counts setup (s.take setup) := by
  have hlt := h.ready hready
  constructor <;> simp only [take_ring, take_flow, take_sender, take_count]
  · exact h.sent_le
  · rw [h.taken_eq]
    omega
  · exact hlt
  · exact h.writeIdx
  · rw [← Setup.advance_mod, ← h.readDecsaIdx]
  · exact h.readSendIdx
  · rw [h.toDescramble]
    exact decrement_sub hlt
  · exact h.toSend
  · exact fun hstill => absurd hstill (take_stage s)
  · exact h.sending
  · exact h.serials
  · exact h.kept
  · exact h.order

theorem loadKey_congr (s : State) (p : Parity) : (s.loadKey p).ring = s.ring ∧
    (s.loadKey p).flow = s.flow ∧ (s.loadKey p).sender = s.sender ∧
    (s.loadKey p).decsa.scrambled = s.decsa.scrambled ∧
    (s.loadKey p).decsa.nscrambled = s.decsa.nscrambled := by
  rw [State.loadKey]
  split <;> exact ⟨rfl, rfl, rfl, rfl, rfl⟩

theorem Counts.loadKey (h : Counts setup s) (p : Parity) {stage : DecsaAt}
    (hstage : stage ≠ .ready) : Counts setup ((s.loadKey p).goTo stage) := by
  obtain ⟨hring, hflow, hsender, hscrambled, hnscrambled⟩ := loadKey_congr s p
  exact h.congr hring hflow hsender (congrArg₂ (· + ·) hscrambled hnscrambled)
    fun hready => absurd hready hstage

/-- The number of a packet stays with it while it is decrypted. -/
theorem decryptBatch_serial (setup : Setup) (key : ControlWord) (b : Batch) {data : Nat → Slot}
    {i m : Nat} (h : (data i).serial = m) : (decryptBatch setup key b data i).serial = m := by
  rw [decryptBatch]
  split
  · exact h
  · exact updateAll_keeps (Q := fun slot : Slot => slot.serial = m) (fun _ _ hslot => hslot)
      (updateAll_keeps (Q := fun slot : Slot => slot.serial = m) (fun _ _ hslot => hslot) h)

theorem Counts.decrypt (h : Counts setup s) (p : Parity) : Counts setup (s.decrypt setup p) :=
  { h with serials := h.serials.of_forall fun _ _ hslot => decryptBatch_serial _ _ _ hslot }

theorem Counts.release (h : Counts setup s) : Counts setup (s.release.goTo .polling) := by
  refine ⟨Nat.le_add_right_of_le h.sent_le, h.taken_eq, h.taken_le, h.writeIdx, h.readDecsaIdx,
    h.readSendIdx, h.toDescramble, ?_, fun hstage => (by cases hstage),
    fun hready => Nat.lt_add_right _ (h.sending hready), h.serials, h.kept, h.order⟩
  change increase s.ring.toSend (s.decsa.scrambled + s.decsa.nscrambled) = _
  rw [h.toSend]
  exact increase_sub h.sent_le _

theorem Counts.decsathread (h : Counts setup s) : Counts setup (s.decsathread setup) := by
  rw [State.decsathread]
  split
  case h_1 =>
    split
    case isTrue => exact h
    case isFalse htoDescramble =>
      rw [h.toDescramble] at htoDescramble
      exact { h with ready := fun _ => lt_of_counter h.taken_le htoDescramble }
  case h_2 hready => exact h.take hready
  case h_3 => exact h.loadKey .even (by simp)
  case h_4 => exact h.loadKey .odd (by simp)
  case h_5 => exact (h.decrypt .even).congr rfl rfl rfl rfl fun hready => by cases hready
  case h_6 => exact (h.decrypt .odd).congr rfl rfl rfl rfl fun hready => by cases hready
  case h_7 => exact h.release

theorem Counts.step {e : Event} (h : Counts setup s) (hstep : step setup s e = some s') :
    Counts setup s' := by
  cases e with
  | push tsPacket =>
    obtain ⟨-, ⟨⟩⟩ := Option.ite_none_left_eq_some.mp hstep
    exact h.push tsPacket
  | decsathread =>
    cases hstep
    exact h.decsathread
  | sendthread =>
    obtain ⟨-, ⟨⟩⟩ := Option.ite_none_left_eq_some.mp hstep
    exact h.sendthread
  | newKey p cw =>
    cases hstep
    exact h.congr rfl rfl rfl rfl id
  | newCaIdx caIdx =>
    cases hstep
    exact h.congr rfl rfl rfl rfl id

theorem counts_run {past : List Event} (hrun : Run (ringSystem setup) past s) : Counts setup s :=
  hrun.invariant (P := fun _ s => Counts setup s) (fun _ (h : Initial setup _) => h.counts)
    fun _ _ _ _ h hstep => h.step hstep

theorem Setup.ringBufferSize_lt (setup : Setup) : setup.ringBufferSize < 2 ^ 32 := by
  have := Nat.pow_le_pow_right (show 0 < 2 by decide) setup.exponent_le
  exact Nat.lt_of_le_of_lt this (by decide)

/-- The packets in the ring, by the counters of the ring and of the descrambling thread. -/
def State.occupancy (s : State) : Nat :=
  s.ring.toDescramble + (s.decsa.scrambled + s.decsa.nscrambled) + s.ring.toSend

/-- As long as nothing was overwritten, the counters tell what is between the two ends. -/
theorem Counts.occupancy (h : Counts setup s) (hlost : s.flow.lost = []) :
    s.flow.sent.length + s.occupancy = s.flow.pushed.length := by
  have hsent := h.sent_le
  have htaken := h.taken_eq
  have hpushed := h.taken_le
  have hkept := h.kept hlost
  have hsize := setup.ringBufferSize_lt
  have htoDescramble : s.ring.toDescramble = s.flow.pushed.length - s.flow.taken := by
    rw [h.toDescramble, Nat.mod_eq_of_lt (by omega)]
  have htoSend : s.ring.toSend = s.flow.released - s.flow.sent.length := by
    rw [h.toSend, Nat.mod_eq_of_lt (by omega)]
  rw [State.occupancy, htoDescramble, htoSend]
  omega

/-- The packets sent are the first ones pushed, in their order and each once, and no packet was
overwritten before it was sent. -/
structure FirstInFirstOut (s : State) : Prop where
  order : s.flow.sent.map Slot.serial <+: List.range s.flow.pushed.length
  lost : s.flow.lost = []

theorem Counts.firstInFirstOut (h : Counts setup s) (hlost : s.flow.lost = []) :
    FirstInFirstOut s := by
  refine ⟨?_, hlost⟩
  have hle : s.flow.sent.length ≤ s.flow.pushed.length := by
    have := h.occupancy hlost
    omega
  rw [h.order hlost, ← Nat.min_eq_left hle, ← List.take_range]
  exact List.take_prefix _ _

/-- A packet is pushed only while the ring has room for it. -/
def Fits (setup : Setup) (s : State) : Event → Prop
  | .push _ => s.occupancy < setup.ringBufferSize
  | _ => True

/-- Only a push into a full ring overwrites a packet. -/
theorem step_lost {e : Event} (h : Counts setup s) (hlost : s.flow.lost = [])
    (hstep : step setup s e = some s') : s'.flow.lost = [] ↔ Fits setup s e := by
  cases e with
  | push tsPacket =>
    obtain ⟨-, ⟨⟩⟩ := Option.ite_none_left_eq_some.mp hstep
    rw [push_lost, Fits, ← h.occupancy hlost]
    simp [hlost]
  | decsathread =>
    cases hstep
    have hflow : (s.decsathread setup).flow.lost = s.flow.lost := by
      rw [State.decsathread]
      split
      case h_1 => split <;> rfl
      case h_2 => rw [take_flow]
      case h_3 => exact congrArg Flow.lost (loadKey_congr s .even).2.1
      case h_4 => exact congrArg Flow.lost (loadKey_congr s .odd).2.1
      all_goals rfl
    simp [hflow, hlost, Fits]
  | sendthread =>
    obtain ⟨-, ⟨⟩⟩ := Option.ite_none_left_eq_some.mp hstep
    have hflow : (s.sendthread setup).flow.lost = s.flow.lost := by
      rw [State.sendthread]
      split
      case h_1 => split <;> rfl
      case h_2 => rfl
    simp [hflow, hlost, Fits]
  | newKey p cw =>
    cases hstep
    simp [hlost, Fits]
  | newCaIdx caIdx =>
    cases hstep
    simp [hlost, Fits]

/-- The ring is a queue that loses nothing in exactly those runs in which a packet is pushed only
while the ring has room for it. -/
theorem ring_firstInFirstOut_iff (setup : Setup) (past : List Event) (s : State) :
    Run ((ringSystem setup).restrict (Fits setup)) past s ↔
      Along (ringSystem setup) (fun _ s => FirstInFirstOut s) past s := by
  refine along_iff (P := fun _ s => FirstInFirstOut s) ?_ ?_ past s
  · intro s hinitial
    have hflow := hinitial.flow
    exact ⟨by simp [hflow], by rw [hflow]⟩
  · intro past s e s' hrun hfirst hstep
    have hcounts := counts_run hrun
    rw [← step_lost hcounts hfirst.lost hstep]
    exact ⟨fun h => h.lost, (hcounts.step hstep).firstInFirstOut⟩

end counts

/-- The threads with nothing in the ring. -/
def idle (setup : Setup) : State where
  ring := ⟨fun _ => ⟨[], 0, 0⟩, 0, 0, 0, 0, 0⟩
  decsa := ⟨.polling, 0, 0, 0, fun _ => ⟨List.replicate (setup.batchSize + 1) none,
    List.replicate (setup.batchSize + 1) 0, 0⟩, fun _ => [], fun _ => false⟩
  keys := ⟨fun _ => [], fun _ => false, 0⟩
  sender := .polling
  flow := ⟨[], 0, 0, [], []⟩
  log := ⟨fun _ => [], [], []⟩

theorem idle_initial (setup : Setup) : Initial setup (idle setup) := by
  constructor <;> simp [idle]

/-! A ring of one packet, and a second packet before the first one was sent. -/

def oneSlot : Setup where
  exponent := 0
  exponent_le := by decide
  batchSize := 1
  batchSize_pos := by decide
  batchSize_le := by decide
  decrypt _ payload := payload
  length_decrypt _ _ := rfl

def twoPackets : List Event :=
  let tsPacket := Buffer.fill tsPacketSize 0x47
  [.sendthread, .sendthread] ++ List.replicate 7 .decsathread ++ [.push tsPacket, .push tsPacket]

/-- The first packet is lost, and the second one is sent in its place. -/
theorem full_ring_overwritten : ∃ s, Run (ringSystem oneSlot) twoPackets s ∧
    s.flow.pushed.length = 2 ∧ s.flow.lost = [0] ∧ s.flow.sent.map Slot.serial = [1] ∧
      ¬ FirstInFirstOut s := by
  refine ⟨_, .next (.next (.next (.next (.next (.next (.next (.next (.next (.next (.next
    (.start (idle_initial oneSlot)) rfl) rfl) rfl) rfl) rfl) rfl) rfl) rfl) rfl) rfl) rfl, rfl, rfl,
    rfl, fun h => ?_⟩
  cases h.lost

end MuMuDVB.ScamRing
