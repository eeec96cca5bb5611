import Mathlib.Data.List.ReduceOption
import MuMuDVB.ScamRing

/-!
# The batches of the descrambling thread

The entries of a batch are the packets put in since the last flush, each packet
put in is decrypted once before it can be sent, and a key is loaded only while
no packet of its parity waits. The index of a batch has eight bits: a batch of
256 packets looks empty.
-/
namespace MuMuDVB.ScamRing

open CheckedMemory RecordedRun RecentRing MuMuDVB.TsHeader

/-- The bytes of packet `m` as it was pushed. -/
def Flow.packet (flow : Flow) (m : Nat) : List UInt8 := (flow.pushed[m]?.map Buffer.cells).getD []

/-- What the code puts into a batch for packet `m`. -/
def entryOf (setup : Setup) (packet : Nat → List UInt8) (m : Nat) : BatchEntry where
  slot := m % setup.ringBufferSize
  offset := tsPacketGetPayloadOffset (packet m)
  len := tsPacketSize - tsPacketGetPayloadOffset (packet m)

/-- A batch that holds the packets `ms`, in this order. -/
structure Batch.Holds (setup : Setup) (packet : Nat → List UInt8) (b : Batch) (ms : List Nat) :
    Prop where
  entries_length : b.entries.length = setup.batchSize + 1
  scntField_length : b.scntField.length = setup.batchSize + 1
  idx : b.idx = ms.length
  entries : b.entries.take b.idx = ms.map fun m => some (entryOf setup packet m)
  scntField : b.scntField.take b.idx = ms.map (· % setup.ringBufferSize)

/-- The data pointer behind the last packet is `NULL`. -/
def Batch.Closed (b : Batch) : Prop := b.entries[b.idx]? = some none

section batch

variable {setup : Setup} {packet packet' : Nat → List UInt8} {b : Batch} {ms : List Nat}

theorem take_set_succ {α : Type} {xs : List α} {i : Nat} (h : i < xs.length) (a : α) :
    (xs.set i a).take (i + 1) = xs.take i ++ [a] := by
  rw [List.take_add_one, List.getElem?_set_self h, List.take_set_of_le (Nat.le_refl i)]
  rfl

theorem Batch.Holds.congr (h : b.Holds setup packet ms) (hpacket : ∀ m ∈ ms, packet' m = packet m) :
    b.Holds setup packet' ms := by
  refine ⟨h.entries_length, h.scntField_length, h.idx, ?_, h.scntField⟩
  rw [h.entries]
  refine List.map_congr_left fun m hm => ?_
  rw [entryOf, entryOf, hpacket m hm]

/-- The index takes one more packet as long as eight bits hold it. -/
theorem Batch.Holds.add (h : b.Holds setup packet ms) (hroom : ms.length < setup.batchSize)
    (hsmall : ms.length < 255) (m : Nat) :
    (b.add (m % setup.ringBufferSize) (tsPacketGetPayloadOffset (packet m))).Holds setup packet
      (ms ++ [m]) := by
  have hidx : (b.idx + 1) % 256 = b.idx + 1 := Nat.mod_eq_of_lt (by rw [h.idx]; omega)
  have hentries : b.idx < b.entries.length := by rw [h.entries_length, h.idx]; omega
  have hscnt : b.idx < b.scntField.length := by rw [h.scntField_length, h.idx]; omega
  refine ⟨?_, ?_, ?_, ?_, ?_⟩ <;> simp only [Batch.add, hidx]
  · rw [List.length_set, h.entries_length]
  · rw [List.length_set, h.scntField_length]
  · rw [h.idx, List.length_append, List.length_singleton]
  · rw [take_set_succ hentries, h.entries, List.map_append]
    rfl
  · rw [take_set_succ hscnt, h.scntField, List.map_append]
    rfl

/-- With the 256th packet the index is zero, and the batch holds nothing more. -/
theorem Batch.not_holds_add (hidx : b.idx = 255) (slot offset m : Nat) :
    ¬ (b.add slot offset).Holds setup packet (ms ++ [m]) := by
  intro h
  have hzero := h.idx
  simp [Batch.add, hidx] at hzero

theorem Batch.Holds.close (h : b.Holds setup packet ms) : b.close.Holds setup packet ms := by
  refine ⟨?_, h.scntField_length, h.idx, ?_, h.scntField⟩ <;> simp only [Batch.close]
  · rw [List.length_set, h.entries_length]
  · rw [List.take_set_of_le (Nat.le_refl _), h.entries]

theorem Batch.Holds.closed (h : b.Holds setup packet ms) (hroom : ms.length ≤ setup.batchSize) :
    b.close.Closed := by
  have hidx : b.idx < b.entries.length := by rw [h.entries_length, h.idx]; omega
  rw [Batch.Closed, Batch.close, List.getElem?_set_self hidx]

theorem Batch.Holds.reset (h : b.Holds setup packet ms) :
    Batch.Holds setup packet { b with idx := 0 } [] :=
  ⟨h.entries_length, h.scntField_length, rfl, rfl, rfl⟩

theorem reduceOption_map_some {α β : Type} (f : α → β) (xs : List α) :
    (xs.map fun a => some (f a)).reduceOption = xs.map f := by
  induction xs with
  | nil => rfl
  | cons a xs ih => rw [List.map_cons, List.reduceOption_cons_of_some, ih, List.map_cons]

/-- dvbcsa sees the packets of a closed batch, and no more. -/
theorem Batch.Holds.untilNull (h : b.Holds setup packet ms) (hclosed : b.Closed) :
    b.untilNull = ms.map (entryOf setup packet) := by
  have hidx : b.idx < b.entries.length := (List.getElem?_eq_some_iff.mp hclosed).1
  have hsplit : b.entries = b.entries.take b.idx ++ none :: b.entries.drop (b.idx + 1) := by
    rw [← (List.getElem?_eq_some_iff.mp hclosed).2, List.cons_getElem_drop_succ,
      List.take_append_drop]
  have htakeWhile : b.entries.takeWhile Option.isSome = b.entries.take b.idx := by
    rw [hsplit, List.takeWhile_append_of_pos, List.takeWhile_cons_of_neg (by simp),
      List.append_nil, ← hsplit]
    rw [h.entries]
    simp
  rw [Batch.untilNull, htakeWhile, h.entries]
  exact reduceOption_map_some (entryOf setup packet) ms

/-- A flush treats each packet of the batch once, and no other one. -/
theorem decryptBatch_spec (h : b.Holds setup packet ms) (hclosed : b.Closed)
    (hnodup : (ms.map (· % setup.ringBufferSize)).Nodup) (key : ControlWord) (data : Nat → Slot) :
    (∀ m ∈ ms, decryptBatch setup key b data (m % setup.ringBufferSize) =
      ((data (m % setup.ringBufferSize)).decrypt setup key (entryOf setup packet m)).clear) ∧
    ∀ i, i ∉ ms.map (· % setup.ringBufferSize) → decryptBatch setup key b data i = data i := by
  rw [decryptBatch]
  split
  case isTrue hzero =>
    have hnil : ms = [] := List.length_eq_zero_iff.mp (h.idx ▸ hzero)
    simp [hnil]
  case isFalse =>
    have hslots : (ms.map (entryOf setup packet)).map BatchEntry.slot =
        ms.map (· % setup.ringBufferSize) := by
      rw [List.map_map]
      rfl
    rw [h.untilNull hclosed, h.scntField]
    constructor
    · intro m hm
      have hdecrypt : updateAll BatchEntry.slot (Slot.decrypt setup key) data
          (ms.map (entryOf setup packet)) (m % setup.ringBufferSize) =
            (data (m % setup.ringBufferSize)).decrypt setup key (entryOf setup packet m) :=
        updateAll_of_mem (by rwa [hslots]) (List.mem_map_of_mem hm)
      rw [← hdecrypt]
      exact @updateAll_of_mem _ _ _ id (fun _ => Slot.clear) _ (by rwa [List.map_id]) _
        (List.mem_map_of_mem hm)
    · intro i hi
      exact (updateAll_of_notMem (by rwa [List.map_id])).trans
        (updateAll_of_notMem (by rwa [hslots]))

end batch

/-- A packet with its payload decrypted and its scrambling control cleared. -/
def descrambled (setup : Setup) (key : ControlWord) (tsPacket : List UInt8) : List UInt8 :=
  let bytes := tsPacket.take (tsPacketGetPayloadOffset tsPacket) ++
    setup.decrypt key (tsPacket.drop (tsPacketGetPayloadOffset tsPacket))
  bytes.set 3 (byteAt bytes 3 &&& 0x3f)

/-- Packet `m` as it was pushed. -/
structure Untouched (packet : Nat → List UInt8) (m : Nat) (slot : Slot) : Prop where
  serial : slot.serial = m
  bytes : slot.bytes = packet m
  decryptions : slot.decryptions = 0

/-- Packet `m` as it may be sent: decrypted once and marked as clear if it was put in a batch, else
as it was pushed. -/
structure Finished (setup : Setup) (packet : Nat → List UInt8) (batched : List Nat) (m : Nat)
    (slot : Slot) : Prop where
  clear : m ∉ batched → Untouched packet m slot
  serial : slot.serial = m
  decrypted : m ∈ batched →
    slot.decryptions = 1 ∧ transportScramblingControl slot.bytes = 0 ∧
      ∃ key, slot.bytes = descrambled setup key (packet m)

/-- The packets behind the last flush that are scrambled with one parity. -/
def Flow.scrambledSince (flow : Flow) (p : Parity) : List Nat :=
  (List.range' flow.released (flow.taken - flow.released)).filter
    fun m => scrambledParity (flow.packet m) = some p

/-- The thread fills its batches. -/
def DecsaAt.filling : DecsaAt → Prop
  | .polling | .ready => True
  | _ => False

/-- The batches are full and closed. -/
def DecsaAt.flushing : DecsaAt → Prop
  | .loading _ | .decrypting _ => True
  | _ => False

/-- What the indices, the batches, the packets and the keys say about one another. -/
structure Consistent (setup : Setup) (s : State) : Prop where
  writeIdx : s.ring.writeIdx =
    (s.ring.readDecsaIdx + s.ring.toDescramble) % setup.ringBufferSize
  readDecsaIdx : s.ring.readDecsaIdx =
    (s.ring.readSendIdx + s.ring.toSend + s.decsa.scrambled + s.decsa.nscrambled) %
      setup.ringBufferSize
  /-- the arrays have `batch_size+1` entries -/
  indexed : ∀ p, (s.decsa.batch p).idx < setup.batchSize + 1
  holds : ∀ p, (s.decsa.batch p).Holds setup s.flow.packet (s.log.added p)
  /-- all the packets of a parity are put in once there is a key for it -/
  added : s.decsa.stage.filling → ∀ p, s.log.added p =
    if s.decsa.caIdx ≠ 0 ∧ s.decsa.gotFirstKey p then s.flow.scrambledSince p else []
  sent : ∀ m slot, s.flow.sent[m]? = some slot → Finished setup s.flow.packet s.log.batched m slot
  sendable : ∀ m, s.flow.sent.length ≤ m → m < s.flow.released →
    Finished setup s.flow.packet s.log.batched m (s.ring.data (m % setup.ringBufferSize))
  keys : ∀ load ∈ s.log.loads, load.2 = 0

/-- A packet is not the 256th one of a batch. -/
def KeepsIndex (s : State) : Event → Prop
  | .decsathread =>
    s.decsa.stage = .ready → ∀ p, s.adds = some p → (s.decsa.batch p).idx < 255
  | _ => True

/-- The packets of a batch that is not decrypted yet. -/
def pending (stage : DecsaAt) (added : Parity → List Nat) : Parity → List Nat
  | .even => if stage = .decrypting .odd then [] else added .even
  | .odd => added .odd

/-- What holds between any two steps. -/
structure BatchInvariant (setup : Setup) (s : State) : Prop where
  counts : Counts setup s
  lost : s.flow.lost = []
  counted : s.decsa.scrambled ≤ setup.batchSize ∧ s.decsa.nscrambled ≤ setup.batchSize
  filling : s.decsa.stage.filling →
    s.decsa.scrambled < setup.batchSize ∧ s.decsa.nscrambled < setup.batchSize
  added_le : ∀ p, (s.log.added p).length ≤ s.decsa.scrambled
  holds : ∀ p, (s.decsa.batch p).Holds setup s.flow.packet (s.log.added p)
  closed : s.decsa.stage.flushing → ∀ p, (s.decsa.batch p).Closed
  released : s.decsa.stage = .releasing → ∀ p, s.log.added p = []
  added : s.decsa.stage.filling → ∀ p, s.log.added p =
    if s.decsa.caIdx ≠ 0 ∧ s.decsa.gotFirstKey p then s.flow.scrambledSince p else []
  firstKey : ∀ p, s.log.added p ≠ [] → s.decsa.gotFirstKey p = true
  member : ∀ p, ∀ m ∈ s.log.added p, s.flow.released ≤ m ∧ m < s.flow.taken ∧
    m ∈ s.log.batched ∧ scrambledParity (s.flow.packet m) = some p
  nodup : ∀ p, (s.log.added p).Nodup
  batched : ∀ m ∈ s.log.batched, m < s.flow.taken
  sent : ∀ m slot, s.flow.sent[m]? = some slot → Finished setup s.flow.packet s.log.batched m slot
  inRing : ∀ m, s.flow.sent.length ≤ m → m < s.flow.pushed.length →
    (∀ p, m ∉ pending s.decsa.stage s.log.added p) →
    Finished setup s.flow.packet s.log.batched m (s.ring.data (m % setup.ringBufferSize))
  waiting : ∀ p, ∀ m ∈ pending s.decsa.stage s.log.added p,
    Untouched s.flow.packet m (s.ring.data (m % setup.ringBufferSize))
  keys : ∀ load ∈ s.log.loads, load.2 = 0

section invariant

variable {setup : Setup} {s s' : State}

theorem mem_of_mem_pending {stage : DecsaAt} {added : Parity → List Nat} {p : Parity} {m : Nat}
    (h : m ∈ pending stage added p) : m ∈ added p := by
  cases p with
  | even =>
    rw [pending] at h
    split at h
    · cases h
    · exact h
  | odd => exact h

@[simp] theorem pending_nil (stage : DecsaAt) (p : Parity) :
    pending stage (fun _ => []) p = [] := by
  cases p <;> simp [pending]

/-- The public statement, from the invariant. -/
theorem BatchInvariant.consistent (h : BatchInvariant setup s) : Consistent setup s := by
  have hcounts := h.counts
  have hexponent : setup.exponent ≤ 32 := by
    have := setup.exponent_le
    omega
  refine ⟨?_, ?_, ?_, h.holds, h.added, h.sent, ?_, h.keys⟩
  · rw [hcounts.writeIdx, hcounts.readDecsaIdx, hcounts.toDescramble]
    exact (index_add_counter hexponent hcounts.taken_le).symm
  · have hsent := index_add_counter hexponent hcounts.sent_le
    rw [hcounts.readDecsaIdx, hcounts.readSendIdx, hcounts.toSend, hcounts.taken_eq, Nat.add_assoc,
      ← Nat.mod_add_mod s.flow.released, ← Nat.mod_add_mod (_ + _), Setup.ringBufferSize, hsent]
  · intro p
    rw [(h.holds p).idx]
    have := h.added_le p
    have := h.counted.1
    omega
  · intro m hsent hreleased
    have htaken := hcounts.taken_eq
    have hpushed := hcounts.taken_le
    refine h.inRing m hsent (by omega) fun p hpending => ?_
    have := (h.member p m (mem_of_mem_pending hpending)).1
    omega

theorem Initial.batchInvariant (h : Initial setup s) : BatchInvariant setup s := by
  have hflow := h.flow
  have hlog := h.log
  have hpos := setup.batchSize_pos
  constructor
  case counts => exact h.counts
  case holds =>
    intro p
    rw [hlog]
    exact ⟨h.entries p, h.scntField p, h.idx p, by simp [h.idx p], by simp [h.idx p]⟩
  all_goals
    simp [h.stage, h.scrambled, h.nscrambled, hflow, hlog, hpos, DecsaAt.flushing,
      Flow.scrambledSince]

theorem Untouched.congr {packet packet' : Nat → List UInt8} {m : Nat} {slot : Slot}
    (h : Untouched packet m slot) (hpacket : packet' m = packet m) : Untouched packet' m slot :=
  ⟨h.serial, hpacket ▸ h.bytes, h.decryptions⟩

/-- What is said of a packet that went through the ring stays true. -/
theorem Finished.congr {packet packet' : Nat → List UInt8} {batched batched' : List Nat} {m : Nat}
    {slot : Slot} (h : Finished setup packet batched m slot) (hpacket : packet' m = packet m)
    (hbatched : m ∈ batched' ↔ m ∈ batched) : Finished setup packet' batched' m slot := by
  refine ⟨fun hclear => (h.clear (hbatched.not.mp hclear)).congr hpacket, h.serial, ?_⟩
  rw [hbatched, hpacket]
  exact h.decrypted

theorem Untouched.finished {packet : Nat → List UInt8} {batched : List Nat} {m : Nat} {slot : Slot}
    (h : Untouched packet m slot) (hbatched : m ∉ batched) :
    Finished setup packet batched m slot :=
  ⟨fun _ => h, h.serial, fun hmem => absurd hmem hbatched⟩

theorem packet_push (s : State) (tsPacket : Packet) {m : Nat} (h : m < s.flow.pushed.length) :
    (s.push setup tsPacket).flow.packet m = s.flow.packet m := by
  simp only [Flow.packet, State.push]
  rw [List.getElem?_append_left h]

theorem packet_push_self (s : State) (tsPacket : Packet) :
    (s.push setup tsPacket).flow.packet s.flow.pushed.length = tsPacket.cells := by
  simp [Flow.packet, State.push]

theorem BatchInvariant.push (h : BatchInvariant setup s) (tsPacket : Packet)
    (hroom : s.occupancy < setup.ringBufferSize) :
    BatchInvariant setup (s.push setup tsPacket) := by
  have hcounts := h.counts
  have hoccupancy := hcounts.occupancy h.lost
  have hsent := hcounts.sent_le
  have htaken := hcounts.taken_eq
  have hpushed := hcounts.taken_le
  have hpacket (m : Nat) (hm : m < s.flow.taken) :
      (s.push setup tsPacket).flow.packet m = s.flow.packet m :=
    packet_push s tsPacket (by omega)
  -- the cell of the new packet is none of those in use
  have hcell (m : Nat) (hge : s.flow.sent.length ≤ m) (hlt : m < s.flow.pushed.length) :
      (s.push setup tsPacket).ring.data (m % setup.ringBufferSize) =
        s.ring.data (m % setup.ringBufferSize) := by
    refine Function.update_of_ne (fun heq => ?_) _ _
    rw [hcounts.writeIdx] at heq
    have := eq_of_mod_eq heq (by omega) (by omega)
    omega
  refine ⟨hcounts.push tsPacket, (push_lost tsPacket).mpr ⟨h.lost, by omega⟩, h.counted, h.filling,
    h.added_le, fun p => ?_, h.closed, h.released, fun hfilling p => ?_, h.firstKey,
    fun p m hm => ?_, h.nodup, h.batched, fun m slot hslot => ?_, fun m hge hlt hpending => ?_,
    fun p m hm => ?_, h.keys⟩
  · exact (h.holds p).congr fun m hm => hpacket m (h.member p m hm).2.1
  · have hsince : (s.push setup tsPacket).flow.scrambledSince p = s.flow.scrambledSince p := by
      refine List.filter_congr fun m hm => ?_
      have hrange : m ∈ List.range' s.flow.released (s.flow.taken - s.flow.released) := hm
      rw [hpacket m (by have := List.mem_range'_1.mp hrange; omega)]
    rw [hsince]
    exact h.added hfilling p
  · have hmember := h.member p m hm
    rw [hpacket m hmember.2.1]
    exact hmember
  · have hlt : m < s.flow.sent.length := (List.getElem?_eq_some_iff.mp hslot).1
    exact (h.sent m slot hslot).congr (hpacket m (by omega)) Iff.rfl
  · by_cases heq : m = s.flow.pushed.length
    · subst heq
      have hself : (s.push setup tsPacket).ring.data
          (s.flow.pushed.length % setup.ringBufferSize) =
            ⟨tsPacket.cells, s.flow.pushed.length, 0⟩ := by
        rw [← hcounts.writeIdx]
        exact Function.update_self _ _ _
      rw [hself]
      refine Untouched.finished ⟨rfl, (packet_push_self s tsPacket).symm, rfl⟩ fun hbatched => ?_
      have := h.batched _ hbatched
      omega
    · have hlt : m < s.flow.pushed.length := by
        simp only [State.push, List.length_append, List.length_singleton] at hlt
        omega
      rw [hcell m hge hlt]
      exact (h.inRing m hge hlt hpending).congr (packet_push s tsPacket hlt) Iff.rfl
  · have hmember := h.member p m (mem_of_mem_pending hm)
    rw [hcell m (by omega) (by omega)]
    exact (h.waiting p m hm).congr (hpacket m hmember.2.1)

theorem BatchInvariant.sendthread (h : BatchInvariant setup s) :
    BatchInvariant setup (s.sendthread setup) := by
  have hcounts := h.counts.sendthread
  rw [State.sendthread] at hcounts ⊢
  split at hcounts
  case h_1 =>
    split at hcounts
    case isTrue hzero =>
      rw [if_pos hzero]
      exact h
    case isFalse hne =>
      rw [if_neg hne]
      exact { h with counts := hcounts }
  case h_2 hready =>
    have hlt := h.counts.sending hready
    have htaken := h.counts.taken_eq
    have hpushed := h.counts.taken_le
    refine { h with counts := hcounts, sent := fun m slot hslot => ?_, inRing := fun m hge => ?_ }
    · by_cases hm : m < s.flow.sent.length
      · exact h.sent m slot (by rwa [List.getElem?_append_left hm] at hslot)
      · rw [List.getElem?_append_right (Nat.le_of_not_lt hm), List.getElem?_singleton] at hslot
        obtain ⟨hzero, ⟨⟩⟩ := Option.ite_none_right_eq_some.mp hslot
        obtain rfl : m = s.flow.sent.length := by omega
        rw [h.counts.readSendIdx]
        refine h.inRing _ (Nat.le_refl _) (by omega) fun p hpending => ?_
        have := (h.member p _ (mem_of_mem_pending hpending)).1
        omega
    · refine h.inRing m ?_
      simp only [List.length_append, List.length_singleton] at hge
      omega

/-- What taking a packet does to the batches. -/
structure Takes (setup : Setup) (s s' : State) : Prop where
  keys : s'.decsa.caIdx = s.decsa.caIdx ∧ s'.decsa.gotFirstKey = s.decsa.gotFirstKey ∧
    s'.keys = s.keys
  log : s'.log = s.addToBatch.log
  scrambled : s'.decsa.scrambled =
    s.decsa.scrambled + (scrambledParity s.current).isSome.toNat
  nscrambled : s'.decsa.nscrambled =
    s.decsa.nscrambled + (scrambledParity s.current).isNone.toNat
  batch : (s'.decsa.stage = .polling ∧ s'.decsa.batch = s.filled ∧
      s'.decsa.scrambled ≠ setup.batchSize ∧ s'.decsa.nscrambled ≠ setup.batchSize) ∨
    (s'.decsa.stage = .loading .even ∧ (s'.decsa.batch = fun p => (s.filled p).close) ∧
      (s'.decsa.scrambled = setup.batchSize ∨ s'.decsa.nscrambled = setup.batchSize))

theorem take_takes (setup : Setup) (s : State) : Takes setup s (s.take setup) := by
  rw [State.take, State.closeBatches]
  split
  case isTrue hfull => exact ⟨⟨rfl, rfl, rfl⟩, rfl, rfl, rfl, .inr ⟨rfl, rfl, hfull⟩⟩
  case isFalse hroom =>
    exact ⟨⟨rfl, rfl, rfl⟩, rfl, rfl, rfl, .inl ⟨rfl, rfl, fun h => hroom (.inl h),
      fun h => hroom (.inr h)⟩⟩

theorem adds_eq_some {p : Parity} : s.adds = some p ↔
    scrambledParity s.current = some p ∧ s.decsa.caIdx ≠ 0 ∧ s.decsa.gotFirstKey p = true := by
  simp [State.adds, Option.filter_eq_some_iff]

/-- The packet that the descrambling thread looks at is as it was pushed. -/
theorem BatchInvariant.current (h : BatchInvariant setup s)
    (hlt : s.flow.taken < s.flow.pushed.length) :
    Untouched s.flow.packet s.flow.taken (s.ring.data s.ring.readDecsaIdx) := by
  have hsent := h.counts.sent_le
  have htaken := h.counts.taken_eq
  rw [h.counts.readDecsaIdx]
  refine (h.inRing s.flow.taken (by omega) hlt fun p hpending => ?_).clear fun hbatched => ?_
  · have := (h.member p _ (mem_of_mem_pending hpending)).2.1
    omega
  · have := h.batched _ hbatched
    omega

theorem pending_eq {stage : DecsaAt} (h : stage ≠ .decrypting .odd) (added : Parity → List Nat) :
    pending stage added = added := by
  funext p
  cases p <;> simp [pending, h]

theorem mem_added_take {p : Parity} {m : Nat} : m ∈ s.addToBatch.log.added p ↔
    m ∈ s.log.added p ∨ (s.adds = some p ∧ m = s.flow.taken) := by
  simp only [State.addToBatch]
  split
  case isTrue hadds => simp [hadds]
  case isFalse hadds => simp [hadds]

theorem mem_batched_take {m : Nat} : m ∈ s.addToBatch.log.batched ↔
    m ∈ s.log.batched ∨ (s.adds ≠ none ∧ m = s.flow.taken) := by
  simp only [State.addToBatch]
  split
  case isTrue hadds => simp [hadds]
  case isFalse hadds => simp [hadds]

/-- The batches with the current packet put in. -/
theorem BatchInvariant.filled_holds (h : BatchInvariant setup s) (hready : s.decsa.stage = .ready)
    (hkeeps : ∀ p, s.adds = some p → (s.decsa.batch p).idx < 255) (p : Parity) :
    (s.filled p).Holds setup s.flow.packet (s.addToBatch.log.added p) := by
  simp only [State.filled, State.addToBatch]
  split
  case isTrue hadds =>
    have hbytes : s.current = s.flow.packet s.flow.taken :=
      (h.current (h.counts.ready hready)).bytes
    have hle := h.added_le p
    have hfilling := h.filling (by rw [hready]; trivial)
    have hsmall := hkeeps p hadds
    rw [(h.holds p).idx] at hsmall
    rw [hbytes, h.counts.readDecsaIdx]
    exact (h.holds p).add (by omega) hsmall s.flow.taken
  case isFalse => exact h.holds p

/-- What goes into a batch counts as scrambled. -/
theorem BatchInvariant.added_take_le (h : BatchInvariant setup s) (p : Parity) :
    (s.addToBatch.log.added p).length ≤
      s.decsa.scrambled + (scrambledParity s.current).isSome.toNat := by
  have hle := h.added_le p
  simp only [State.addToBatch]
  split
  case isTrue hadds =>
    simp [(adds_eq_some.mp hadds).1, hle]
  case isFalse => omega

/-- The packets behind the last flush, with the one taken now. -/
theorem scrambledSince_take (h : Counts setup s) (p : Parity) :
    Flow.scrambledSince { s.flow with taken := s.flow.taken + 1 } p =
      s.flow.scrambledSince p ++
        if scrambledParity (s.flow.packet s.flow.taken) = some p then [s.flow.taken] else [] := by
  have htaken := h.taken_eq
  have hrange : List.range' s.flow.released (s.flow.taken + 1 - s.flow.released) =
      List.range' s.flow.released (s.flow.taken - s.flow.released) ++ [s.flow.taken] := by
    rw [show s.flow.taken + 1 - s.flow.released = s.flow.taken - s.flow.released + 1 by omega,
      List.range'_concat]
    congr 2
    omega
  change (List.range' _ (s.flow.taken + 1 - s.flow.released)).filter _ = _
  rw [hrange, List.filter_append]
  congr 1
  rw [List.filter_singleton, Bool.cond_decide]
  rfl

/-- The batches hold the scrambled packets behind the last flush, with the one taken now. -/
theorem BatchInvariant.added_take (h : BatchInvariant setup s) (hready : s.decsa.stage = .ready)
    (p : Parity) : s.addToBatch.log.added p =
      if s.decsa.caIdx ≠ 0 ∧ s.decsa.gotFirstKey p then
        Flow.scrambledSince { s.flow with taken := s.flow.taken + 1 } p
      else [] := by
  have hbytes : s.current = s.flow.packet s.flow.taken :=
    (h.current (h.counts.ready hready)).bytes
  have hold := h.added (by rw [hready]; trivial) p
  rw [scrambledSince_take h.counts, ← hbytes]
  simp only [State.addToBatch, adds_eq_some, hold]
  by_cases hkey : s.decsa.caIdx ≠ 0 ∧ s.decsa.gotFirstKey p = true
  · simp only [hkey, and_true, ne_eq, not_false_eq_true]
    split <;> simp
  · have hnone : ¬ (scrambledParity s.current = some p ∧ s.decsa.caIdx ≠ 0 ∧
        s.decsa.gotFirstKey p = true) := fun hall => hkey hall.2
    rw [if_neg hnone, if_neg hkey, if_neg hkey]

theorem BatchInvariant.member_take (h : BatchInvariant setup s) (hready : s.decsa.stage = .ready)
    {p : Parity} {m : Nat} (hm : m ∈ s.addToBatch.log.added p) :
    s.flow.released ≤ m ∧ m < s.flow.taken + 1 ∧ m ∈ s.addToBatch.log.batched ∧
      scrambledParity (s.flow.packet m) = some p := by
  have htaken := h.counts.taken_eq
  have hbytes : s.current = s.flow.packet s.flow.taken :=
    (h.current (h.counts.ready hready)).bytes
  rw [mem_batched_take]
  rcases mem_added_take.mp hm with hm | ⟨hadds, rfl⟩
  · obtain ⟨hge, hlt, hbatched, hparity⟩ := h.member p m hm
    exact ⟨hge, Nat.lt_succ_of_lt hlt, .inl hbatched, hparity⟩
  · rw [← hbytes]
    exact ⟨by omega, Nat.lt_succ_self _, .inr ⟨by simp [hadds], rfl⟩, (adds_eq_some.mp hadds).1⟩

theorem BatchInvariant.nodup_take (h : BatchInvariant setup s) (p : Parity) :
    (s.addToBatch.log.added p).Nodup := by
  simp only [State.addToBatch]
  split
  case isTrue =>
    refine List.nodup_append.mpr ⟨h.nodup p, List.nodup_singleton _, fun a ha b hb hab => ?_⟩
    have := (h.member p a ha).2.1
    rw [List.mem_singleton] at hb
    omega
  case isFalse => exact h.nodup p

/-- What is in no batch is as it was, the packet taken now too. -/
theorem BatchInvariant.inRing_take (h : BatchInvariant setup s) (hready : s.decsa.stage = .ready)
    {m : Nat} (hge : s.flow.sent.length ≤ m) (hm : m < s.flow.pushed.length)
    (hnot : ∀ p, m ∉ s.addToBatch.log.added p) :
    Finished setup s.flow.packet s.addToBatch.log.batched m
      (s.ring.data (m % setup.ringBufferSize)) := by
  have hpending : pending s.decsa.stage s.log.added = s.log.added :=
    pending_eq (by simp [hready]) _
  have hbatched : m ∈ s.addToBatch.log.batched ↔ m ∈ s.log.batched := by
    rw [mem_batched_take]
    refine or_iff_left fun ⟨hadds, htaken⟩ => ?_
    obtain ⟨p, hp⟩ := Option.ne_none_iff_exists'.mp hadds
    exact hnot p (mem_added_take.mpr (.inr ⟨hp, htaken⟩))
  refine (h.inRing m hge hm fun p hp => hnot p ?_).congr rfl hbatched
  rw [hpending] at hp
  exact mem_added_take.mpr (.inl hp)

theorem BatchInvariant.waiting_take (h : BatchInvariant setup s) (hready : s.decsa.stage = .ready)
    {p : Parity} {m : Nat} (hm : m ∈ s.addToBatch.log.added p) :
    Untouched s.flow.packet m (s.ring.data (m % setup.ringBufferSize)) := by
  have hpending : pending s.decsa.stage s.log.added = s.log.added :=
    pending_eq (by simp [hready]) _
  rcases mem_added_take.mp hm with hm | ⟨-, rfl⟩
  · rw [← hpending] at hm
    exact h.waiting p m hm
  · rw [← h.counts.readDecsaIdx]
    exact h.current (h.counts.ready hready)

theorem BatchInvariant.take (h : BatchInvariant setup s) (hready : s.decsa.stage = .ready)
    (hkeeps : ∀ p, s.adds = some p → (s.decsa.batch p).idx < 255) :
    BatchInvariant setup (s.take setup) := by
  have hfilled := h.filled_holds hready hkeeps
  have hadded := h.added_take_le
  have hbelow := h.filling (by rw [hready]; trivial)
  have hsent := h.counts.sent_le
  have htakenEq := h.counts.taken_eq
  obtain ⟨⟨hcaIdx, hgot, -⟩, hlog, hscrambled, hnscrambled, hbatch⟩ := take_takes setup s
  have hcounted : (s.take setup).decsa.scrambled ≤ setup.batchSize ∧
      (s.take setup).decsa.nscrambled ≤ setup.batchSize := by
    rw [hscrambled, hnscrambled]
    cases scrambledParity s.current <;> simp <;> omega
  have hstage : (s.take setup).decsa.stage = .polling ∨
      (s.take setup).decsa.stage = .loading .even := hbatch.imp And.left And.left
  have hpending : pending (s.take setup).decsa.stage (s.take setup).log.added =
      s.addToBatch.log.added := by
    rw [hlog]
    exact pending_eq (by rcases hstage with hstage | hstage <;> simp [hstage]) _
  have hdata : (s.take setup).ring.data = s.ring.data := by rw [take_ring]
  exact
    { counts := h.counts.take hready
      lost := by
        rw [take_flow]
        exact h.lost
      counted := hcounted
      filling := fun hfill => by
        rcases hbatch with ⟨-, -, hne, hne'⟩ | ⟨hloading, -⟩
        · omega
        · rw [hloading] at hfill
          cases hfill
      added_le := by
        rw [hlog, hscrambled]
        exact hadded
      holds := fun p => by
        rw [take_flow, hlog]
        rcases hbatch with ⟨-, hbatch, -⟩ | ⟨-, hbatch, -⟩ <;> rw [hbatch]
        · exact hfilled p
        · exact (hfilled p).close
      closed := fun hflush p => by
        rcases hbatch with ⟨hpolling, -⟩ | ⟨-, hbatch, -⟩
        · rw [hpolling] at hflush
          cases hflush
        · rw [hbatch]
          refine (hfilled p).closed ?_
          have hle := hadded p
          rw [← hscrambled] at hle
          omega
      released := fun hreleasing => by
        rcases hstage with hstage | hstage <;> rw [hstage] at hreleasing <;> cases hreleasing
      added := fun _ p => by
        rw [hlog, hcaIdx, hgot, take_flow]
        exact h.added_take hready p
      firstKey := fun p hne => by
        rw [hgot]
        rw [hlog] at hne
        obtain ⟨m, hm⟩ := List.exists_mem_of_ne_nil _ hne
        rcases mem_added_take.mp hm with hm | ⟨hadds, -⟩
        · exact h.firstKey p (List.ne_nil_of_mem hm)
        · exact (adds_eq_some.mp hadds).2.2
      member := fun p m hm => by
        rw [hlog] at hm
        rw [take_flow, hlog]
        exact h.member_take hready hm
      nodup := fun p => by
        rw [hlog]
        exact h.nodup_take p
      batched := fun m hm => by
        rw [hlog] at hm
        rw [take_flow]
        rcases mem_batched_take.mp hm with hm | ⟨-, rfl⟩
        · exact Nat.lt_succ_of_lt (h.batched m hm)
        · exact Nat.lt_succ_self _
      sent := by
        rw [take_flow, hlog]
        intro m slot hslot
        have hm : m < s.flow.sent.length := (List.getElem?_eq_some_iff.mp hslot).1
        refine (h.sent m slot hslot).congr rfl ?_
        rw [mem_batched_take]
        exact or_iff_left fun htaken => by omega
      inRing := by
        rw [hpending, hdata, take_flow, hlog]
        exact fun m hge hm hnot => h.inRing_take hready hge hm hnot
      waiting := by
        rw [hpending, hdata, take_flow]
        exact fun p m hm => h.waiting_take hready hm
      keys := by
        rw [hlog]
        exact h.keys }

/-- A step of the flush that leaves the ring as it is. -/
theorem BatchInvariant.loadKey (h : BatchInvariant setup s) {p : Parity} {stage : DecsaAt}
    (hstage : s.decsa.stage = .loading p)
    (hnext : stage = .loading .odd ∨ stage = .decrypting .even) :
    BatchInvariant setup ((s.loadKey p).goTo stage) := by
  have hcounts : Counts setup ((s.loadKey p).goTo stage) :=
    h.counts.loadKey p (by rcases hnext with rfl | rfl <;> simp)
  have hclosed := h.closed (by rw [hstage]; trivial)
  have hfilling : ¬ stage.filling := by rcases hnext with rfl | rfl <;> exact id
  have hpending : pending stage s.log.added = pending s.decsa.stage s.log.added := by
    rw [pending_eq (by rcases hnext with rfl | rfl <;> simp), pending_eq (by simp [hstage])]
  -- where a key is loaded, its batch is empty
  have hempty (hcond : ((s.decsa.batch p.other).idx ≠ 0 ∧ (s.decsa.batch p).idx = 0) ∨
      s.decsa.gotFirstKey p = false) : s.log.added p = [] := by
    rcases hcond with ⟨-, hidx⟩ | hfirst
    · exact List.length_eq_zero_iff.mp ((h.holds p).idx ▸ hidx)
    · by_contra hne
      rw [h.firstKey p hne] at hfirst
      cases hfirst
  have hwaiting : ∀ q, ∀ m ∈ pending stage s.log.added q,
      Untouched s.flow.packet m (s.ring.data (m % setup.ringBufferSize)) := by
    rw [hpending]
    exact h.waiting
  have hinRing : ∀ m, s.flow.sent.length ≤ m → m < s.flow.pushed.length →
      (∀ q, m ∉ pending stage s.log.added q) → Finished setup s.flow.packet s.log.batched m
        (s.ring.data (m % setup.ringBufferSize)) := by
    rw [hpending]
    exact h.inRing
  have hreleasing : stage ≠ .releasing := by rcases hnext with rfl | rfl <;> simp
  rw [State.loadKey] at hcounts ⊢
  split at hcounts
  case isFalse hcond =>
    rw [if_neg hcond]
    exact ⟨hcounts, h.lost, h.counted, fun hfill => absurd hfill hfilling, h.added_le, h.holds,
      fun _ => hclosed, fun hrel => absurd hrel hreleasing, fun hfill => absurd hfill hfilling,
      h.firstKey, h.member, h.nodup, h.batched, h.sent, hinRing, hwaiting, h.keys⟩
  case isTrue hcond =>
    rw [if_pos hcond]
    have hnone := hempty (hcond.1.imp_right (by simp))
    refine ⟨hcounts, h.lost, h.counted, fun hfill => absurd hfill hfilling, h.added_le, h.holds,
      fun _ => hclosed, fun hrel => absurd hrel hreleasing, fun hfill => absurd hfill hfilling,
      fun q hne => ?_, h.member, h.nodup, h.batched, h.sent, hinRing, hwaiting,
      fun load hload => ?_⟩
    · change Function.update s.decsa.gotFirstKey p true q = true
      by_cases hq : q = p
      · rw [hq, Function.update_self]
      · rw [Function.update_of_ne hq]
        exact h.firstKey q hne
    · rcases List.mem_append.mp hload with hload | hload
      · exact h.keys load hload
      · rw [List.mem_singleton.mp hload, hnone]
        rfl

theorem length_packet (s : State) {m : Nat} (h : m < s.flow.pushed.length) :
    (s.flow.packet m).length = tsPacketSize := by
  simp [Flow.packet, List.getElem?_eq_getElem h]

theorem transportScramblingControl_clear {bytes : List UInt8} (h : 3 < bytes.length) (b : UInt8) :
    transportScramblingControl (bytes.set 3 (b &&& 0x3f)) = 0 := by
  have hle : (b &&& 0x3f).toNat ≤ 63 := by
    rw [UInt8.toNat_and]
    exact Nat.and_le_right
  rw [transportScramblingControl, byteAt, List.getD_eq_getElem?_getD, List.getElem?_set_self h]
  exact Nat.div_eq_of_lt (Nat.lt_succ_of_le hle)

/-- What the flush makes of a packet. -/
theorem Untouched.decrypted {packet : Nat → List UInt8} {batched : List Nat} {m : Nat} {slot : Slot}
    (h : Untouched packet m slot) (hlength : (packet m).length = tsPacketSize)
    (hbatched : m ∈ batched) (key : ControlWord) :
    Finished setup packet batched m
      ((slot.decrypt setup key (entryOf setup packet m)).clear) := by
  have hbytes : ((slot.decrypt setup key (entryOf setup packet m)).clear).bytes =
      descrambled setup key (packet m) := by
    have hpayload : ((packet m).drop (tsPacketGetPayloadOffset (packet m))).take
        (tsPacketSize - tsPacketGetPayloadOffset (packet m)) =
          (packet m).drop (tsPacketGetPayloadOffset (packet m)) := by
      rw [← hlength]
      exact List.take_of_length_le (by rw [List.length_drop])
    have hrest : (packet m).drop (tsPacketGetPayloadOffset (packet m) +
        ((packet m).drop (tsPacketGetPayloadOffset (packet m))).length) = [] :=
      List.drop_of_length_le (by rw [List.length_drop]; omega)
    simp only [Slot.clear, Slot.decrypt, descrambled, h.bytes, entryOf, hpayload, splice,
      setup.length_decrypt, hrest, List.append_nil]
  refine ⟨fun hnot => absurd hbatched hnot, h.serial, fun _ => ⟨?_, ?_, key, hbytes⟩⟩
  · simp [Slot.clear, Slot.decrypt, h.decryptions]
  · rw [hbytes, descrambled]
    refine transportScramblingControl_clear ?_ _
    rw [List.length_append, setup.length_decrypt, ← List.length_append, List.take_append_drop,
      hlength]
    decide

/-- Decrypting the batch of one parity finishes its packets and leaves all the others. -/
theorem BatchInvariant.decrypt_data (h : BatchInvariant setup s) (p : Parity)
    (hclosed : (s.decsa.batch p).Closed)
    (hpending : pending s.decsa.stage s.log.added p = s.log.added p) :
    (∀ m ∈ s.log.added p, Finished setup s.flow.packet s.log.batched m
      ((s.decrypt setup p).ring.data (m % setup.ringBufferSize))) ∧
    ∀ m, s.flow.sent.length ≤ m → m < s.flow.pushed.length → m ∉ s.log.added p →
      (s.decrypt setup p).ring.data (m % setup.ringBufferSize) =
        s.ring.data (m % setup.ringBufferSize) := by
  have hcounts := h.counts
  have hsent := hcounts.sent_le
  have htaken := hcounts.taken_eq
  have hpushed := hcounts.taken_le
  have hkept := hcounts.kept h.lost
  have hcells (m k : Nat) (hm : m ∈ s.log.added p) (hge : s.flow.sent.length ≤ k)
      (hlt : k < s.flow.pushed.length)
      (hmod : m % setup.ringBufferSize = k % setup.ringBufferSize) : m = k := by
    obtain ⟨hreleased, hmtaken, -⟩ := h.member p m hm
    exact eq_of_mod_eq hmod (by omega) (by omega)
  have hnodup : ((s.log.added p).map (· % setup.ringBufferSize)).Nodup := by
    refine (h.nodup p).map_on fun m hm k hk hmod => ?_
    obtain ⟨hreleased, hktaken, -⟩ := h.member p k hk
    exact hcells m k hm (by omega) (by omega) hmod
  obtain ⟨hmem, hother⟩ := decryptBatch_spec (h.holds p) hclosed hnodup (s.decsa.key p) s.ring.data
  constructor
  · intro m hm
    obtain ⟨-, hmtaken, hbatched, -⟩ := h.member p m hm
    change Finished _ _ _ m (decryptBatch _ _ _ s.ring.data (m % setup.ringBufferSize))
    rw [hmem m hm]
    exact (h.waiting p m (hpending ▸ hm)).decrypted (length_packet s (by omega)) hbatched _
  · intro m hge hlt hnot
    refine hother _ fun hcell => hnot ?_
    obtain ⟨k, hk, hmod⟩ := List.mem_map.mp hcell
    rwa [← hcells k m hk hge hlt hmod]

theorem BatchInvariant.decryptEven (h : BatchInvariant setup s)
    (hstage : s.decsa.stage = .decrypting .even) :
    BatchInvariant setup ((s.decrypt setup .even).goTo (.decrypting .odd)) := by
  have hclosed := h.closed (by rw [hstage]; trivial)
  have hpending := pending_eq (show s.decsa.stage ≠ .decrypting .odd by simp [hstage]) s.log.added
  obtain ⟨hdone, hkept⟩ := h.decrypt_data .even (hclosed .even) (congrFun hpending .even)
  have hsent := h.counts.sent_le
  have hpushed := h.counts.taken_le
  refine ⟨(h.counts.decrypt .even).congr rfl rfl rfl rfl fun hready => (by cases hready), h.lost,
    h.counted, fun hfill => (by cases hfill), h.added_le, h.holds, fun _ => hclosed,
    fun hreleasing => (by cases hreleasing), fun hfill => (by cases hfill), h.firstKey, h.member,
    h.nodup, h.batched, h.sent, fun m hge hlt hnot => ?_, fun p m hm => ?_, h.keys⟩
  · have hodd : m ∉ s.log.added .odd := hnot .odd
    by_cases heven : m ∈ s.log.added .even
    · exact hdone m heven
    · rw [State.goTo, hkept m hge hlt heven]
      refine h.inRing m hge hlt fun p hm => ?_
      rw [hpending] at hm
      cases p with
      | even => exact heven hm
      | odd => exact hodd hm
  · cases p with
    | even => cases hm
    | odd =>
      have hodd : m ∈ s.log.added .odd := hm
      have hmember := h.member .odd m hodd
      have heven : m ∉ s.log.added .even := fun heven => by
        have := (h.member .even m heven).2.2.2
        rw [hmember.2.2.2] at this
        cases this
      rw [State.goTo, hkept m (by omega) (by omega) heven]
      exact h.waiting .odd m (by rw [hpending]; exact hodd)

theorem BatchInvariant.decryptOdd (h : BatchInvariant setup s)
    (hstage : s.decsa.stage = .decrypting .odd) :
    BatchInvariant setup ((s.decrypt setup .odd).resetBatches.goTo .releasing) := by
  have hclosed := h.closed (by rw [hstage]; trivial)
  have heven : pending s.decsa.stage s.log.added .even = [] := if_pos hstage
  obtain ⟨hdone, hkept⟩ := h.decrypt_data .odd (hclosed .odd) rfl
  refine ⟨(h.counts.decrypt .odd).congr rfl rfl rfl rfl fun hready => (by cases hready), h.lost,
    h.counted, fun hfill => (by cases hfill), fun p => Nat.zero_le _, fun p => (h.holds p).reset,
    fun hflush => (by cases hflush), fun _ _ => rfl, fun hfill => (by cases hfill),
    fun p hne => absurd rfl hne, fun p m hm => (by cases hm), fun p => List.nodup_nil, h.batched,
    h.sent, fun m hge hlt _ => ?_, fun p m hm => ?_, h.keys⟩
  · by_cases hodd : m ∈ s.log.added .odd
    · exact hdone m hodd
    · change Finished _ _ _ m ((s.decrypt setup .odd).ring.data (m % setup.ringBufferSize))
      rw [hkept m hge hlt hodd]
      refine h.inRing m hge hlt fun p hm => ?_
      cases p with
      | even => rw [heven] at hm; cases hm
      | odd => exact hodd hm
  · cases mem_of_mem_pending hm

theorem BatchInvariant.release (h : BatchInvariant setup s) (hstage : s.decsa.stage = .releasing) :
    BatchInvariant setup (s.release.goTo .polling) := by
  have hnone := h.released hstage
  have htaken := h.counts.taken_eq
  have hpending (stage : DecsaAt) (p : Parity) (m : Nat) : m ∉ pending stage s.log.added p := by
    intro hm
    have := mem_of_mem_pending hm
    rw [hnone p] at this
    cases this
  refine ⟨h.counts.release, h.lost, ⟨Nat.zero_le _, Nat.zero_le _⟩,
    fun _ => ⟨setup.batchSize_pos, setup.batchSize_pos⟩, fun p => ?_, h.holds,
    fun hflush => (by cases hflush), fun _ => hnone, fun _ p => ?_, h.firstKey, fun p m hm => ?_,
    h.nodup, h.batched, h.sent, fun m hge hlt _ => h.inRing m hge hlt fun p => hpending _ p m,
    fun p m hm => absurd hm (hpending _ p m), h.keys⟩
  · change (s.log.added p).length ≤ 0
    rw [hnone p]
    exact Nat.le_refl 0
  · have hsince : (s.release.goTo .polling).flow.scrambledSince p = [] := by
      simp [Flow.scrambledSince, State.release, State.goTo, htaken]
    rw [hsince, ite_self]
    exact hnone p
  · rw [show (s.release.goTo .polling).log.added p = s.log.added p from rfl, hnone p] at hm
    cases hm

theorem BatchInvariant.decsathread (h : BatchInvariant setup s)
    (hkeeps : KeepsIndex s .decsathread) : BatchInvariant setup (s.decsathread setup) := by
  rw [State.decsathread]
  split
  case h_1 hpolling =>
    split
    case isTrue => exact h
    case isFalse hne =>
      have hpending : pending s.decsa.stage s.log.added = pending .ready s.log.added := by
        rw [pending_eq (by simp [hpolling]), pending_eq (by simp)]
      have hfilling : s.decsa.stage.filling := by rw [hpolling]; trivial
      have hcounts : Counts setup (s.goTo .ready) := by
        have htoDescramble := h.counts.toDescramble
        rw [htoDescramble] at hne
        exact { h.counts with ready := fun _ => lt_of_counter h.counts.taken_le hne }
      have hinRing := h.inRing
      have hwaiting := h.waiting
      rw [hpending] at hinRing hwaiting
      exact ⟨hcounts, h.lost, h.counted, fun _ => h.filling hfilling, h.added_le, h.holds,
        fun hflush => (by cases hflush), fun hreleasing => (by cases hreleasing),
        fun _ => h.added hfilling, h.firstKey, h.member, h.nodup, h.batched, h.sent, hinRing,
        hwaiting, h.keys⟩
  case h_2 hready => exact h.take hready (hkeeps hready)
  case h_3 hstage => exact h.loadKey hstage (.inl rfl)
  case h_4 hstage => exact h.loadKey hstage (.inr rfl)
  case h_5 hstage => exact h.decryptEven hstage
  case h_6 hstage => exact h.decryptOdd hstage
  case h_7 hstage => exact h.release hstage

theorem BatchInvariant.step {e : Event} (h : BatchInvariant setup s) (hfits : Fits setup s e)
    (hkeeps : KeepsIndex s e) (hstep : step setup s e = some s') : BatchInvariant setup s' := by
  have hcounts := h.counts.step hstep
  cases e with
  | push tsPacket =>
    obtain ⟨-, ⟨⟩⟩ := Option.ite_none_left_eq_some.mp hstep
    exact h.push tsPacket hfits
  | decsathread =>
    cases hstep
    exact h.decsathread hkeeps
  | sendthread =>
    obtain ⟨-, ⟨⟩⟩ := Option.ite_none_left_eq_some.mp hstep
    exact h.sendthread
  | newKey p cw =>
    cases hstep
    exact { h with counts := hcounts }
  | newCaIdx caIdx =>
    cases hstep
    exact { h with counts := hcounts }

theorem batchInvariant_run {past : List Event}
    (hrun : Run (((ringSystem setup).restrict (Fits setup)).restrict KeepsIndex) past s) :
    BatchInvariant setup s := by
  refine hrun.invariant (P := fun _ s => BatchInvariant setup s) ?_ ?_
  · intro s hinitial
    exact Initial.batchInvariant hinitial
  · intro past s e s' h hstep
    exact h.step hstep.2.1 hstep.1 hstep.2.2

/-- The 256th packet of a batch makes the batch look empty. -/
theorem Consistent.keepsIndex {e : Event} (h : BatchInvariant setup s)
    (hstep : step setup s e = some s') (hafter : Consistent setup s') : KeepsIndex s e := by
  cases e with
  | decsathread =>
    intro hready p hadds
    by_contra hidx
    have hle := h.added_le p
    have hlt := (h.filling (by rw [hready]; trivial)).1
    have hidxEq := (h.holds p).idx
    have hbatchSize := setup.batchSize_le
    have hfull : (s.decsa.batch p).idx = 255 := by omega
    cases hstep
    rw [State.decsathread, hready] at hafter
    obtain ⟨-, hlog, -, -, hbatch⟩ := take_takes setup s
    have hzero : ((s.take setup).decsa.batch p).idx = 0 := by
      rcases hbatch with ⟨-, hbatch, -⟩ | ⟨-, hbatch, -⟩ <;>
        simp [hbatch, State.filled, hadds, Batch.add, Batch.close, hfull]
    have hlength := (hafter.holds p).idx
    rw [hzero, hlog] at hlength
    simp [State.addToBatch, hadds] at hlength
  | _ => trivial

/-- As long as no packet is pushed into a full ring, the batches stay consistent in exactly those
runs in which no batch gets 256 packets. -/
theorem ring_consistent_iff (setup : Setup) (past : List Event) (s : State) :
    Run (((ringSystem setup).restrict (Fits setup)).restrict KeepsIndex) past s ↔
      Along ((ringSystem setup).restrict (Fits setup)) (fun _ s => Consistent setup s) past s := by
  refine along_iff_restrict (P := fun _ s => Consistent setup s) ?_ ?_ past s
  · intro s hinitial
    exact (Initial.batchInvariant hinitial).consistent
  · intro past s e s' hrun _ hstep
    have h := batchInvariant_run hrun
    exact ⟨fun hafter => hafter.keepsIndex h hstep.2,
      fun hkeeps => (h.step hstep.1 hkeeps hstep.2).consistent⟩

/-- With a smaller batch no index goes so far. -/
theorem keepsIndex_of_batchSize_lt (h : BatchInvariant setup s) (hsmall : setup.batchSize < 256)
    (e : Event) : KeepsIndex s e := by
  cases e with
  | decsathread =>
    intro hready p _
    have hle := h.added_le p
    have hlt := (h.filling (by rw [hready]; trivial)).1
    have hidx := (h.holds p).idx
    omega
  | _ => trivial

theorem ring_consistent_of_batchSize_lt {past : List Event} (hsmall : setup.batchSize < 256)
    (hrun : Run ((ringSystem setup).restrict (Fits setup)) past s) : Consistent setup s := by
  have hkeeps : Run (((ringSystem setup).restrict (Fits setup)).restrict KeepsIndex) past s := by
    induction hrun with
    | start initial => exact .start initial
    | next _ step ih =>
      exact .next ih ⟨keepsIndex_of_batchSize_lt (batchInvariant_run ih) hsmall _, step⟩
  exact (batchInvariant_run hkeeps).consistent

end invariant

/-! A batch of 256 scrambled packets of one parity, after one of clear packets with which the first
key was loaded. -/

section fullBatch

variable {setup : Setup} {s : State} {past : List Event}

/-- The descrambling thread waits for the next packet, with these counts. -/
structure Waits (s : State) (scrambled nscrambled toSend : Nat) : Prop where
  stage : s.decsa.stage = .polling
  toDescramble : s.ring.toDescramble = 0
  writeIdx : s.ring.writeIdx = s.ring.readDecsaIdx
  scrambled : s.decsa.scrambled = scrambled
  nscrambled : s.decsa.nscrambled = nscrambled
  toSend : s.ring.toSend = toSend

/-- A packet is pushed, and the descrambling thread is about to take it. -/
def offered (setup : Setup) (s : State) (tsPacket : Packet) : State :=
  (s.push setup tsPacket).goTo .ready

def oneTaken (past : List Event) (tsPacket : Packet) : List Event :=
  .decsathread :: .decsathread :: .push tsPacket :: past

theorem Waits.current {scrambled nscrambled toSend : Nat} (h : Waits s scrambled nscrambled toSend)
    (tsPacket : Packet) : (offered setup s tsPacket).current = tsPacket.cells := by
  change (Function.update s.ring.data s.ring.writeIdx _ s.ring.readDecsaIdx).bytes = _
  rw [h.writeIdx, Function.update_self]

theorem Waits.run {scrambled nscrambled toSend : Nat} (h : Waits s scrambled nscrambled toSend)
    (hroom : scrambled + nscrambled + toSend < setup.ringBufferSize)
    (hrun : Run ((ringSystem setup).restrict (Fits setup)) past s) (tsPacket : Packet) :
    Run ((ringSystem setup).restrict (Fits setup)) (oneTaken past tsPacket)
      ((offered setup s tsPacket).take setup) := by
  have hfits : Fits setup s (.push tsPacket) := by
    simp only [Fits, State.occupancy, h.toDescramble, h.scrambled, h.nscrambled, h.toSend]
    omega
  have hpush : step setup s (.push tsPacket) = some (s.push setup tsPacket) := by
    simp [step, State.locked, h.stage]
  have hlook : step setup (s.push setup tsPacket) .decsathread =
      some (offered setup s tsPacket) := by
    simp [step, State.decsathread, State.push, h.stage, h.toDescramble, increase, offered]
  exact .next (.next (.next hrun ⟨hfits, hpush⟩) ⟨trivial, hlook⟩) ⟨trivial, rfl⟩

/-- The packet is taken and no batch is full. -/
theorem Waits.take {scrambled nscrambled toSend : Nat} (h : Waits s scrambled nscrambled toSend)
    {tsPacket : Packet} {parity : Option Parity} (hparity : scrambledParity tsPacket.cells = parity)
    (hscrambled : scrambled + parity.isSome.toNat ≠ setup.batchSize)
    (hnscrambled : nscrambled + parity.isNone.toNat ≠ setup.batchSize) :
    Waits ((offered setup s tsPacket).take setup) (scrambled + parity.isSome.toNat)
      (nscrambled + parity.isNone.toNat) toSend := by
  have ht := take_takes setup (offered setup s tsPacket)
  have hscr := ht.scrambled
  have hnscr := ht.nscrambled
  rw [h.current, hparity] at hscr hnscr
  change _ = s.decsa.scrambled + _ at hscr
  change _ = s.decsa.nscrambled + _ at hnscr
  rw [h.scrambled] at hscr
  rw [h.nscrambled] at hnscr
  refine ⟨?_, ?_, ?_, hscr, hnscr, ?_⟩
  · rcases ht.batch with ⟨hpolling, -⟩ | ⟨-, -, hfull | hfull⟩
    · exact hpolling
    · exact absurd (hscr.symm.trans hfull) hscrambled
    · exact absurd (hnscr.symm.trans hfull) hnscrambled
  · rw [take_ring]
    change decrement (increase s.ring.toDescramble 1) = 0
    rw [h.toDescramble]
    rfl
  · rw [take_ring]
    change advance _ s.ring.writeIdx = advance _ s.ring.readDecsaIdx
    rw [h.writeIdx]
  · rw [take_ring]
    exact h.toSend

end fullBatch

theorem wideExponent_le : 10 ≤ 30 := by decide

theorem wideBatch_pos : 0 < 256 := by decide

theorem length_unchanged : ∀ (_ : ControlWord) (payload : List UInt8),
    payload.length = payload.length := fun _ _ => rfl

/-- Batches of 256 packets in a ring of 1024. -/
def wide : Setup where
  exponent := 10
  exponent_le := wideExponent_le
  batchSize := 256
  batchSize_pos := wideBatch_pos
  batchSize_le := Nat.le_refl 256
  decrypt _ payload := payload
  length_decrypt := length_unchanged

def clearPacket : Packet := Buffer.fill tsPacketSize 0

def evenPacket : Packet := ⟨[0x47, 0, 0, 0x90] ++ List.replicate 184 0, rfl⟩

theorem parity_clearPacket : scrambledParity clearPacket.cells = none := by decide

theorem parity_evenPacket : scrambledParity evenPacket.cells = some .even := by decide

/-- Before the first flush, a control word being there. -/
structure Cold (s : State) (n : Nat) : Prop where
  waits : Waits s 0 n 0
  caIdx : s.decsa.caIdx = 0
  gotFirstKey : s.decsa.gotFirstKey .even = false
  gotKey : s.keys.gotKey .even = true
  keys : s.keys.caIdx = 1

/-- After it, with `n` packets in the batch. -/
structure Warm (s : State) (n : Nat) : Prop where
  waits : Waits s n 0 256
  caIdx : s.decsa.caIdx = 1
  gotFirstKey : s.decsa.gotFirstKey .even = true
  idx : (s.decsa.batch .even).idx = n
  added : (s.log.added .even).length = n

theorem Warm.adds {s : State} {n : Nat} (h : Warm s n) :
    (offered wide s evenPacket).adds = some .even := by
  rw [adds_eq_some, h.waits.current]
  exact ⟨parity_evenPacket, by simp [offered, State.push, State.goTo, h.caIdx], h.gotFirstKey⟩

/-- One more packet goes into the batch. -/
theorem Warm.added_take {s : State} {n : Nat} (h : Warm s n) :
    (((offered wide s evenPacket).take wide).log.added .even).length = n + 1 := by
  rw [(take_takes wide _).log]
  simp only [State.addToBatch, if_pos h.adds, List.length_append, List.length_singleton]
  change (s.log.added .even).length + 1 = n + 1
  rw [h.added]

abbrev wideSystem : System State Event := (ringSystem wide).restrict (Fits wide)

theorem cold_run {n : Nat} (hn : n < 256) : ∃ past s, Run wideSystem past s ∧ Cold s n := by
  induction n with
  | zero =>
    exact ⟨[.newCaIdx 1, .newKey .even []], _,
      .next (.next (.start (idle_initial wide)) ⟨trivial, rfl⟩) ⟨trivial, rfl⟩,
      ⟨⟨rfl, rfl, rfl, rfl, rfl, rfl⟩, rfl, rfl, rfl, rfl⟩⟩
  | succ n ih =>
    obtain ⟨past, s, hrun, h⟩ := ih (by omega)
    have hnext := h.waits.run (by simp [wide, Setup.ringBufferSize]; omega) hrun clearPacket
    obtain ⟨hcaIdx, hgot, hkeys⟩ := (take_takes wide (offered wide s clearPacket)).keys
    refine ⟨_, _, hnext, h.waits.take parity_clearPacket (by simp [wide]) (by simp [wide]; omega),
      hcaIdx.trans h.caIdx, (congrFun hgot .even).trans h.gotFirstKey, ?_, ?_⟩
    · rw [hkeys]
      exact h.gotKey
    · rw [hkeys]
      exact h.keys

/-- The five steps of a flush. -/
theorem flush_run {setup : Setup} {past : List Event} {s : State}
    (hrun : Run ((ringSystem setup).restrict (Fits setup)) past s) :
    Run ((ringSystem setup).restrict (Fits setup)) (List.replicate 5 .decsathread ++ past)
      ((State.decsathread setup)^[5] s) :=
  .next (.next (.next (.next (.next hrun ⟨trivial, rfl⟩) ⟨trivial, rfl⟩) ⟨trivial, rfl⟩)
    ⟨trivial, rfl⟩) ⟨trivial, rfl⟩

/-- The keys once the control words that are there have been loaded. -/
def keysLoaded (s : State) : State :=
  (((s.loadKey .even).goTo (.loading .odd)).loadKey .odd).goTo (.decrypting .even)

theorem flush_eq {setup : Setup} {s : State} (h : s.decsa.stage = .loading .even) :
    (State.decsathread setup)^[5] s =
      ((((((keysLoaded s).decrypt setup .even).goTo (.decrypting .odd)).decrypt setup
        .odd).resetBatches.goTo .releasing).release).goTo .polling := by
  have hfirst : s.decsathread setup = (s.loadKey .even).goTo (.loading .odd) := by
    rw [State.decsathread, h]
  rw [Function.iterate_succ_apply, hfirst]
  rfl

theorem keysLoaded_congr (s : State) : (keysLoaded s).ring = s.ring ∧
    (keysLoaded s).decsa.scrambled = s.decsa.scrambled ∧
    (keysLoaded s).decsa.nscrambled = s.decsa.nscrambled := by
  obtain ⟨hring, -, -, hscrambled, hnscrambled⟩ := loadKey_congr s .even
  obtain ⟨hring', -, -, hscrambled', hnscrambled'⟩ :=
    loadKey_congr ((s.loadKey .even).goTo (.loading .odd)) .odd
  exact ⟨hring'.trans hring, hscrambled'.trans hscrambled, hnscrambled'.trans hnscrambled⟩

/-- The first key of a parity is loaded as soon as a flush finds it. -/
theorem keysLoaded_firstKey {s : State} (hfirst : s.decsa.gotFirstKey .even = false)
    (hkey : s.keys.gotKey .even = true) : (keysLoaded s).decsa.gotFirstKey .even = true ∧
      (keysLoaded s).keys.caIdx = s.keys.caIdx := by
  have heven : (s.loadKey .even).decsa.gotFirstKey .even = true ∧
      (s.loadKey .even).keys.caIdx = s.keys.caIdx := by
    rw [State.loadKey, if_pos ⟨.inr (by simp [hfirst]), hkey⟩]
    exact ⟨by simp, rfl⟩
  simp only [keysLoaded, State.goTo]
  rw [State.loadKey]
  split
  · exact ⟨by simp [heven.1], heven.2⟩
  · exact heven

theorem warm_run {n : Nat} (hn : n < 256) : ∃ past s, Run wideSystem past s ∧ Warm s n := by
  induction n with
  | zero =>
    obtain ⟨past, s, hrun, h⟩ := cold_run (show 255 < 256 by decide)
    have hnext := h.waits.run (by simp [wide, Setup.ringBufferSize]) hrun clearPacket
    have htakes := take_takes wide (offered wide s clearPacket)
    obtain ⟨-, hgot, hkeys⟩ := htakes.keys
    have hscrambled := htakes.scrambled
    have hnscrambled := htakes.nscrambled
    rw [h.waits.current, parity_clearPacket] at hscrambled hnscrambled
    change _ = s.decsa.scrambled + 0 at hscrambled
    change _ = s.decsa.nscrambled + 1 at hnscrambled
    rw [h.waits.scrambled] at hscrambled
    rw [h.waits.nscrambled] at hnscrambled
    have hstage : ((offered wide s clearPacket).take wide).decsa.stage = .loading .even := by
      rcases htakes.batch with ⟨-, -, -, hne⟩ | ⟨hloading, -⟩
      · exact absurd hnscrambled hne
      · exact hloading
    generalize hfull : (offered wide s clearPacket).take wide = full at *
    obtain ⟨hring, hscr, hnscr⟩ := keysLoaded_congr full
    obtain ⟨hfirst, hcaIdx⟩ := keysLoaded_firstKey (s := full)
      ((congrFun hgot .even).trans h.gotFirstKey) (by rw [hkeys]; exact h.gotKey)
    have hringFull : full.ring = { (offered wide s clearPacket).ring with
        readDecsaIdx := advance wide.ringBufferSize s.ring.readDecsaIdx
        toDescramble := decrement (increase s.ring.toDescramble 1) } := by
      rw [← hfull, take_ring]
      rfl
    refine ⟨_, _, flush_run hnext, ?_⟩
    rw [flush_eq hstage]
    refine ⟨⟨rfl, ?_, ?_, rfl, rfl, ?_⟩, ?_, hfirst, rfl, rfl⟩
    · change (keysLoaded full).ring.toDescramble = 0
      rw [hring, hringFull]
      simp only [h.waits.toDescramble]
      rfl
    · change (keysLoaded full).ring.writeIdx = (keysLoaded full).ring.readDecsaIdx
      rw [hring, hringFull]
      change advance _ s.ring.writeIdx = advance _ s.ring.readDecsaIdx
      rw [h.waits.writeIdx]
    · change increase (keysLoaded full).ring.toSend
        ((keysLoaded full).decsa.scrambled + (keysLoaded full).decsa.nscrambled) = 256
      rw [hring, hscr, hnscr, hscrambled, hnscrambled, hringFull]
      change increase s.ring.toSend _ = 256
      rw [h.waits.toSend]
      rfl
    · exact hcaIdx.trans ((congrArg ChannelKeys.caIdx hkeys).trans h.keys)
  | succ n ih =>
    obtain ⟨past, s, hrun, h⟩ := ih (by omega)
    have hnext := h.waits.run (by simp [wide, Setup.ringBufferSize]; omega) hrun evenPacket
    have htakes := take_takes wide (offered wide s evenPacket)
    obtain ⟨hcaIdx, hgot, -⟩ := htakes.keys
    have hwaits : Waits ((offered wide s evenPacket).take wide) (n + 1) 0 256 :=
      h.waits.take parity_evenPacket (by simp [wide]; omega) (by simp [wide])
    refine ⟨_, _, hnext, hwaits, hcaIdx.trans h.caIdx, (congrFun hgot .even).trans h.gotFirstKey,
      ?_, ?_⟩
    · have hidx : (s.decsa.batch .even).idx = n := h.idx
      rcases htakes.batch with ⟨-, hbatch, -⟩ | ⟨hloading, -⟩
      · rw [hbatch, State.filled, if_pos h.adds]
        change ((s.decsa.batch .even).idx + 1) % 256 = n + 1
        rw [hidx, Nat.mod_eq_of_lt hn]
      · rw [hwaits.stage] at hloading
        cases hloading
    · exact h.added_take

/-- With the 256th packet of one parity the batch looks empty, and its packets are not decrypted. -/
theorem full_batch_empty : ∃ past s, Run wideSystem past s ∧ (s.log.added .even).length = 256 ∧
    (s.decsa.batch .even).idx = 0 ∧ ¬ Consistent wide s := by
  obtain ⟨past, s, hrun, h⟩ := warm_run (show 255 < 256 by decide)
  have hnext := h.waits.run (by simp [wide, Setup.ringBufferSize]) hrun evenPacket
  have htakes := take_takes wide (offered wide s evenPacket)
  have hfilled : ((offered wide s evenPacket).filled .even).idx = 0 := by
    rw [State.filled, if_pos h.adds]
    change ((s.decsa.batch .even).idx + 1) % 256 = 0
    rw [h.idx]
  have hidx : (((offered wide s evenPacket).take wide).decsa.batch .even).idx = 0 := by
    rcases htakes.batch with ⟨-, hbatch, -⟩ | ⟨-, hbatch, -⟩
    · rw [hbatch, hfilled]
    · rw [hbatch]
      exact hfilled
  have hlength : (((offered wide s evenPacket).take wide).log.added .even).length = 256 :=
    h.added_take
  refine ⟨_, _, hnext, hlength, hidx, fun hconsistent => ?_⟩
  have hholds := (hconsistent.holds .even).idx
  rw [hidx, hlength] at hholds
  cases hholds

end MuMuDVB.ScamRing
