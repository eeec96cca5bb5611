import Mathlib.Algebra.GroupWithZero.Nat
import MuMuDVB.Ts

/-!
# The section assembler without its arrays

What `get_ts_packet` is for, said with lists: a first-in first-out store of
complete sections and at most one section in progress, fed by payloads. The
structure of `ts.c` is read as such an assembler (`view`), and the invariant
of its arrays is the one under which the reading is exact.
-/
namespace MuMuDVB.TsAssembler

open CheckedMemory MuMuDVB.TsHeader MuMuDVB.Ts

/-- The section in progress: none, less than the three bytes that say its
length, or a proper prefix of a section of known size. -/
inductive Progress where
  | idle
  | header (bytes : List UInt8) (pid cc : Nat)
  | body (bytes : List UInt8) (size pid cc : Nat)
  deriving DecidableEq

structure Assembler where
  store : List (List UInt8)
  part : Progress
  deriving DecidableEq

def empty : Assembler := ⟨[], .idle⟩

/-- The size a section announces in its first three bytes. -/
def sectionSize (s : List UInt8) : Nat := sectionLength s + bytesBfrSecLen

/-- A section is accepted when its CRC is right; a stuffing table has none. -/
def Accepted (s : List UInt8) : Prop := tableId s = 0x72 ∨ crc32 s = 0

instance (s : List UInt8) : Decidable (Accepted s) := inferInstanceAs (Decidable (_ ∨ _))

def Assembler.setPart (a : Assembler) (p : Progress) : Assembler := { a with part := p }

@[simp] theorem Assembler.setPart_store (a : Assembler) (p : Progress) :
    (a.setPart p).store = a.store := rfl
@[simp] theorem Assembler.setPart_part (a : Assembler) (p : Progress) :
    (a.setPart p).part = p := rfl
@[simp] theorem Assembler.setPart_setPart (a : Assembler) (p q : Progress) :
    (a.setPart p).setPart q = a.setPart q := rfl

/-- All bytes of section `s` are there. A full store drops the section, a store
without room for its bytes is emptied. -/
def Assembler.complete (a : Assembler) (s : List UInt8) : Assembler :=
  if Accepted s then
    if maxFullPackets ≤ a.store.length then a.setPart .idle
    else if fullBufferSize ≤ a.store.flatten.length + s.length then empty
    else ⟨a.store ++ [s], .idle⟩
  else a.setPart .idle

/-- Sections start at the beginning of `data`; after the last one stuffing may follow. -/
def Assembler.start (a : Assembler) (data : List UInt8) (pid cc : Nat) : Assembler :=
  if data.length < 3 then a.setPart (.header data pid cc)
  else if sectionSize data ≤ data.length then
    let a := a.complete (data.take (sectionSize data))
    let rest := data.drop (sectionSize data)
    if rest = [] ∨ byteAt rest 0 = 0xff then a else a.start rest pid cc
  else a.setPart (.body data (sectionSize data) pid cc)
termination_by data.length
decreasing_by
  have : 0 < sectionSize data := Nat.succ_pos _
  simp only [List.length_drop]
  omega

/-- Append to a prefix `bytes` of a section of `size` bytes what it misses of `data`. -/
def Assembler.grow (a : Assembler) (bytes data : List UInt8) (size pid cc : Nat) : Assembler :=
  let bytes' := bytes ++ data.take (min (size - bytes.length) (maxTsSize - bytes.length))
  if size ≤ bytes'.length then a.complete bytes' else a.setPart (.body bytes' size pid cc)

/-- What a payload means for the section in progress: nothing, its loss, or more bytes of it. -/
inductive Continuation where
  | kept
  | lost
  | grown (bytes : List UInt8) (size : Nat)

def continuation (part : Progress) (data : List UInt8) (pid cc : Nat) : Continuation :=
  match part with
  | .idle => .kept
  | .header bytes p c =>
    if c = cc then .kept
    else if (c + 1) % 16 ≠ cc ∨ p ≠ pid then .lost
    else if data.length < 3 - bytes.length then .lost
    else .grown bytes (sectionSize (bytes ++ data))
  | .body bytes size p c =>
    if c = cc then .kept
    else if (c + 1) % 16 ≠ cc ∨ p ≠ pid then .lost
    else .grown bytes size

/-- The payload `data` continues the section in progress. A repeated continuity
counter is a repeated packet; any other irregularity loses the section. -/
def Assembler.append (a : Assembler) (data : List UInt8) (pid cc : Nat) : Assembler :=
  match a.part with
  | .idle => a
  | .header bytes p c =>
    if c = cc then a
    else if (c + 1) % 16 ≠ cc ∨ p ≠ pid then a.setPart .idle
    else if data.length < 3 - bytes.length then a.setPart .idle
    else a.grow bytes data (sectionSize (bytes ++ data)) pid cc
  | .body bytes size p c =>
    if c = cc then a
    else if (c + 1) % 16 ≠ cc ∨ p ≠ pid then a.setPart .idle
    else a.grow bytes data size pid cc

def Assembler.continueWith (a : Assembler) (data : List UInt8) (pid cc : Nat) :
    Continuation → Assembler
  | .kept => a
  | .lost => a.setPart .idle
  | .grown bytes size => a.grow bytes data size pid cc

theorem Assembler.append_eq (a : Assembler) (data : List UInt8) (pid cc : Nat) :
    a.append data pid cc = a.continueWith data pid cc (continuation a.part data pid cc) := by
  cases hpart : a.part with
  | idle => simp only [append, hpart, continuation, continueWith]
  | header bytes p c =>
    simp only [append, hpart, continuation]
    split
    · rfl
    · split
      · rfl
      · split <;> rfl
  | body bytes size p c =>
    simp only [append, hpart, continuation]
    split
    · rfl
    · split <;> rfl

/-- Where the payload of a packet begins, `none` when `get_ts_packet` ignores the packet. -/
def payloadStart (buf : Packet) : Option Nat :=
  let afc := adaptationFieldControl buf.cells
  let afterField := 4 + (byteAt buf.cells 4).toNat + 1
  if afc / 2 % 2 = 1 then
    if 188 ≤ afterField ∨ afc = 2 then none else some afterField
  else if afc % 2 = 1 ∧ (buf.cells.drop 4).take 3 = [0x00, 0x00, 0x01] then none
  else some 4

/-- The bytes `buf[off .. off+len)`. -/
def payload (buf : Packet) (off len : Nat) : List UInt8 := (buf.cells.drop off).take len

/-- Whether the pointer field at `off` points beyond the packet. -/
def PointerTooBig (buf : Packet) (off : Nat) : Prop :=
  (byteAt buf.cells off).toNat ≠ 0 ∧ 188 < off + 1 + (byteAt buf.cells off).toNat

instance (buf : Packet) (off : Nat) : Decidable (PointerTooBig buf off) :=
  inferInstanceAs (Decidable (_ ∧ _))

/-- Add the payload of a packet, from `off` on. -/
def Assembler.add (a : Assembler) (buf : Packet) (off : Nat) : Assembler :=
  let pid := TsHeader.pid buf.cells
  let cc := continuityCounter buf.cells
  let pointer := (byteAt buf.cells off).toNat
  if payloadUnitStartIndicator buf.cells then
    if PointerTooBig buf off then a.setPart .idle
    else
      let a := if pointer ≠ 0 then a.append (payload buf (off + 1) pointer) pid cc else a
      a.start (payload buf (off + 1 + pointer) (188 - (off + 1 + pointer))) pid cc
  else a.append (payload buf off (188 - off)) pid cc

def Assembler.pop (a : Assembler) : Assembler := { a with store := a.store.tail }

/-- A call of `get_ts_packet` with a packet, or with NULL. -/
def Assembler.call (a : Assembler) : Option Packet → Bool × Assembler
  | none => (decide (a.store ≠ []), a.pop)
  | some buf =>
    match payloadStart buf with
    | none => (decide (a.pop.store ≠ []), a.pop)
    | some off =>
      if payloadUnitStartIndicator buf.cells ∧ PointerTooBig buf off
        then (decide (a.pop.store ≠ []), a.pop.add buf off)
        else (decide (a.store ≠ []), a.pop.add buf off)

/-- A call that reports a section has popped it from the store. -/
theorem call_avail {a : Assembler} {input : Option Packet} (h : (a.call input).1 = true) :
    a.store ≠ [] := by
  intro hempty
  have hpop : a.pop.store = [] := by rw [Assembler.pop, hempty, List.tail_nil]
  cases input with
  | none => simp [Assembler.call, hempty] at h
  | some buf =>
    rw [Assembler.call] at h
    split at h
    · simp [hpop] at h
    · split at h <;> simp [hpop, hempty] at h

/-- Cut a buffer into consecutive pieces of the given lengths. -/
def cut {α : Type} : List Nat → List α → List (List α)
  | [], _ => []
  | l :: ls, xs => xs.take l :: cut ls (xs.drop l)

@[simp] theorem cut_nil {α : Type} (xs : List α) : cut [] xs = [] := rfl
@[simp] theorem cut_cons {α : Type} (l : Nat) (ls : List Nat) (xs : List α) :
    cut (l :: ls) xs = xs.take l :: cut ls (xs.drop l) := rfl
@[simp] theorem length_cut {α : Type} (ls : List Nat) (xs : List α) :
    (cut ls xs).length = ls.length := by
  induction ls generalizing xs with
  | nil => rfl
  | cons l ls ih => simp [ih]

theorem flatten_cut {α : Type} (ls : List Nat) (xs : List α) :
    (cut ls xs).flatten = xs.take ls.sum := by
  induction ls generalizing xs with
  | nil => simp
  | cons l ls ih => rw [cut_cons, List.flatten_cons, ih, List.sum_cons, List.take_add]

/-- Only the first `ls.sum` elements matter. -/
theorem cut_take {α : Type} {ls : List Nat} (xs : List α) {k : Nat} (h : ls.sum ≤ k) :
    cut ls (xs.take k) = cut ls xs := by
  induction ls generalizing xs k with
  | nil => rfl
  | cons l ls ih =>
    rw [List.sum_cons] at h
    rw [cut_cons, cut_cons, List.take_take, List.drop_take, ih _ (by omega)]
    congr 2
    omega

theorem cut_append_singleton {α : Type} (ls : List Nat) (l : Nat) (xs : List α) :
    cut (ls ++ [l]) xs = cut ls xs ++ [(xs.drop ls.sum).take l] := by
  induction ls generalizing xs with
  | nil => simp
  | cons k ls ih => simp [ih, List.drop_drop]

/-- The section in progress that the arrays hold. -/
def progress (pkt : MumudvbTsPacket) : Progress :=
  match pkt.statusPartial with
  | .empty => .idle
  | .valid => .idle
  | .partialHeader => .header (pkt.dataPartial.cells.take pkt.lenPartial) pkt.pid pkt.cc
  | .started => .body (pkt.dataPartial.cells.take pkt.lenPartial) pkt.expectedLenPartial
      pkt.pid pkt.cc

def storedLengths (pkt : MumudvbTsPacket) : List Nat := pkt.fullLengths.cells.take pkt.fullNumber

/-- The abstract assembler that the structure stands for. -/
def view (pkt : MumudvbTsPacket) : Assembler :=
  ⟨cut (storedLengths pkt) pkt.bufferFull.cells, progress pkt⟩

/-- The invariant of the store: at most `MAX_FULL_PACKETS` sections of 3 to
`MAX_TS_SIZE` bytes, together below `FULL_BUFFER_SIZE`. -/
structure StoreInvariant (pkt : MumudvbTsPacket) : Prop where
  fullNumber : pkt.fullNumber ≤ 15
  fullBufferLen : pkt.fullBufferLen = (storedLengths pkt).sum
  fullBufferRoom : pkt.fullBufferLen < 8192
  storedLength : ∀ l ∈ storedLengths pkt, 3 ≤ l ∧ l ≤ 4096
  lenFull : pkt.lenFull ≤ 4096

/-- The representation invariant of `mumudvb_ts_packet_t`. -/
structure RepInvariant (pkt : MumudvbTsPacket) : Prop extends StoreInvariant pkt where
  lenPartial : pkt.lenPartial ≤ 4096
  partialHeader : pkt.statusPartial = .partialHeader → pkt.lenPartial < 3
  started : pkt.statusPartial = .started →
    pkt.lenPartial < pkt.expectedLenPartial ∧ pkt.expectedLenPartial ≤ 4098
  headerRead : pkt.statusPartial = .started → 3 ≤ pkt.lenPartial ∧
    pkt.expectedLenPartial = sectionSize (pkt.dataPartial.cells.take pkt.lenPartial)

theorem zeroed_repInvariant : RepInvariant zeroed := by
  refine ⟨⟨?_, ?_, ?_, ?_, ?_⟩, ?_, ?_, ?_, ?_⟩ <;> simp [zeroed, storedLengths, fullBufferSize]

@[simp] theorem view_zeroed : view zeroed = empty := rfl

theorem sectionSize_le (s : List UInt8) : sectionSize s ≤ 4098 := by
  have := sectionLength_lt s
  simp only [sectionSize, bytesBfrSecLen]
  omega

theorem three_le_sectionSize (s : List UInt8) : 3 ≤ sectionSize s := Nat.le_add_left _ _

theorem sectionSize_take {s : List UInt8} {k : Nat} (h : 3 ≤ k) :
    sectionSize (s.take k) = sectionSize s := by
  rw [sectionSize, sectionSize, sectionLength_take h]

theorem sectionSize_append {s t : List UInt8} (h : 3 ≤ s.length) :
    sectionSize (s ++ t) = sectionSize s := by
  rw [sectionSize, sectionSize, sectionLength_append h]

/-- Every stored section is complete and has passed the CRC check, and the size of a section in
progress is the one that its header announces. -/
structure Sound (a : Assembler) : Prop where
  stored : ∀ s ∈ a.store, Accepted s ∧ s.length = sectionSize s
  header : ∀ bytes pid cc, a.part = .header bytes pid cc → bytes.length < 3
  body : ∀ bytes size pid cc, a.part = .body bytes size pid cc →
    3 ≤ bytes.length ∧ size = sectionSize bytes ∧ bytes.length < size

section sound

variable {a : Assembler} {s data bytes : List UInt8} {pid cc : Nat}

theorem sound_empty : Sound empty := ⟨by simp [empty], by simp [empty], by simp [empty]⟩

theorem Sound.toIdle (h : Sound a) : Sound (a.setPart .idle) := ⟨h.stored, by simp, by simp⟩

theorem Sound.toHeader (h : Sound a) (hlen : bytes.length < 3) (pid cc : Nat) :
    Sound (a.setPart (.header bytes pid cc)) := by
  refine ⟨h.stored, fun bytes' pid' cc' hpart => ?_, by simp⟩
  cases hpart
  exact hlen

theorem Sound.toBody (h : Sound a) (hlen : 3 ≤ bytes.length)
    (hsize : bytes.length < sectionSize bytes) (pid cc : Nat) :
    Sound (a.setPart (.body bytes (sectionSize bytes) pid cc)) := by
  refine ⟨h.stored, by simp, fun bytes' size pid' cc' hpart => ?_⟩
  cases hpart
  exact ⟨hlen, rfl, hsize⟩

theorem Sound.complete (h : Sound a) (hlen : s.length = sectionSize s) : Sound (a.complete s) := by
  rw [Assembler.complete]
  split
  case isTrue hacc =>
    split
    · exact h.toIdle
    · split
      · exact sound_empty
      · refine ⟨fun t ht => ?_, by simp, by simp⟩
        rcases List.mem_append.mp ht with ht | ht
        · exact h.stored t ht
        · rw [List.mem_singleton.mp ht]
          exact ⟨hacc, hlen⟩
  case isFalse => exact h.toIdle

theorem Sound.start (h : Sound a) : Sound (a.start data pid cc) := by
  induction a, data using Assembler.start.induct with
  | case1 a data h3 =>
    rw [Assembler.start, if_pos h3]
    exact h.toHeader h3 pid cc
  | case2 a data h3 hfit rest hend =>
    rw [Assembler.start, if_neg h3, if_pos hfit, if_pos hend]
    refine h.complete ?_
    rw [List.length_take, sectionSize_take (three_le_sectionSize data), Nat.min_eq_left hfit]
  | case3 a data h3 hfit a₁ rest hgo ih =>
    rw [Assembler.start, if_neg h3, if_pos hfit, if_neg hgo]
    refine ih (h.complete ?_)
    rw [List.length_take, sectionSize_take (three_le_sectionSize data), Nat.min_eq_left hfit]
  | case4 a data h3 hfit =>
    rw [Assembler.start, if_neg h3, if_neg hfit]
    exact h.toBody (Nat.le_of_not_lt h3) (Nat.lt_of_not_le hfit) pid cc

/-- A section grows as its header says, once the header is there. -/
theorem Sound.grow (h : Sound a) (hlen : 3 ≤ (bytes ++ data).length)
    (hsize : bytes.length < sectionSize (bytes ++ data)) :
    Sound (a.grow bytes data (sectionSize (bytes ++ data)) pid cc) := by
  have hthree := three_le_sectionSize (bytes ++ data)
  rw [List.length_append] at hlen
  have htake : bytes ++ data.take (min (sectionSize (bytes ++ data) - bytes.length)
      (maxTsSize - bytes.length)) = (bytes ++ data).take (bytes.length +
        min (sectionSize (bytes ++ data) - bytes.length) (maxTsSize - bytes.length)) := by
    rw [List.take_length_add_append]
  rw [Assembler.grow, htake]
  generalize hk : bytes.length + min (sectionSize (bytes ++ data) - bytes.length)
    (maxTsSize - bytes.length) = k
  have hk3 : 3 ≤ k := by
    simp only [maxTsSize] at hk
    omega
  have hkSize : k ≤ sectionSize (bytes ++ data) := by omega
  have hsame : sectionSize ((bytes ++ data).take k) = sectionSize (bytes ++ data) :=
    sectionSize_take hk3
  have hlength : ((bytes ++ data).take k).length = min k (bytes.length + data.length) := by
    rw [List.length_take, List.length_append]
  split
  case isTrue hfull =>
    refine h.complete ?_
    rw [hsame]
    omega
  case isFalse hmore =>
    rw [← hsame]
    exact h.toBody (by omega) (by omega) pid cc

theorem Sound.append (h : Sound a) : Sound (a.append data pid cc) := by
  rw [Assembler.append]
  split
  case h_1 => exact h
  case h_2 bytes p c hpart =>
    have hlen := h.header bytes p c hpart
    have hthree := three_le_sectionSize (bytes ++ data)
    split
    · exact h
    · split
      · exact h.toIdle
      · split
        · exact h.toIdle
        · refine h.grow ?_ (by omega)
          rw [List.length_append]
          omega
  case h_3 bytes size p c hpart =>
    obtain ⟨hlen, hsize, hmore⟩ := h.body bytes size p c hpart
    split
    · exact h
    · split
      · exact h.toIdle
      · rw [hsize, ← sectionSize_append (t := data) hlen] at hmore ⊢
        refine h.grow ?_ hmore
        rw [List.length_append]
        omega

theorem Sound.add (h : Sound a) (buf : Packet) (off : Nat) : Sound (a.add buf off) := by
  rw [Assembler.add]
  dsimp only
  split
  · split
    · exact h.toIdle
    · split
      · exact h.append.start
      · exact h.start
  · exact h.append

theorem Sound.pop (h : Sound a) : Sound a.pop :=
  ⟨fun s hs => h.stored s (List.mem_of_mem_tail hs), h.header, h.body⟩

theorem Sound.call (h : Sound a) (input : Option Packet) : Sound (a.call input).2 := by
  cases input with
  | none => exact h.pop
  | some buf =>
    rw [Assembler.call]
    split
    · exact h.pop
    · split <;> exact h.pop.add buf _

end sound

section store

variable {pkt : MumudvbTsPacket}

theorem length_storedLengths (h : StoreInvariant pkt) :
    (storedLengths pkt).length = pkt.fullNumber := by
  have := h.fullNumber
  simp [storedLengths]
  omega

@[simp] theorem length_store (h : StoreInvariant pkt) :
    (view pkt).store.length = pkt.fullNumber := by
  rw [view, length_cut, length_storedLengths h]

theorem length_flatten_store (h : StoreInvariant pkt) :
    (view pkt).store.flatten.length = pkt.fullBufferLen := by
  have := h.fullBufferRoom
  rw [view, flatten_cut, List.length_take, pkt.bufferFull.length_cells, ← h.fullBufferLen,
    Nat.min_eq_left (Nat.le_of_lt this)]

/-- The raw CRC check reads the section it checks, and nothing else. -/
theorem tsCheckRawCrc32_spec {n : Nat} (data : Buffer UInt8 n) {len : Nat} (h3 : 3 ≤ len)
    (hn : len ≤ n) (hlen : sectionSize (data.cells.take len) = len) :
    ∃ good, tsCheckRawCrc32 data = .ok good ∧
      (good = true ↔ Accepted (data.cells.take len)) := by
  have hs : sectionLength data.cells + bytesBfrSecLen = len := by
    rw [← hlen, sectionSize_take h3, sectionSize]
  have ht : tableId (data.cells.take len) = tableId data.cells :=
    byteAt_take (by omega)
  unfold tsCheckRawCrc32 Accepted
  rw [hs, ht]
  by_cases h72 : tableId data.cells = 0x72
  · exact ⟨true, if_pos h72, by simp [h72]⟩
  · rw [if_neg h72, Buffer.slice_ok data (by omega)]
    exact ⟨_, rfl, by simp [h72]⟩

/-- The store after a section of `pkt.lenPartial` bytes is moved to it. -/
theorem tsMovePartToFull_spec (pkt : MumudvbTsPacket) (h : StoreInvariant pkt) (h3 : 3 ≤ pkt.lenPartial)
    (hlen : pkt.lenPartial ≤ 4096) (hstat : pkt.statusPartial = .valid)
    (hacc : Accepted (pkt.dataPartial.cells.take pkt.lenPartial)) :
    ∃ pkt', tsMovePartToFull pkt = .ok pkt' ∧ RepInvariant pkt' ∧
      pkt'.statusPartial ≠ .partialHeader ∧
      view pkt' = (view pkt).complete (pkt.dataPartial.cells.take pkt.lenPartial) := by
  have hl : (pkt.dataPartial.cells.take pkt.lenPartial).length = pkt.lenPartial := by
    rw [List.length_take, pkt.dataPartial.length_cells, Nat.min_eq_left hlen]
  unfold tsMovePartToFull Assembler.complete
  rw [if_pos hacc, length_store h, length_flatten_store h, hl]
  by_cases hfull : 15 ≤ pkt.fullNumber
  · refine ⟨pkt, if_pos hfull, ⟨h, hlen, ?_, ?_, ?_⟩, ?_, ?_⟩
    · simp [hstat]
    · simp [hstat]
    · simp [hstat]
    · simp [hstat]
    · rw [if_pos hfull]
      simp [view, progress, hstat, Assembler.setPart]
  · rw [if_neg hfull, if_neg hfull]
    by_cases hroom : 8192 ≤ pkt.fullBufferLen + pkt.lenPartial
    · rw [if_pos hroom, if_pos hroom]
      refine ⟨_, rfl, ⟨⟨?_, ?_, ?_, ?_, h.lenFull⟩, ?_, ?_, ?_, ?_⟩, ?_, ?_⟩ <;>
        simp [storedLengths, view, progress, empty]
    · rw [if_neg hroom, if_neg hroom]
      have hsum := h.fullBufferLen
      obtain ⟨buf, hbufw, hbufc⟩ := pkt.bufferFull.write_ok pkt.fullBufferLen
        (pkt.dataPartial.cells.take pkt.lenPartial) (by rw [hl]; simp; omega)
      obtain ⟨lens, hlensw, hlensc⟩ := pkt.fullLengths.write_ok pkt.fullNumber
        [pkt.lenPartial] (by simp; omega)
      have hstored : lens.cells.take (pkt.fullNumber + 1) = storedLengths pkt ++ [pkt.lenPartial] := by
        rw [hlensc, take_splice (by simp; omega) (by simp)]
        rfl
      rw [Buffer.slice_ok _ (by simpa using hlen)]
      simp only [List.drop_zero, bind_ok, hbufw, hlensw, pure_ok]
      refine ⟨_, rfl, ⟨⟨?_, ?_, ?_, ?_, h.lenFull⟩, ?_, ?_, ?_, ?_⟩, ?_, ?_⟩
      · simp only
        omega
      · simp [storedLengths, hstored, hsum]
      · simpa using hroom
      · intro l hmem
        simp only [storedLengths, hstored, List.mem_append, List.mem_singleton] at hmem
        rcases hmem with hmem | rfl
        · exact h.storedLength l hmem
        · exact ⟨h3, hlen⟩
      · simp
      · simp
      · simp
      · simp
      · simp
      · have hold : cut (storedLengths pkt) buf.cells = cut (storedLengths pkt) pkt.bufferFull.cells := by
          rw [← cut_take buf.cells (Nat.le_refl _), ← hsum, hbufc,
            take_splice_of_le (Nat.le_refl _) (by simp; omega), hsum, cut_take _ (Nat.le_refl _)]
        have hnew : (buf.cells.drop pkt.fullBufferLen).take pkt.lenPartial =
            pkt.dataPartial.cells.take pkt.lenPartial := by
          rw [hbufc, take_drop_splice (by simp; omega) hl.symm]
        have hv : view { pkt with
            bufferFull := buf, fullBufferLen := pkt.fullBufferLen + pkt.lenPartial
            fullLengths := lens, fullNumber := pkt.fullNumber + 1
            lenPartial := 0, statusPartial := .empty } =
            ⟨cut (storedLengths pkt ++ [pkt.lenPartial]) buf.cells, .idle⟩ := by
          simp only [view, storedLengths, hstored, progress]
        rw [hv, cut_append_singleton, hold, ← hsum, hnew]
        rfl

end store

end MuMuDVB.TsAssembler
