import MuMuDVB.TsRefinement

/-!
# The assembler as a splitter and a store

A packet moves the section in progress on and ends some sections: that part has
no capacity. What it ends goes to a store of fifteen. The bytes of the store
stay far below its buffer, because a section waits in it for fewer packets than
it has places.
-/
namespace MuMuDVB.TsSections

open CheckedMemory MuMuDVB.TsHeader MuMuDVB.Ts MuMuDVB.TsAssembler MuMuDVB.TsRefinement

/-- The section in progress after a payload, and the sections that ended in it. -/
structure Split where
  part : Progress
  sections : List (List UInt8)

/-- A complete section is passed on when its CRC is right. -/
def completed (s : List UInt8) : List (List UInt8) := if Accepted s then [s] else []

def grown (bytes data : List UInt8) (size pid cc : Nat) : Split :=
  let bytes' := bytes ++ data.take (min (size - bytes.length) (maxTsSize - bytes.length))
  if size ≤ bytes'.length then ⟨.idle, completed bytes'⟩ else ⟨.body bytes' size pid cc, []⟩

def continued (part : Progress) (data : List UInt8) (pid cc : Nat) : Split :=
  match continuation part data pid cc with
  | .kept => ⟨part, []⟩
  | .lost => ⟨.idle, []⟩
  | .grown bytes size => grown bytes data size pid cc

def started (data : List UInt8) (pid cc : Nat) : Split :=
  if data.length < 3 then ⟨.header data pid cc, []⟩
  else if sectionSize data ≤ data.length then
    let s := data.take (sectionSize data)
    let rest := data.drop (sectionSize data)
    if rest = [] ∨ byteAt rest 0 = 0xff then ⟨.idle, completed s⟩
    else
      let later := started rest pid cc
      ⟨later.part, completed s ++ later.sections⟩
  else ⟨.body data (sectionSize data) pid cc, []⟩
termination_by data.length
decreasing_by
  have : 0 < sectionSize data := Nat.succ_pos _
  simp only [List.length_drop]
  omega

/-- The payload from `off` on. -/
def added (part : Progress) (buf : Packet) (off : Nat) : Split :=
  let pid := TsHeader.pid buf.cells
  let cc := continuityCounter buf.cells
  let pointer := (byteAt buf.cells off).toNat
  if payloadUnitStartIndicator buf.cells then
    if PointerTooBig buf off then ⟨.idle, []⟩
    else
      let first := if pointer ≠ 0 then continued part (payload buf (off + 1) pointer) pid cc
        else ⟨part, []⟩
      let later := started (payload buf (off + 1 + pointer) (188 - (off + 1 + pointer))) pid cc
      ⟨later.part, first.sections ++ later.sections⟩
  else continued part (payload buf off (188 - off)) pid cc

def received (part : Progress) (buf : Packet) : Split :=
  match payloadStart buf with
  | none => ⟨part, []⟩
  | some off => added part buf off

/-- The sections go to the store, one after the other. -/
def store (a : Assembler) (split : Split) : Assembler :=
  (split.sections.foldl Assembler.complete a).setPart split.part

variable {a : Assembler} {data bytes s : List UInt8} {sections : List (List UInt8)}
  {part p q : Progress} {size pid cc : Nat}

/-- The store does not depend on the section in progress. -/
theorem store_setPart (a : Assembler) (q : Progress) (split : Split) :
    store (a.setPart q) split = store a split := by
  obtain ⟨part, sections⟩ := split
  cases sections <;> rfl

theorem store_completed (a : Assembler) (s : List UInt8) (p : Progress) :
    store a ⟨p, completed s⟩ = (a.complete s).setPart p := by
  rw [completed]
  split
  case isTrue => rfl
  case isFalse h =>
    rw [Assembler.complete, if_neg h]
    rfl

theorem store_append (a : Assembler) (p q : Progress) (xs ys : List (List UInt8)) :
    store a ⟨p, xs ++ ys⟩ = store (store a ⟨q, xs⟩) ⟨p, ys⟩ := by
  have hinner : store (store a ⟨q, xs⟩) ⟨p, ys⟩ = store (xs.foldl Assembler.complete a) ⟨p, ys⟩ :=
    store_setPart _ q _
  rw [hinner, store, List.foldl_append]
  rfl

theorem complete_setPart_idle (a : Assembler) (s : List UInt8) :
    (a.complete s).setPart .idle = a.complete s := by
  rw [Assembler.complete]
  split
  · split
    · rfl
    · split <;> rfl
  · rfl

theorem grow_eq (a : Assembler) (bytes data : List UInt8) (size pid cc : Nat) :
    a.grow bytes data size pid cc = store a (grown bytes data size pid cc) := by
  rw [Assembler.grow, grown]
  split
  · rw [store_completed, complete_setPart_idle]
  · rfl

theorem append_eq (a : Assembler) (data : List UInt8) (pid cc : Nat) :
    a.append data pid cc = store a (continued a.part data pid cc) := by
  rw [a.append_eq, continued]
  cases continuation a.part data pid cc with
  | kept => rfl
  | lost => rfl
  | grown bytes size => exact grow_eq a bytes data size pid cc

theorem start_eq (a : Assembler) (data : List UInt8) (pid cc : Nat) :
    a.start data pid cc = store a (started data pid cc) := by
  induction a, data using Assembler.start.induct with
  | case1 a data h3 =>
    rw [Assembler.start, if_pos h3, started, if_pos h3]
    rfl
  | case2 a data h3 hfit rest hend =>
    rw [Assembler.start, if_neg h3, if_pos hfit, if_pos hend, started, if_neg h3, if_pos hfit,
      if_pos hend, store_completed, complete_setPart_idle]
  | case3 a data h3 hfit a₁ rest hgo ih =>
    rw [Assembler.start, if_neg h3, if_pos hfit, if_neg hgo, started, if_neg h3, if_pos hfit,
      if_neg hgo, store_append a _ .idle, store_completed, complete_setPart_idle]
    exact ih
  | case4 a data h3 hfit =>
    rw [Assembler.start, if_neg h3, if_neg hfit, started, if_neg h3, if_neg hfit]
    rfl

theorem add_eq (a : Assembler) (buf : Packet) (off : Nat) :
    a.add buf off = store a (added a.part buf off) := by
  rw [Assembler.add, added]
  dsimp only
  split
  · split
    · rfl
    · split
      · rw [start_eq, append_eq, store_append a _ _]
      · rw [start_eq]
        rfl
  · rw [append_eq]

/-- A packet: one section leaves the store, and those that the packet ends go to it. -/
theorem call_eq (a : Assembler) (buf : Packet) :
    (a.call (some buf)).2 = store a.pop (received a.part buf) := by
  rw [Assembler.call, received]
  cases payloadStart buf with
  | none => rfl
  | some off =>
    dsimp only
    split <;> exact add_eq a.pop buf off

/-- `get_ts_packet` gives the packet up by an early return. -/
def Refused (p : Packet) : Prop :=
  ∀ off, payloadStart p = some off →
    payloadUnitStartIndicator p.cells = true ∧ PointerTooBig p off

section refused

variable {p : Packet}

/-- An early return reports what the store still holds, after it lost its first section. -/
theorem call_refused (h : Refused p) :
    (a.call (some p)).1 = decide (a.store.tail ≠ []) ∧ (received a.part p).sections = [] := by
  rw [Assembler.call, received]
  cases hstart : payloadStart p with
  | none => exact ⟨rfl, rfl⟩
  | some off =>
    obtain ⟨hpusi, hbig⟩ := h off hstart
    dsimp only
    rw [if_pos ⟨hpusi, hbig⟩, added]
    dsimp only
    rw [if_pos hpusi, if_pos hbig]
    exact ⟨rfl, rfl⟩

theorem call_accepted (h : ¬ Refused p) : (a.call (some p)).1 = decide (a.store ≠ []) := by
  rw [Refused, not_forall] at h
  obtain ⟨off, h⟩ := h
  rw [Classical.not_imp] at h
  obtain ⟨hstart, hnot⟩ := h
  rw [Assembler.call, hstart]
  dsimp only
  rw [if_neg hnot]

/-- A call that returns 0 although something was stored has taken the last stored section. -/
theorem call_silent (hsilent : (a.call (some p)).1 = false) (hstored : a.store ≠ []) :
    a.store.tail = [] ∧ (received a.part p).sections = [] := by
  by_cases hp : Refused p
  · obtain ⟨havail, hnone⟩ := call_refused (a := a) hp
    rw [havail] at hsilent
    exact ⟨not_not.mp (of_decide_eq_false hsilent), hnone⟩
  · rw [call_accepted hp] at hsilent
    exact absurd hstored (of_decide_eq_false hsilent)

end refused

/-- The bytes of the section in progress. -/
def partLength : Progress → Nat
  | .idle => 0
  | .header bytes _ _ => bytes.length
  | .body bytes _ _ _ => bytes.length

/-- A payload of `len` bytes, after a section in progress of `before` bytes: no byte goes to two
sections, and only the first section that ends may have begun before. -/
structure Within (before len : Nat) (split : Split) : Prop where
  total : split.sections.flatten.length + partLength split.part ≤ before + len
  later : split.sections ≠ [] →
    split.sections.tail.flatten.length + partLength split.part ≤ len
  accepted : ∀ s ∈ split.sections, Accepted s
  atMost : ∀ s ∈ split.sections, s.length ≤ maxTsSize
  partAtMost : partLength split.part ≤ maxTsSize

section within

variable {before len n : Nat} {buf : Packet}

theorem within_nothing (h : partLength p ≤ before) (hmax : partLength p ≤ maxTsSize) (len : Nat) :
    Within before len ⟨p, []⟩ := by
  refine ⟨?_, by simp, by simp, by simp, hmax⟩
  show 0 + partLength p ≤ before + len
  omega

theorem within_completed (hbytes : s.length ≤ before + len) (hmax : s.length ≤ maxTsSize) :
    Within before len ⟨.idle, completed s⟩ := by
  rw [completed]
  split
  case isTrue hacc =>
    refine ⟨?_, fun _ => Nat.zero_le _, ?_, ?_, Nat.zero_le _⟩
    · rw [List.flatten_singleton]
      exact hbytes
    · simpa using hacc
    · simpa using hmax
  case isFalse => exact within_nothing (Nat.zero_le _) (Nat.zero_le _) len

theorem Within.append {xs ys : List (List UInt8)} (h : Within before len ⟨p, xs⟩)
    (h' : Within 0 n ⟨q, ys⟩) : Within before (len + n) ⟨q, xs ++ ys⟩ := by
  have htotal := h.total
  have htotal' := h'.total
  dsimp only at htotal htotal'
  refine ⟨?_, fun _ => ?_, ?_, ?_, h'.partAtMost⟩
  · simp only [List.flatten_append, List.length_append]
    omega
  · cases xs with
    | nil =>
      have htail : ys.tail.flatten.length ≤ ys.flatten.length := by
        cases ys <;> simp
      show ys.tail.flatten.length + partLength q ≤ len + n
      rw [List.flatten_nil, List.length_nil] at htotal
      omega
    | cons x xs =>
      have hlater := h.later (List.cons_ne_nil x xs)
      simp only [List.cons_append, List.tail_cons, List.flatten_append, List.length_append]
        at hlater ⊢
      omega
  · exact List.forall_mem_append.mpr ⟨h.accepted, h'.accepted⟩
  · exact List.forall_mem_append.mpr ⟨h.atMost, h'.atMost⟩

theorem grown_within (hbytes : bytes.length ≤ maxTsSize) :
    Within bytes.length data.length (grown bytes data size pid cc) := by
  rw [grown]
  generalize hk : min (size - bytes.length) (maxTsSize - bytes.length) = k
  have hroom : k ≤ maxTsSize - bytes.length := by omega
  have hlen : (bytes ++ data.take k).length = bytes.length + min k data.length := by
    rw [List.length_append, List.length_take]
  split
  · exact within_completed (by omega) (by omega)
  · refine ⟨?_, by simp, by simp, by simp, ?_⟩
    · show 0 + (bytes ++ data.take k).length ≤ bytes.length + data.length
      omega
    · show (bytes ++ data.take k).length ≤ maxTsSize
      omega

theorem continuation_grown (h : continuation part data pid cc = .grown bytes size) :
    bytes.length = partLength part := by
  cases part with
  | idle => cases h
  | header bytes' p c =>
    rw [continuation] at h
    split at h
    · cases h
    · split at h
      · cases h
      · split at h <;> cases h
        rfl
  | body bytes' size' p c =>
    rw [continuation] at h
    split at h
    · cases h
    · split at h <;> cases h
      rfl

theorem continued_within (h : partLength part ≤ maxTsSize) (data : List UInt8) (pid cc : Nat) :
    Within (partLength part) data.length (continued part data pid cc) := by
  rw [continued]
  split
  case h_1 => exact within_nothing (Nat.le_refl _) h _
  case h_2 => exact within_nothing (Nat.zero_le _) (Nat.zero_le _) _
  case h_3 bytes size hgrown =>
    rw [← continuation_grown hgrown] at h ⊢
    exact grown_within h

theorem started_within (h : data.length ≤ maxTsSize) (pid cc : Nat) :
    Within 0 data.length (started data pid cc) := by
  fun_induction started data pid cc with
  | case1 data h3 =>
    refine ⟨?_, by simp, by simp, by simp, h⟩
    show 0 + data.length ≤ 0 + data.length
    exact Nat.le_refl _
  | case2 data h3 hfit s rest hend =>
    have hs : s.length = sectionSize data := by
      rw [List.length_take, Nat.min_eq_left hfit]
    exact within_completed (by omega) (by omega)
  | case3 data h3 hfit s rest hgo later ih =>
    have hs : s.length = sectionSize data := by
      rw [List.length_take, Nat.min_eq_left hfit]
    have hrest : rest.length = data.length - sectionSize data := List.length_drop
    have hlen : data.length = s.length + rest.length := by omega
    have hfirst : Within 0 s.length ⟨.idle, completed s⟩ := within_completed (by omega) (by omega)
    rw [hlen]
    exact hfirst.append (ih (by omega))
  | case4 data h3 hfit =>
    refine ⟨?_, by simp, by simp, by simp, h⟩
    show 0 + data.length ≤ 0 + data.length
    exact Nat.le_refl _

theorem Within.mono {m : Nat} {split : Split} (h : Within before m split) (hle : m ≤ n) :
    Within before n split :=
  ⟨by have := h.total; omega, fun hne => by have := h.later hne; omega, h.accepted, h.atMost,
    h.partAtMost⟩

/-- A packet has 184 bytes for sections. -/
theorem received_within (h : partLength part ≤ maxTsSize) (buf : Packet) :
    Within (partLength part) 184 (received part buf) := by
  have hlost : Within (partLength part) 184 ⟨.idle, []⟩ :=
    within_nothing (Nat.zero_le _) (Nat.zero_le _) 184
  rw [received]
  split
  case h_1 => exact within_nothing (Nat.le_refl _) h 184
  case h_2 off hoff =>
    obtain ⟨h4, h188⟩ := (payloadOffset_spec buf).2 off hoff
    rw [added]
    dsimp only
    split
    case isTrue =>
      split
      case isTrue => exact hlost
      case isFalse hbig =>
        generalize hpointer : (byteAt buf.cells off).toNat = pointer
        have hfits : off + 1 + pointer ≤ 188 := by
          rw [PointerTooBig, hpointer] at hbig
          omega
        have hfirst : Within (partLength part) pointer
            (if pointer ≠ 0 then continued part (payload buf (off + 1) pointer)
              (TsHeader.pid buf.cells) (continuityCounter buf.cells) else ⟨part, []⟩) := by
          have hlen : (payload buf (off + 1) pointer).length = pointer := length_payload buf hfits
          split
          · have := continued_within h (payload buf (off + 1) pointer) (TsHeader.pid buf.cells)
              (continuityCounter buf.cells)
            rwa [hlen] at this
          · exact within_nothing (Nat.le_refl _) h _
        have hlen : (payload buf (off + 1 + pointer) (188 - (off + 1 + pointer))).length =
            188 - (off + 1 + pointer) := length_payload buf (by omega)
        have hmax : (payload buf (off + 1 + pointer) (188 - (off + 1 + pointer))).length ≤
            maxTsSize := by
          simp only [maxTsSize]
          omega
        have hlater := started_within hmax (TsHeader.pid buf.cells) (continuityCounter buf.cells)
        rw [hlen] at hlater
        exact (hfirst.append hlater).mono (by omega)
    case isFalse =>
      have hlen : (payload buf off (188 - off)).length = 188 - off := length_payload buf (by omega)
      have := continued_within h (payload buf off (188 - off)) (TsHeader.pid buf.cells)
        (continuityCounter buf.cells)
      rw [hlen] at this
      exact this.mono (by omega)

end within

/-- `ts_move_part_to_full` has no room for section `s`. -/
def Full (a : Assembler) (s : List UInt8) : Prop :=
  maxFullPackets ≤ a.store.length ∨ fullBufferSize ≤ a.store.flatten.length + s.length

instance (a : Assembler) (s : List UInt8) : Decidable (Full a s) :=
  inferInstanceAs (Decidable (_ ∨ _))

/-- Some of the sections find no room. -/
def drops : Assembler → List (List UInt8) → Bool
  | _, [] => false
  | a, s :: sections => decide (Full a s) || drops (a.complete s) sections

/-- Behind the section at place `i` of the store, with `n` bytes that are not yet there, is what
the packets since its arrival can have brought: it was at one of the fifteen places, and each
packet moved it forward. -/
def Waiting (store : List (List UInt8)) (n : Nat) : Prop :=
  ∀ i, i < store.length → (store.drop (i + 1)).flatten.length + n + 184 * i ≤ 184 * 15

section waiting

variable {xs : List (List UInt8)} {m n : Nat}

theorem Waiting.mono (h : Waiting xs n) (hle : m ≤ n) : Waiting xs m := by
  intro i hi
  have := h i hi
  omega

/-- A packet pops a section and brings at most 184 bytes. -/
theorem Waiting.tail (h : Waiting xs n) : Waiting xs.tail (n + 184) := by
  intro i hi
  rw [List.length_tail] at hi
  have := h (i + 1) (by omega)
  rw [List.drop_tail]
  omega

theorem Waiting.snoc (h : Waiting xs (s.length + n)) (hn : n ≤ 184) (hroom : xs.length < 15) :
    Waiting (xs ++ [s]) n := by
  intro i hi
  rw [List.length_append, List.length_singleton] at hi
  by_cases hlast : i < xs.length
  · have := h i hlast
    rw [List.drop_append_of_le_length hlast, List.flatten_append, List.length_append,
      List.flatten_singleton]
    show (xs.drop (i + 1)).flatten.length + s.length + n + 184 * i ≤ 184 * 15
    omega
  · rw [List.drop_of_length_le (by rw [List.length_append, List.length_singleton]; omega)]
    show 0 + n + 184 * i ≤ 184 * 15
    omega

/-- The buffer of the store is large enough. -/
theorem Waiting.room (h : Waiting xs (s.length + n)) (hmax : ∀ t ∈ xs, t.length ≤ 4096)
    (hs : s.length ≤ 4096) : xs.flatten.length + s.length < 8192 := by
  cases xs with
  | nil =>
    rw [List.flatten_nil, List.length_nil]
    omega
  | cons t xs =>
    have := h 0 (Nat.succ_pos _)
    have ht := hmax t List.mem_cons_self
    rw [List.drop_one, List.tail_cons] at this
    rw [List.flatten_cons, List.length_append]
    omega

/-- The sections of one packet: the first fifteen places are filled, the rest is dropped, and the
buffer of the store has room. -/
theorem foldl_store (hnumber : a.store.length ≤ 15) (hmax : ∀ t ∈ a.store, t.length ≤ 4096)
    (hwait : Waiting a.store (sections.flatten.length + n))
    (hlater : sections ≠ [] → sections.tail.flatten.length + n ≤ 184)
    (hacc : ∀ s ∈ sections, Accepted s) (hsize : ∀ s ∈ sections, s.length ≤ 4096) :
    (sections.foldl Assembler.complete a).store = (a.store ++ sections).take 15 ∧
      Waiting (sections.foldl Assembler.complete a).store n ∧
      drops a sections = decide (15 < a.store.length + sections.length) := by
  induction sections generalizing a with
  | nil =>
    rw [List.flatten_nil, List.length_nil, Nat.zero_add] at hwait
    refine ⟨?_, hwait, ?_⟩
    · rw [List.append_nil, List.take_of_length_le hnumber]
      rfl
    · rw [List.length_nil, drops, decide_eq_false (by omega)]
  | cons s sections ih =>
    have hs := hsize s List.mem_cons_self
    rw [List.flatten_cons, List.length_append, Nat.add_assoc] at hwait
    have hroom := hwait.room hmax hs
    have hrest := hlater (List.cons_ne_nil s sections)
    rw [List.tail_cons] at hrest
    have hlater' : sections ≠ [] → sections.tail.flatten.length + n ≤ 184 := by
      intro _
      have : sections.tail.flatten.length ≤ sections.flatten.length := by
        cases sections <;> simp
      omega
    rw [List.foldl_cons, drops, List.length_cons]
    by_cases hfull : 15 ≤ a.store.length
    · have hcomplete : a.complete s = a.setPart .idle := by
        rw [Assembler.complete, if_pos (hacc s List.mem_cons_self), if_pos hfull]
      obtain ⟨hstore, hwait', -⟩ := ih (a := a.setPart .idle) hnumber hmax
        (hwait.mono (by omega)) hlater' (fun t ht => hacc t (List.mem_cons_of_mem _ ht))
        (fun t ht => hsize t (List.mem_cons_of_mem _ ht))
      rw [hcomplete]
      refine ⟨?_, hwait', ?_⟩
      · rw [hstore, Assembler.setPart_store, List.take_append_of_le_length hfull,
          List.take_append_of_le_length hfull]
      · rw [decide_eq_true (show Full a s from .inl hfull), Bool.true_or, decide_eq_true (by omega)]
    · have hcomplete : a.complete s = ⟨a.store ++ [s], .idle⟩ := by
        rw [Assembler.complete, if_pos (hacc s List.mem_cons_self), if_neg hfull,
          if_neg (by simp only [fullBufferSize]; omega)]
      have hnotFull : ¬ Full a s := by
        rintro (h | h)
        · exact hfull h
        · simp only [fullBufferSize] at h
          omega
      obtain ⟨hstore, hwait', hdrops⟩ := ih (a := ⟨a.store ++ [s], .idle⟩)
        (by simp only [List.length_append, List.length_singleton]; omega)
        (List.forall_mem_append.mpr ⟨hmax, by simpa using hs⟩)
        (hwait.snoc hrest (by omega)) hlater' (fun t ht => hacc t (List.mem_cons_of_mem _ ht))
        (fun t ht => hsize t (List.mem_cons_of_mem _ ht))
      rw [hcomplete]
      refine ⟨?_, hwait', ?_⟩
      · rw [hstore, List.append_assoc, List.singleton_append]
      · rw [decide_eq_false hnotFull, Bool.false_or, hdrops]
        simp only [List.length_append, List.length_singleton]
        congr 1
        rw [Nat.add_assoc, Nat.add_comm 1]

end waiting

/-- The invariant of the assembler under any calls. -/
structure Bounded (a : Assembler) : Prop where
  number : a.store.length ≤ maxFullPackets
  stored : ∀ s ∈ a.store, s.length ≤ maxTsSize
  part : partLength a.part ≤ maxTsSize
  waiting : Waiting a.store (partLength a.part)

theorem bounded_empty : Bounded empty :=
  ⟨Nat.zero_le _, by simp [empty], Nat.zero_le _, fun i hi => absurd hi (Nat.not_lt_zero i)⟩

theorem Bounded.pop (h : Bounded a) : Bounded a.pop where
  number := by
    have := h.number
    rw [Assembler.pop, List.length_tail]
    omega
  stored s hs := h.stored s (List.mem_of_mem_tail hs)
  part := h.part
  waiting := h.waiting.tail.mono (Nat.le_add_right _ _)

/-- What a packet does to the store. -/
theorem Bounded.packet (h : Bounded a) (buf : Packet) :
    (a.call (some buf)).2 =
        ⟨(a.store.tail ++ (received a.part buf).sections).take maxFullPackets,
          (received a.part buf).part⟩ ∧
      Bounded (a.call (some buf)).2 ∧
      drops a.pop (received a.part buf).sections =
        decide (maxFullPackets < a.store.tail.length + (received a.part buf).sections.length) := by
  have hwithin := received_within h.part buf
  have htotal := hwithin.total
  obtain ⟨hstore, hwait, hdrops⟩ := foldl_store h.pop.number h.pop.stored
    (n := partLength (received a.part buf).part)
    (h.waiting.tail.mono (by omega)) hwithin.later hwithin.accepted hwithin.atMost
  have hcall : (a.call (some buf)).2 =
      ⟨(a.store.tail ++ (received a.part buf).sections).take maxFullPackets,
        (received a.part buf).part⟩ := by
    have hpop : a.store.tail = a.pop.store := rfl
    rw [call_eq, store, hpop, maxFullPackets, ← hstore]
    rfl
  refine ⟨hcall, ?_, hdrops⟩
  rw [hcall]
  refine ⟨?_, fun s hs => ?_, hwithin.partAtMost, ?_⟩
  · rw [List.length_take]
    exact Nat.min_le_left _ _
  · rcases List.mem_append.mp (List.mem_of_mem_take hs) with hs | hs
    · exact h.pop.stored s hs
    · exact hwithin.atMost s hs
  · rw [hstore] at hwait
    exact hwait

theorem Bounded.call (h : Bounded a) (input : Option Packet) : Bounded (a.call input).2 := by
  cases input with
  | none => exact h.pop
  | some buf => exact (h.packet buf).2.1

end MuMuDVB.TsSections
