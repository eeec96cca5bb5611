import MuMuDVB.TsRefinement

/-!
# get_ts_packet undoes packetisation

`Packetised` says how a broadcaster cuts a list of sections into packets. One
lemma for each way a payload meets the list assembler (a section that ends, a
section that starts, a section that is cut), then one packet, then the stream.
-/
namespace MuMuDVB.TsReassembly

open CheckedMemory MuMuDVB.TsHeader MuMuDVB.Ts MuMuDVB.TsAssembler MuMuDVB.TsRefinement

/-- A section that a broadcaster may send. -/
structure IsSection (s : List UInt8) : Prop where
  notStuffing : tableId s ≠ 0xff
  length : s.length = sectionSize s
  atLeast : 7 ≤ s.length
  atMost : s.length ≤ 4096
  crc : crc32 s = 0

/-- The bytes `xs` in a field of `n` bytes: cut, or padded with stuffing. -/
def pad (n : Nat) (xs : List UInt8) : List UInt8 := xs.take n ++ List.replicate (n - xs.length) 0xff

/-- The bytes a packet has for sections: the pointer field takes one. -/
def room (starts : List (List UInt8)) : Nat := if starts = [] then 184 else 183

/-- What a packet leaves of `rest`, the end of a section, and of the sections that start in it. -/
def leftOver (rest : List UInt8) (starts : List (List UInt8)) : List UInt8 :=
  (rest ++ starts.flatten).drop (room starts)

/-- How many sections end in such a packet. -/
def completions (rest : List UInt8) (starts : List (List UInt8)) : Nat :=
  (if rest = [] then 0 else 1) + starts.length - (if leftOver rest starts = [] then 0 else 1)

/-- Packet `p` carries `rest`, the end of a section, and then `starts`, the sections that start
in it, back to back; only the last of them may be cut by the end of the packet. -/
structure Carries (p : Packet) (pid cc : Nat) (rest : List UInt8) (starts : List (List UInt8)) :
    Prop where
  startIndicator : payloadUnitStartIndicator p.cells = true ↔ starts ≠ []
  pid : TsHeader.pid p.cells = pid
  adaptationField : adaptationFieldControl p.cells = 1
  counter : continuityCounter p.cells = cc
  payload : p.cells.drop 4 = (if starts = [] then [] else [UInt8.ofNat rest.length]) ++
    pad (room starts) (rest ++ starts.flatten)
  startsFit : starts ≠ [] → (rest ++ starts.dropLast.flatten).length < 183
  noPes : (p.cells.drop 4).take 3 ≠ [0x00, 0x00, 0x01]
  completions : completions rest starts ≤ 8

/-- `packets` carry `rest`, the end of a section, and then the sections `todo` on one PID;
the first packet has continuity counter `cc`. -/
inductive Packetised (pid : Nat) : Nat → List UInt8 → List (List UInt8) → List Packet → Prop where
  | done (cc : Nat) : Packetised pid cc [] [] []
  | packet {cc : Nat} {rest : List UInt8} {starts todo : List (List UInt8)} {p : Packet}
      {packets : List Packet} (carries : Carries p pid cc rest starts)
      (later : Packetised pid ((cc + 1) % 16) (leftOver rest starts) todo packets) :
      Packetised pid cc rest (starts ++ todo) (p :: packets)

/-- The section in progress when `sent` was received and `rest` is to come. -/
def inProgress (sent rest : List UInt8) (pid cc : Nat) : Progress :=
  if rest = [] then .idle
  else if sent.length < 3 then .header sent pid cc
  else .body sent (sent ++ rest).length pid cc

/-- The section in progress as a list of sections. -/
def pending (sent rest : List UInt8) : List (List UInt8) := if rest = [] then [] else [sent ++ rest]

/-- `Carries` without its bound on the sections that end in the packet, and with any first bytes. -/
structure Cuts (p : Packet) (pid cc : Nat) (rest : List UInt8) (starts : List (List UInt8)) :
    Prop where
  startIndicator : payloadUnitStartIndicator p.cells = true ↔ starts ≠ []
  pid : TsHeader.pid p.cells = pid
  adaptationField : adaptationFieldControl p.cells = 1
  counter : continuityCounter p.cells = cc
  payload : p.cells.drop 4 = (if starts = [] then [] else [UInt8.ofNat rest.length]) ++
    pad (room starts) (rest ++ starts.flatten)
  startsFit : starts ≠ [] → (rest ++ starts.dropLast.flatten).length < 183

/-- A store within both bounds. -/
def Fits (store : List (List UInt8)) : Prop := store.length ≤ 15 ∧ store.flatten.length < 8192

variable {a : Assembler} {s rest sent : List UInt8} {starts : List (List UInt8)} {pid cc n : Nat}

theorem Carries.cuts {p : Packet} (h : Carries p pid cc rest starts) : Cuts p pid cc rest starts :=
  ⟨h.startIndicator, h.pid, h.adaptationField, h.counter, h.payload, h.startsFit⟩

@[simp] theorem length_pad (n : Nat) (xs : List UInt8) : (pad n xs).length = n := by
  simp [pad]
  omega

theorem Fits.left {xs ys : List (List UInt8)} (h : Fits (xs ++ ys)) : Fits xs := by
  obtain ⟨hlen, hsum⟩ := h
  simp only [List.length_append, List.flatten_append] at hlen hsum
  exact ⟨by omega, by omega⟩

theorem IsSection.accepted (h : IsSection s) : Accepted s := Or.inr h.crc

theorem complete_fits (hacc : Accepted s) (h : Fits (a.store ++ [s])) :
    a.complete s = ⟨a.store ++ [s], .idle⟩ := by
  obtain ⟨hlen, hsum⟩ := h
  simp only [List.length_append, List.length_singleton, List.flatten_append, List.flatten_cons,
    List.flatten_nil, List.append_nil] at hlen hsum
  rw [Assembler.complete, if_pos hacc, if_neg (by simp only [maxFullPackets]; omega),
    if_neg (by simp only [fullBufferSize]; omega)]

/-- Sections that complete one after the other are stored in order. -/
theorem foldl_complete (hacc : ∀ s ∈ starts, Accepted s) (h : Fits (a.store ++ starts)) :
    starts.foldl Assembler.complete a =
      ⟨a.store ++ starts, if starts = [] then a.part else .idle⟩ := by
  induction starts generalizing a with
  | nil => simp
  | cons s starts ih =>
    rw [List.append_cons] at h
    rw [List.foldl_cons, complete_fits (hacc s List.mem_cons_self) h.left,
      ih (fun t ht => hacc t (List.mem_cons_of_mem _ ht)) h]
    simp

/-- Section `s` at the start of a payload is completed; what follows decides how it goes on. -/
theorem start_section {tail : List UInt8} (hlen : s.length = sectionSize s) :
    a.start (s ++ tail) pid cc =
      if tail = [] ∨ byteAt tail 0 = 0xff then a.complete s
      else (a.complete s).start tail pid cc := by
  have h3 := three_le_sectionSize s
  have hsize : sectionSize (s ++ tail) = s.length := by
    rw [sectionSize_append (by omega), hlen]
  rw [Assembler.start, if_neg (by rw [List.length_append]; omega), hsize,
    if_pos (by rw [List.length_append]; omega), List.take_left, List.drop_left]

/-- A section cut by the end of the packet is in progress. -/
theorem start_cut (hs : IsSection s) (hn : n < s.length) :
    a.start (s.take n) pid cc = a.setPart (inProgress (s.take n) (s.drop n) pid cc) := by
  have hlen : (s.take n).length = n := by
    rw [List.length_take]
    omega
  have hrest : s.drop n ≠ [] := by
    rw [ne_eq, List.drop_eq_nil_iff]
    omega
  rw [Assembler.start, inProgress, if_neg hrest, hlen, List.take_append_drop]
  by_cases h3 : n < 3
  · rw [if_pos h3, if_pos h3]
  · rw [if_neg h3, if_neg h3, sectionSize_take (by omega), ← hs.length, if_neg (by omega)]

theorem byteAt_flatten_cons (hs : IsSection s) (tail : List UInt8) :
    byteAt (s ++ tail) 0 = tableId s := by
  have := hs.atLeast
  exact byteAt_append_left (by omega)

/-- Sections back to back, then something that is not stuffing. -/
theorem start_flatten {tail : List UInt8} (hs : ∀ s ∈ starts, IsSection s) (hne : tail ≠ [])
    (htail : byteAt tail 0 ≠ 0xff) :
    a.start (starts.flatten ++ tail) pid cc =
      (starts.foldl Assembler.complete a).start tail pid cc := by
  induction starts generalizing a with
  | nil => rfl
  | cons s starts ih =>
    have hnext : ¬ (starts.flatten ++ tail = [] ∨ byteAt (starts.flatten ++ tail) 0 = 0xff) := by
      cases starts with
      | nil => simp [hne, htail]
      | cons t more =>
        have ht := hs t (by simp)
        rw [List.flatten_cons, List.append_assoc, byteAt_flatten_cons ht]
        simp [hne, ht.notStuffing]
    rw [List.flatten_cons, List.append_assoc, start_section (hs s List.mem_cons_self).length,
      if_neg hnext, ih (fun t ht => hs t (List.mem_cons_of_mem _ ht)), List.foldl_cons]

/-- Sections back to back, then the end of the packet or stuffing. -/
theorem start_flatten_end {tail : List UInt8} (hs : ∀ s ∈ starts, IsSection s) (hne : starts ≠ [])
    (htail : tail = [] ∨ byteAt tail 0 = 0xff) :
    a.start (starts.flatten ++ tail) pid cc = starts.foldl Assembler.complete a := by
  have hlast := List.dropLast_append_getLast hne
  have hmem := hs _ (List.getLast_mem hne)
  have hlen := hmem.atLeast
  have hfirst : byteAt (starts.getLast hne ++ tail) 0 ≠ 0xff := by
    rw [byteAt_flatten_cons hmem]
    exact hmem.notStuffing
  have hnil : starts.getLast hne ++ tail ≠ [] := by
    intro h
    rw [List.append_eq_nil_iff] at h
    rw [h.1, List.length_nil] at hlen
    omega
  conv_lhs => rw [← hlast]
  conv_rhs => rw [← hlast]
  rw [List.flatten_append, List.flatten_singleton, List.append_assoc,
    start_flatten (fun t ht => hs t (List.dropLast_subset _ ht)) hnil hfirst,
    start_section hmem.length, if_pos htail, List.foldl_append]
  rfl

theorem byteAt_stuffing {k : Nat} (hk : 0 < k) (xs : List UInt8) :
    byteAt (List.replicate k 0xff ++ xs) 0 = 0xff := by
  cases k with
  | zero => omega
  | succ k => rfl

/-- A payload that holds `n` bytes for the section in progress. -/
theorem grow_pad (hs : (sent ++ rest).length ≤ 4096) (hne : rest ≠ []) :
    a.grow sent (pad n rest) (sent ++ rest).length pid cc =
      if rest.length ≤ n then a.complete (sent ++ rest)
      else a.setPart (.body (sent ++ rest.take n) (sent ++ rest).length pid cc) := by
  rw [List.length_append] at hs ⊢
  have hpos : 0 < rest.length := List.length_pos_iff.mpr hne
  have htake : (pad n rest).take (min (sent.length + rest.length - sent.length)
      (maxTsSize - sent.length)) = rest.take n := by
    rw [show min (sent.length + rest.length - sent.length) (maxTsSize - sent.length) = rest.length by
      simp only [maxTsSize]; omega, pad]
    by_cases hn : rest.length ≤ n
    · rw [List.take_of_length_le hn, List.take_left]
    · rw [show n - rest.length = 0 by omega, List.replicate_zero, List.append_nil,
        List.take_of_length_le (by rw [List.length_take]; omega)]
  rw [Assembler.grow, htake]
  by_cases hn : rest.length ≤ n
  · rw [if_pos (by simp only [List.length_append, List.length_take]; omega), if_pos hn,
      List.take_of_length_le hn]
  · rw [if_neg (by simp only [List.length_append, List.length_take]; omega), if_neg hn]

/-- A payload with the rest of the section in progress, or with as much of it as fits. -/
theorem append_pad {c : Nat} (hpart : a.part = inProgress sent rest pid c)
    (hcc : (c + 1) % 16 = cc) (hs : rest ≠ [] → IsSection (sent ++ rest))
    (hn : rest.length ≤ n ∨ 3 ≤ n) :
    a.append (pad n rest) pid cc =
      if rest = [] then a
      else if rest.length ≤ n then a.complete (sent ++ rest)
      else a.setPart (inProgress (sent ++ rest.take n) (rest.drop n) pid cc) := by
  by_cases hrest : rest = []
  · rw [if_pos hrest, Assembler.append, hpart, inProgress, if_pos hrest]
  have hsec := hs hrest
  have hat := hsec.atLeast
  have hdup : c ≠ cc := by omega
  have hnext : ¬ ((c + 1) % 16 ≠ cc ∨ pid ≠ pid) := by simp [hcc]
  have hcut : ∀ h : ¬ rest.length ≤ n, inProgress (sent ++ rest.take n) (rest.drop n) pid cc =
      .body (sent ++ rest.take n) (sent ++ rest).length pid cc := by
    intro h
    rw [inProgress, if_neg (by rw [List.drop_eq_nil_iff]; exact h),
      if_neg (by simp only [List.length_append, List.length_take]; omega), List.append_assoc,
      List.take_append_drop]
  rw [if_neg hrest, Assembler.append, hpart, inProgress, if_neg hrest]
  rw [List.length_append] at hat
  by_cases h3 : sent.length < 3
  · have hsize : sectionSize (sent ++ pad n rest) = (sent ++ rest).length := by
      have htake : (sent ++ pad n rest).take 3 = (sent ++ rest).take 3 := by
        rw [List.take_append, List.take_append]
        congr 1
        rw [pad, List.take_append_of_le_length (by rw [List.length_take]; omega), List.take_take]
        congr 1
        omega
      rw [← sectionSize_take (Nat.le_refl 3), htake, sectionSize_take (Nat.le_refl 3), hsec.length]
    simp only [if_pos h3, length_pad]
    rw [if_neg hdup, if_neg hnext, if_neg (by omega), hsize, grow_pad hsec.atMost hrest]
    split
    · rfl
    · next h => rw [hcut h]
  · simp only [if_neg h3]
    rw [if_neg hdup, if_neg hnext, grow_pad hsec.atMost hrest]
    split
    · rfl
    · next h => rw [hcut h]

theorem flatten_dropLast (hne : starts ≠ []) :
    starts.flatten = starts.dropLast.flatten ++ starts.getLast hne := by
  conv_lhs => rw [← List.dropLast_append_getLast hne]
  rw [List.flatten_append, List.flatten_singleton]

/-- The sections that start in a packet, of which the last may be cut. -/
theorem start_pad (hs : ∀ s ∈ starts, IsSection s) (hne : starts ≠ [])
    (hfit : starts.dropLast.flatten.length < n) :
    a.start (pad n starts.flatten) pid cc =
      if starts.flatten.length ≤ n then starts.foldl Assembler.complete a
      else (starts.dropLast.foldl Assembler.complete a).setPart
        (inProgress ((starts.getLast hne).take (n - starts.dropLast.flatten.length))
          ((starts.getLast hne).drop (n - starts.dropLast.flatten.length)) pid cc) := by
  by_cases hn : starts.flatten.length ≤ n
  · rw [if_pos hn, pad, List.take_of_length_le hn, start_flatten_end hs hne]
    by_cases hz : n - starts.flatten.length = 0
    · exact Or.inl (by rw [hz, List.replicate_zero])
    · right
      have := byteAt_stuffing (Nat.pos_of_ne_zero hz) []
      rwa [List.append_nil] at this
  · have hlast := hs _ (List.getLast_mem hne)
    have hat := hlast.atLeast
    have hsplit := congrArg List.length (flatten_dropLast hne)
    rw [List.length_append] at hsplit
    have htake : starts.flatten.take n = starts.dropLast.flatten ++
        (starts.getLast hne).take (n - starts.dropLast.flatten.length) := by
      rw [flatten_dropLast hne, List.take_append, List.take_of_length_le (by omega)]
    have hcutLen : ((starts.getLast hne).take (n - starts.dropLast.flatten.length)).length =
        n - starts.dropLast.flatten.length := by
      rw [List.length_take]
      omega
    rw [if_neg hn, pad, show n - starts.flatten.length = 0 by omega, List.replicate_zero,
      List.append_nil, htake, start_flatten (fun t ht => hs t (List.dropLast_subset _ ht)),
      start_cut hlast (by omega)]
    · intro hnil
      rw [hnil, List.length_nil] at hcutLen
      omega
    · rw [byteAt_take (by omega)]
      exact hlast.notStuffing

theorem length_tail_flatten_le (xs : List (List UInt8)) :
    xs.tail.flatten.length ≤ xs.flatten.length := by
  cases xs with
  | nil => exact Nat.le_refl _
  | cons x xs =>
    rw [List.tail_cons, List.flatten_cons, List.length_append]
    omega

theorem append_pending {c : Nat} (hpart : a.part = inProgress sent rest pid c)
    (hcc : (c + 1) % 16 = cc) (hs : rest ≠ [] → IsSection (sent ++ rest)) :
    (if rest.length ≠ 0 then a.append rest pid cc else a) =
      (pending sent rest).foldl Assembler.complete a := by
  unfold pending
  by_cases hrest : rest = []
  · rw [if_neg (by simp [hrest]), if_pos hrest]
    rfl
  · have hpad : pad rest.length rest = rest := by simp [pad]
    have happ := append_pad (n := rest.length) hpart hcc hs (Or.inl (Nat.le_refl _))
    rw [hpad, if_neg hrest, if_pos (Nat.le_refl _)] at happ
    rw [if_pos (by simp [hrest]), if_neg hrest, happ]
    rfl

theorem pending_accepted (hs : rest ≠ [] → IsSection (sent ++ rest)) :
    ∀ s ∈ pending sent rest, Accepted s := by
  intro s hmem
  unfold pending at hmem
  split at hmem
  · cases hmem
  · next h =>
    rw [List.mem_singleton] at hmem
    rw [hmem]
    exact (hs h).accepted

theorem payload_drop {p : Packet} {i j len : Nat} :
    payload p (i + j) len = ((p.cells.drop i).drop j).take len := by
  rw [payload, List.drop_drop]

theorem pad_append_take {xs ys : List UInt8} (h : xs.length ≤ n) :
    (pad n (xs ++ ys)).take xs.length = xs := by
  rw [pad, List.take_append_of_le_length (by simp; omega), List.take_take, Nat.min_eq_left h,
    List.take_left]

theorem pad_append_drop {xs ys : List UInt8} (h : xs.length ≤ n) :
    (pad n (xs ++ ys)).drop xs.length = pad (n - xs.length) ys := by
  rw [pad, List.drop_append_of_le_length (by simp; omega), List.drop_take, List.drop_left, pad,
    List.length_append, Nat.sub_sub]

/-- A packet in which no section starts. -/
theorem add_continue {p : Packet} {c : Nat} (h : Cuts p pid cc rest [])
    (hpart : a.part = inProgress sent rest pid c) (hcc : (c + 1) % 16 = cc)
    (hs : rest ≠ [] → IsSection (sent ++ rest)) :
    a.add p 4 = if rest = [] then a
      else if rest.length ≤ 184 then a.complete (sent ++ rest)
      else a.setPart (inProgress (sent ++ rest.take 184) (rest.drop 184) pid cc) := by
  have hstart : ¬ payloadUnitStartIndicator p.cells = true := fun hc => h.startIndicator.mp hc rfl
  have hpay : payload p 4 184 = pad 184 rest := by
    have hp := h.payload
    rw [if_pos rfl, List.nil_append, List.flatten_nil, List.append_nil, room, if_pos rfl] at hp
    rw [payload, hp, List.take_of_length_le (Nat.le_of_eq (length_pad _ _))]
  unfold Assembler.add
  rw [if_neg hstart, h.pid, h.counter, hpay, append_pad hpart hcc hs (Or.inr (by decide))]

/-- A packet in which the sections `starts` start. -/
theorem add_starts {p : Packet} {c : Nat} (h : Cuts p pid cc rest starts) (hne : starts ≠ [])
    (hpart : a.part = inProgress sent rest pid c) (hcc : (c + 1) % 16 = cc)
    (hs : rest ≠ [] → IsSection (sent ++ rest)) :
    a.add p 4 = ((pending sent rest).foldl Assembler.complete a).start
      (pad (183 - rest.length) starts.flatten) pid cc := by
  have hfit := h.startsFit hne
  rw [List.length_append] at hfit
  have hp := h.payload
  rw [if_neg hne, room, if_neg hne, List.singleton_append] at hp
  have hpointer : (byteAt p.cells 4).toNat = rest.length := by
    have h4 : byteAt (p.cells.drop 4) 0 = byteAt p.cells 4 := by simp [byteAt]
    rw [← h4, hp]
    simp only [byteAt, List.getD_cons_zero, UInt8.toNat_ofNat']
    omega
  have hnotBig : ¬ PointerTooBig p 4 := by
    unfold PointerTooBig
    omega
  have hend : payload p (4 + 1) rest.length = rest := by
    rw [payload_drop, hp, List.drop_one, List.tail_cons, pad_append_take (by omega)]
  have hstarts : payload p (4 + 1 + rest.length) (188 - (4 + 1 + rest.length)) =
      pad (183 - rest.length) starts.flatten := by
    rw [Nat.add_assoc, payload_drop, hp, Nat.add_comm 1, List.drop_succ_cons,
      pad_append_drop (by omega), List.take_of_length_le (by rw [length_pad]; omega)]
  unfold Assembler.add
  rw [if_pos (h.startIndicator.mpr hne), if_neg hnotBig, hpointer, hend, hstarts, h.pid, h.counter,
    append_pending hpart hcc hs]

/-- What one packet adds: `done` are the sections that end in it, all but the first of them
inside it, and what is left of the last section is in progress. -/
def Adds (a : Assembler) (p : Packet) (pid cc : Nat) (sent rest : List UInt8)
    (starts : List (List UInt8)) : Prop :=
  ∃ done sent', pending sent rest ++ starts = done ++ pending sent' (leftOver rest starts) ∧
    done.length ≤ 8 ∧ done.tail.flatten.length ≤ 184 ∧
    (Fits (a.store ++ done) →
      a.add p 4 = ⟨a.store ++ done, inProgress sent' (leftOver rest starts) pid cc⟩)

/-- The same with the number of the sections that end. -/
def Ends (a : Assembler) (p : Packet) (pid cc : Nat) (sent rest : List UInt8)
    (starts : List (List UInt8)) : Prop :=
  ∃ done sent', pending sent rest ++ starts = done ++ pending sent' (leftOver rest starts) ∧
    done.length = completions rest starts ∧ done.tail.flatten.length ≤ 184 ∧
    (Fits (a.store ++ done) →
      a.add p 4 = ⟨a.store ++ done, inProgress sent' (leftOver rest starts) pid cc⟩)

theorem ends_continue {p : Packet} {c : Nat} (h : Cuts p pid cc rest [])
    (hpart : a.part = inProgress sent rest pid c) (hcc : (c + 1) % 16 = cc)
    (hs : rest ≠ [] → IsSection (sent ++ rest)) : Ends a p pid cc sent rest [] := by
  have hadd := add_continue h hpart hcc hs
  have hleft : leftOver rest [] = rest.drop 184 := by simp [leftOver, room]
  rw [Ends, hleft, List.append_nil, completions, hleft]
  by_cases hrest : rest = []
  · refine ⟨[], sent, by simp [pending, hrest], by simp [hrest], by simp, fun _ => ?_⟩
    rw [hadd, if_pos hrest, List.append_nil, hrest, List.drop_nil, inProgress, if_pos rfl]
    rw [inProgress, if_pos hrest] at hpart
    rw [← hpart]
  · rw [if_neg hrest] at hadd
    by_cases hlen : rest.length ≤ 184
    · have hdrop : rest.drop 184 = [] := List.drop_eq_nil_iff.mpr hlen
      refine ⟨[sent ++ rest], [], by simp [pending, hrest, hdrop], by simp [hrest, hdrop], by simp,
        fun hfit => ?_⟩
      rw [hadd, if_pos hlen, complete_fits (hs hrest).accepted hfit, hdrop, inProgress, if_pos rfl]
    · have hdrop : rest.drop 184 ≠ [] := by
        rw [ne_eq, List.drop_eq_nil_iff]
        exact hlen
      refine ⟨[], sent ++ rest.take 184, ?_, by simp [hrest, hdrop], by simp, fun _ => ?_⟩
      · rw [pending, pending, if_neg hrest, if_neg hdrop, List.append_assoc, List.take_append_drop]
        rfl
      · rw [hadd, if_neg hlen, List.append_nil]
        rfl

theorem length_pending_append :
    (pending sent rest ++ starts).length = (if rest = [] then 0 else 1) + starts.length := by
  rw [List.length_append, pending]
  split <;> rfl

/-- Only the first section that ends in a packet may have begun before it. -/
theorem length_tail_pending_append {whole : List (List UInt8)} (h : whole.flatten.length ≤ n) :
    (pending sent rest ++ whole).tail.flatten.length ≤ n := by
  unfold pending
  split
  · exact Nat.le_trans (length_tail_flatten_le whole) h
  · exact h

theorem pending_append_accepted {whole : List (List UInt8)}
    (hs : rest ≠ [] → IsSection (sent ++ rest)) (hss : ∀ s ∈ whole, IsSection s) :
    ∀ s ∈ pending sent rest ++ whole, Accepted s := by
  intro s hmem
  rcases List.mem_append.mp hmem with hmem | hmem
  · exact pending_accepted hs s hmem
  · exact (hss s hmem).accepted

theorem ends_starts {p : Packet} {c : Nat} (h : Cuts p pid cc rest starts) (hne : starts ≠ [])
    (hpart : a.part = inProgress sent rest pid c) (hcc : (c + 1) % 16 = cc)
    (hs : rest ≠ [] → IsSection (sent ++ rest)) (hss : ∀ s ∈ starts, IsSection s) :
    Ends a p pid cc sent rest starts := by
  have hfit := h.startsFit hne
  have hsplit := congrArg List.length (flatten_dropLast hne)
  rw [List.length_append] at hfit hsplit
  have hadd := add_starts h hne hpart hcc hs
  rw [start_pad hss hne (by omega)] at hadd
  have hleft : leftOver rest starts = starts.flatten.drop (183 - rest.length) := by
    rw [leftOver, room, if_neg hne, List.drop_append, List.drop_of_length_le (by omega),
      List.nil_append]
  rw [Ends, completions]
  by_cases hall : starts.flatten.length ≤ 183 - rest.length
  · have hnil : leftOver rest starts = [] := by
      rw [hleft, List.drop_eq_nil_iff]
      exact hall
    refine ⟨pending sent rest ++ starts, [], ?_, ?_, length_tail_pending_append (by omega),
      fun hroom => ?_⟩
    · rw [hnil, show pending [] [] = [] from rfl, List.append_nil]
    · rw [length_pending_append, if_pos hnil, Nat.sub_zero]
    · rw [hadd, if_pos hall, ← List.foldl_append,
        foldl_complete (pending_append_accepted hs hss) hroom, if_neg (by simp [hne]), hnil,
        inProgress, if_pos rfl]
  · have hk : leftOver rest starts = (starts.getLast hne).drop
        (183 - rest.length - starts.dropLast.flatten.length) := by
      rw [hleft, flatten_dropLast hne, List.drop_append, List.drop_of_length_le (by omega),
        List.nil_append]
    have hcut : leftOver rest starts ≠ [] := by
      rw [hk, ne_eq, List.drop_eq_nil_iff]
      omega
    refine ⟨pending sent rest ++ starts.dropLast, (starts.getLast hne).take
      (183 - rest.length - starts.dropLast.flatten.length), ?_, ?_,
      length_tail_pending_append (by omega), fun hroom => ?_⟩
    · rw [pending, pending, if_neg hcut, hk, List.take_append_drop, List.append_assoc,
        List.dropLast_append_getLast hne]
    · have hpos := List.length_pos_iff.mpr hne
      rw [length_pending_append, List.length_dropLast, if_neg hcut]
      omega
    · rw [hadd, if_neg hall, ← List.foldl_append, foldl_complete
        (pending_append_accepted hs (fun t ht => hss t (List.dropLast_subset _ ht))) hroom, ← hk]
      rfl

theorem ends_cuts {p : Packet} {c : Nat} (h : Cuts p pid cc rest starts)
    (hpart : a.part = inProgress sent rest pid c) (hcc : (c + 1) % 16 = cc)
    (hs : rest ≠ [] → IsSection (sent ++ rest)) (hss : ∀ s ∈ starts, IsSection s) :
    Ends a p pid cc sent rest starts := by
  by_cases hne : starts = []
  · subst hne
    exact ends_continue h hpart hcc hs
  · exact ends_starts h hne hpart hcc hs hss

theorem adds_carries {p : Packet} {c : Nat} (h : Carries p pid cc rest starts)
    (hpart : a.part = inProgress sent rest pid c) (hcc : (c + 1) % 16 = cc)
    (hs : rest ≠ [] → IsSection (sent ++ rest)) (hss : ∀ s ∈ starts, IsSection s) :
    Adds a p pid cc sent rest starts := by
  have hcount := h.completions
  obtain ⟨done, sent', hsplit, hlen, htail, hadd⟩ := ends_cuts h.cuts hpart hcc hs hss
  exact ⟨done, sent', hsplit, by omega, htail, hadd⟩

variable {pkt : MumudvbTsPacket}

/-- Popping until nothing is left hands out the whole store. -/
theorem takeSections_drain (h : RepInvariant pkt) (fuel : Nat)
    (hfuel : (view pkt).store.length < fuel) :
    ∃ pkt', takeSections fuel none pkt = .ok ((view pkt).store, pkt') ∧ RepInvariant pkt' ∧
      view pkt' = ⟨[], (view pkt).part⟩ := by
  induction fuel generalizing pkt with
  | zero => omega
  | succ fuel ih =>
    obtain ⟨pkt₁, hcall, hinv₁, hview₁, hfull₁⟩ := getTsPacket_spec h none
    rw [takeSections, hcall, bind_ok]
    cases hstore : (view pkt).store with
    | nil =>
      refine ⟨pkt₁, by simp [Assembler.call, hstore], hinv₁, ?_⟩
      simp [hview₁, Assembler.call, Assembler.pop, hstore]
    | cons s later =>
      rw [hstore, List.length_cons] at hfuel
      have hpop : view pkt₁ = ⟨later, (view pkt).part⟩ := by
        rw [hview₁, Assembler.call, Assembler.pop, hstore, List.tail_cons]
      obtain ⟨pkt', hdrain, hinv, hview⟩ := ih hinv₁ (by rw [hpop]; simp only; omega)
      rw [hpop] at hdrain hview
      refine ⟨pkt', ?_, hinv, hview⟩
      simp [Assembler.call, hstore, hdrain, hfull₁ s (by rw [hstore]; rfl)]

/-- The loop of a caller on a packet: a store that was not empty is handed out whole, with what
the packet completed; else the sections of the packet stay in the store. -/
theorem takeSections_packet (h : RepInvariant pkt) {p : Packet} {b : Assembler} (fuel : Nat)
    (hfuel : 15 < fuel)
    (hcall : (view pkt).call (some p) = (decide ((view pkt).store ≠ []), b)) :
    ∃ pkt', RepInvariant pkt' ∧
      ((view pkt).store = [] ∧ takeSections (fuel + 1) (some p) pkt = .ok ([], pkt') ∧ view pkt' = b ∨
      ∃ s later, (view pkt).store = s :: later ∧
        takeSections (fuel + 1) (some p) pkt = .ok (s :: b.store, pkt') ∧
        view pkt' = ⟨[], b.part⟩) := by
  obtain ⟨pkt₁, hget, hinv₁, hview₁, hfull₁⟩ := getTsPacket_spec h (some p)
  rw [hcall] at hget hview₁
  cases hstore : (view pkt).store with
  | nil =>
    refine ⟨pkt₁, hinv₁, Or.inl ⟨rfl, ?_, hview₁⟩⟩
    simp [takeSections, hget, hstore]
  | cons s later =>
    have hmax := hinv₁.fullNumber
    obtain ⟨pkt', hdrain, hinv, hview⟩ := takeSections_drain hinv₁ fuel
      (by rw [length_store hinv₁.toStoreInvariant]; omega)
    rw [hview₁] at hdrain hview
    refine ⟨pkt', hinv, Or.inr ⟨s, later, rfl, ?_, hview⟩⟩
    simp [takeSections, hget, hstore, hdrain, hfull₁ s (by rw [hstore]; rfl)]

/-- The loop of a caller on any packet returns. -/
theorem takeSections_ok (h : RepInvariant pkt) (p : Packet) :
    ∃ r, takeSections takeFuel (some p) pkt = .ok r := by
  obtain ⟨pkt₁, hget, hinv₁, _, _⟩ := getTsPacket_spec h (some p)
  have hmax := hinv₁.fullNumber
  obtain ⟨pkt', hdrain, _⟩ := takeSections_drain hinv₁ 16
    (by rw [length_store hinv₁.toStoreInvariant]; omega)
  rw [show takeFuel = 16 + 1 from rfl, takeSections, hget, bind_ok]
  cases ((view pkt).call (some p)).1 with
  | false => exact ⟨_, rfl⟩
  | true => exact ⟨_, by simp only [if_true, hdrain, bind_ok]; rfl⟩

theorem payloadStart_cuts {p : Packet} (h : Cuts p pid cc rest starts)
    (hpes : (p.cells.drop 4).take 3 ≠ [0x00, 0x00, 0x01]) : payloadStart p = some 4 := by
  simp [payloadStart, h.adaptationField, hpes]

theorem call_carries {p : Packet} (h : Carries p pid cc rest starts) :
    a.call (some p) = (decide (a.store ≠ []), a.pop.add p 4) := by
  have hoff : payloadStart p = some 4 := payloadStart_cuts h.cuts h.noPes
  have hsmall : ¬ (payloadUnitStartIndicator p.cells = true ∧ PointerTooBig p 4) := by
    rintro ⟨hstart, hne, hbig⟩
    have hstarts := h.startIndicator.mp hstart
    have hfit := h.startsFit hstarts
    have hp := h.payload
    rw [if_neg hstarts, List.singleton_append] at hp
    have h4 : byteAt (p.cells.drop 4) 0 = byteAt p.cells 4 := by simp [byteAt]
    rw [← h4, hp] at hbig
    simp only [byteAt, List.getD_cons_zero, UInt8.toNat_ofNat', List.length_append] at hbig hfit
    omega
  simp only [Assembler.call, hoff]
  rw [if_neg hsmall]

/-- A store that a caller leaves between two packets: the sections of one packet at most. -/
structure SmallStore (store : List (List UInt8)) : Prop where
  length : store.length ≤ 8
  tail : store.tail.flatten.length ≤ 184

theorem fits_append {store done : List (List UInt8)} (h : SmallStore store)
    (hlen : done.length ≤ 8) (htail : done.tail.flatten.length ≤ 184)
    (hmax : ∀ s ∈ done, s.length ≤ 4096) : Fits (store.tail ++ done) := by
  have hl := h.length
  have ht := h.tail
  constructor
  · rw [List.length_append, List.length_tail]
    omega
  · rw [List.flatten_append, List.length_append]
    cases done with
    | nil =>
      rw [List.flatten_nil, List.length_nil]
      omega
    | cons s done =>
      have hs := hmax s List.mem_cons_self
      rw [List.tail_cons] at htail
      rw [List.flatten_cons, List.length_append]
      omega

theorem mem_pending_isSection {t : List UInt8} (hs : rest ≠ [] → IsSection (sent ++ rest))
    (ht : t ∈ pending sent rest) : IsSection t := by
  unfold pending at ht
  split at ht
  · cases ht
  · next h =>
    rw [List.mem_singleton] at ht
    rw [ht]
    exact hs h

/-- The stream: what is stored, what is in progress and what is to come is handed out in order. -/
theorem takeStream_packetised {sent : List UInt8} {todo : List (List UInt8)} {packets : List Packet}
    (hp : Packetised pid cc rest todo packets) (h : RepInvariant pkt) {c : Nat}
    (hpart : (view pkt).part = inProgress sent rest pid c) (hcc : cc < 16 → (c + 1) % 16 = cc)
    (hs : rest ≠ [] → IsSection (sent ++ rest)) (htodo : ∀ s ∈ todo, IsSection s)
    (hstore : SmallStore (view pkt).store) :
    ∃ pkt', takeStream packets pkt =
      .ok ((view pkt).store ++ (pending sent rest ++ todo), pkt') := by
  induction hp generalizing pkt sent c with
  | done cc =>
    have hlen := hstore.length
    obtain ⟨pkt', hdrain, _⟩ := takeSections_drain h takeFuel
      (by simp only [takeFuel, maxFullPackets]; omega)
    exact ⟨pkt', by rw [takeStream, hdrain]; simp [pending]⟩
  | @packet cc rest starts todo p packets hcar _ ih =>
    have hcc16 : cc < 16 := by
      rw [← hcar.counter]
      exact Nat.mod_lt _ (by decide)
    obtain ⟨done, sent', hsplit, hlen, htail, hadd⟩ := adds_carries (a := (view pkt).pop) hcar hpart
      (hcc hcc16) hs (fun t ht => htodo t (List.mem_append_left _ ht))
    have hsec : ∀ t ∈ done ++ pending sent' (leftOver rest starts), IsSection t := by
      intro t ht
      rw [← hsplit] at ht
      rcases List.mem_append.mp ht with ht | ht
      · exact mem_pending_isSection hs ht
      · exact htodo t (List.mem_append_left _ ht)
    have hfit : Fits ((view pkt).store.tail ++ done) := fits_append hstore hlen htail
      (fun t ht => (hsec t (List.mem_append_left _ ht)).atMost)
    have hs' : leftOver rest starts ≠ [] → IsSection (sent' ++ leftOver rest starts) := by
      intro hne
      exact hsec _ (List.mem_append_right _ (by simp [pending, hne]))
    have hcall := call_carries (a := view pkt) hcar
    rw [hadd hfit] at hcall
    have htodo' : ∀ t ∈ todo, IsSection t := fun t ht => htodo t (List.mem_append_right _ ht)
    obtain ⟨pkt₁, hinv₁, hcase⟩ := takeSections_packet h 16 (by decide) hcall
    rcases hcase with ⟨hnil, htake, hview⟩ | ⟨s, later, hcons, htake, hview⟩
    · obtain ⟨pkt', hstream⟩ := ih (c := cc) hinv₁ (by rw [hview])
        (fun _ => rfl) hs' htodo' (by
          rw [hview]
          exact ⟨by simpa [Assembler.pop, hnil] using hlen,
            by simpa [Assembler.pop, hnil] using htail⟩)
      refine ⟨pkt', ?_⟩
      rw [takeStream, htake, bind_ok]
      simp only [hstream, hview, hnil, Assembler.pop, List.tail_nil, List.nil_append, bind_ok,
        pure_ok]
      rw [← List.append_assoc, ← hsplit, List.append_assoc]
    · obtain ⟨pkt', hstream⟩ := ih (c := cc) hinv₁ (by rw [hview])
        (fun _ => rfl) hs' htodo' (by rw [hview]; exact ⟨by simp, by simp⟩)
      refine ⟨pkt', ?_⟩
      rw [takeStream, htake, bind_ok]
      simp only [hstream, hview, hcons, Assembler.pop, List.tail_cons, List.nil_append, bind_ok,
        pure_ok]
      rw [← List.append_assoc (pending sent rest), hsplit]
      simp

/-- From the zeroed structure, the sections handed out are the sections that were packetised,
each once and in order. -/
theorem takeStream_zeroed {sections : List (List UInt8)} {packets : List Packet}
    (hs : ∀ s ∈ sections, IsSection s) (hp : Packetised pid cc [] sections packets) :
    ∃ pkt', takeStream packets zeroed = .ok (sections, pkt') :=
  takeStream_packetised (c := (cc + 15) % 16) hp zeroed_repInvariant
    (show (view zeroed).part = inProgress [] [] pid _ from rfl)
    (fun _ => by omega) (fun h => absurd rfl h) hs ⟨by simp [empty], by simp [empty]⟩

/-- A PAT without programs. -/
def emptyPat : List UInt8 :=
  [0x00, 0xb0, 0x09, 0x00, 0x01, 0xc1, 0x00, 0x00, 0xef, 0x22, 0x62, 0x17]

/-- The packet that carries it twice, back to back. -/
def emptyPatPacket : Packet :=
  ⟨[0x47, 0x40, 0x00, 0x13, 0x00] ++ pad 183 (emptyPat ++ emptyPat), by simp⟩

theorem emptyPat_isSection : IsSection emptyPat :=
  ⟨by decide, by decide, by decide, by decide, by decide +kernel⟩

theorem emptyPatPacket_packetised :
    Packetised 0 3 [] [emptyPat, emptyPat] [emptyPatPacket] := by
  have hleft : leftOver [] [emptyPat, emptyPat] = [] := by decide
  refine @Packetised.packet 0 3 [] [emptyPat, emptyPat] [] _ _
    ⟨by decide, by decide, by decide, by decide, rfl, by decide, by decide, by decide⟩ ?_
  rw [hleft]
  exact .done _

theorem takeStream_emptyPatPacket :
    ∃ pkt', takeStream [emptyPatPacket] zeroed = .ok ([emptyPat, emptyPat], pkt') :=
  takeStream_zeroed (by simpa using emptyPat_isSection) emptyPatPacket_packetised

end MuMuDVB.TsReassembly
