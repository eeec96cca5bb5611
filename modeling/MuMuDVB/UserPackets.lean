import Mathlib.Data.List.Basic
import Mathlib.Data.List.TakeDrop

/-!
# Packets in a stream that is cut anywhere

A stream of packets of `n` elements, each with `gap` more elements behind it
that are dropped. A receiver puts a mark before every packet. It may take the
stream in blocks that are cut anywhere, as long as it knows for each block how
far the next packet is: what it makes of a stream and of one more block is what
it makes of both together.
-/
namespace UserPackets

variable {α : Type} {n gap : Nat}

/-- The packets of a stream, the last one possibly incomplete. -/
def cut (n gap : Nat) (xs : List α) : List (List α) :=
  if xs = [] ∨ n = 0 then [] else xs.take n :: cut n gap (xs.drop (n + gap))
termination_by xs.length
decreasing_by
  have hlen := List.length_pos_iff.mpr (not_or.mp ‹_›).1
  rw [List.length_drop]
  omega

/-- The packets, each behind a mark. -/
def marked (mark : α) (n gap : Nat) (xs : List α) : List α := (cut n gap xs).flatMap (mark :: ·)

/-- How far the next packet is, after `k` elements. -/
def toBoundary (n gap k : Nat) : Nat := (n + gap - k % (n + gap)) % (n + gap)

/-- The length of the marked packets of `k` elements. -/
def markedLength (n gap k : Nat) : Nat :=
  k / (n + gap) * (n + 1) + if k % (n + gap) = 0 then 0 else min (k % (n + gap)) n + 1

section cut

variable {mark : α} {xs ys : List α}

@[simp] theorem cut_nil : cut n gap ([] : List α) = [] := by
  rw [cut, if_pos (.inl rfl)]

theorem cut_of_ne (hn : 0 < n) (h : xs ≠ []) :
    cut n gap xs = xs.take n :: cut n gap (xs.drop (n + gap)) := by
  rw [cut, if_neg (by simp [h]; omega)]

@[simp] theorem marked_nil : marked mark n gap [] = [] := by
  rw [marked, cut_nil, List.flatMap_nil]

theorem marked_of_ne (hn : 0 < n) (h : xs ≠ []) :
    marked mark n gap xs = (mark :: xs.take n) ++ marked mark n gap (xs.drop (n + gap)) := by
  rw [marked, cut_of_ne hn h, List.flatMap_cons]
  rfl

theorem toBoundary_add (k : Nat) : toBoundary n gap (k + (n + gap)) = toBoundary n gap k := by
  rw [toBoundary, toBoundary, Nat.add_mod_right]

theorem toBoundary_of_lt {k : Nat} (h : 0 < k) (hk : k < n + gap) :
    toBoundary n gap k = n + gap - k := by
  rw [toBoundary, Nat.mod_eq_of_lt hk, Nat.mod_eq_of_lt (by omega)]

theorem toBoundary_zero : toBoundary n gap 0 = 0 := by
  rw [toBoundary, Nat.zero_mod, Nat.sub_zero, Nat.mod_self]

theorem toBoundary_lt (hn : 0 < n) (k : Nat) : toBoundary n gap k < n + gap :=
  Nat.mod_lt _ (by omega)

theorem add_toBoundary_mod (hn : 0 < n) (k : Nat) : (k + toBoundary n gap k) % (n + gap) = 0 := by
  have hlt : k % (n + gap) < n + gap := Nat.mod_lt _ (by omega)
  have hdiv := Nat.div_add_mod k (n + gap)
  have hsum : k + (n + gap - k % (n + gap)) = (n + gap) * (k / (n + gap) + 1) := by
    rw [Nat.mul_add_one]
    omega
  rw [toBoundary, Nat.add_mod_mod, hsum, Nat.mul_mod_right]

/-- From a packet on it is as at the start. -/
theorem toBoundary_from_boundary (hn : 0 < n) (k j : Nat) :
    toBoundary n gap (k + toBoundary n gap k + j) = toBoundary n gap j := by
  rw [toBoundary, Nat.add_mod, add_toBoundary_mod hn, Nat.zero_add, Nat.mod_mod, ← toBoundary]

/-- A stream by its length: nothing, one packet at most, or a packet and the rest. -/
theorem stream_induction {P : List α → Prop} (gap : Nat) (hn : 0 < n) (nil : P [])
    (short : ∀ xs, xs ≠ [] → xs.length < n + gap → P xs)
    (packet : ∀ xs, n + gap ≤ xs.length → P (xs.drop (n + gap)) → P xs) (xs : List α) : P xs := by
  induction hlen : xs.length using Nat.strongRecOn generalizing xs with
  | ind k ih =>
    by_cases hnil : xs = []
    case pos => exact hnil ▸ nil
    case neg =>
      by_cases hshort : xs.length < n + gap
      case pos => exact short xs hnil hshort
      case neg =>
        refine packet xs (by omega) (ih _ ?_ _ rfl)
        rw [List.length_drop]
        omega

/-- A stream and one more block, which reaches the next packet: the rest of the last packet, and
the packets from the next one on. -/
theorem marked_append (hn : 0 < n) (hys : toBoundary n gap xs.length ≤ ys.length) :
    marked mark n gap (xs ++ ys) = marked mark n gap xs ++
      (ys.take (toBoundary n gap xs.length - gap) ++
        marked mark n gap (ys.drop (toBoundary n gap xs.length))) := by
  induction xs using stream_induction gap hn with
  | nil => simp [toBoundary_zero]
  | short xs hne hlen =>
    have hpos := List.length_pos_iff.mpr hne
    rw [toBoundary_of_lt hpos hlen, show n + gap - xs.length - gap = n - xs.length by omega,
      marked_of_ne hn (List.append_ne_nil_of_left_ne_nil hne ys), marked_of_ne hn hne,
      List.take_append, List.drop_append, List.drop_of_length_le (Nat.le_of_lt hlen), marked_nil]
    simp
  | packet xs hlen ih =>
    have hne : xs ≠ [] := List.ne_nil_of_length_pos (by omega)
    have hboundary : toBoundary n gap (xs.drop (n + gap)).length = toBoundary n gap xs.length := by
      rw [List.length_drop, ← toBoundary_add (xs.length - (n + gap)), Nat.sub_add_cancel hlen]
    rw [hboundary] at ih
    rw [marked_of_ne hn (List.append_ne_nil_of_left_ne_nil hne ys), marked_of_ne hn hne,
      List.take_append_of_le_length (by omega), List.drop_append_of_le_length hlen, ih hys]
    simp only [List.append_assoc]

/-- A longer stream gives no less. -/
theorem length_marked_mono (hn : 0 < n) (h : xs <+: ys) :
    (marked mark n gap xs).length ≤ (marked mark n gap ys).length := by
  obtain ⟨zs, rfl⟩ := h
  induction xs using stream_induction gap hn with
  | nil => simp
  | short xs hne hlen =>
    rw [marked_of_ne hn (List.append_ne_nil_of_left_ne_nil hne zs), marked_of_ne hn hne,
      List.drop_of_length_le (Nat.le_of_lt hlen), marked_nil]
    simp
    omega
  | packet xs hlen ih =>
    have hne : xs ≠ [] := List.ne_nil_of_length_pos (by omega)
    rw [marked_of_ne hn (List.append_ne_nil_of_left_ne_nil hne zs), marked_of_ne hn hne,
      List.take_append_of_le_length (by omega), List.drop_append_of_le_length hlen]
    simp only [List.length_append]
    omega

/-- The marks are no more than the elements. -/
theorem length_marked_le (hn : 0 < n) : (marked mark n gap xs).length ≤ 2 * xs.length := by
  induction xs using stream_induction gap hn with
  | nil => simp
  | short xs hne hlen =>
    have hpos := List.length_pos_iff.mpr hne
    rw [marked_of_ne hn hne, List.drop_of_length_le (Nat.le_of_lt hlen), marked_nil]
    simp
    omega
  | packet xs hlen ih =>
    have hne : xs ≠ [] := List.ne_nil_of_length_pos (by omega)
    rw [marked_of_ne hn hne, List.length_append, List.length_cons, List.length_take]
    rw [List.length_drop] at ih
    omega

theorem markedLength_add (hn : 0 < n) (k : Nat) :
    markedLength n gap (k + (n + gap)) = n + 1 + markedLength n gap k := by
  rw [markedLength, markedLength, Nat.add_div_right _ (by omega), Nat.add_mod_right, Nat.add_mul]
  omega

theorem markedLength_of_lt {k : Nat} (h : 0 < k) (hk : k < n + gap) :
    markedLength n gap k = min k n + 1 := by
  rw [markedLength, Nat.div_eq_of_lt hk, Nat.mod_eq_of_lt hk, if_neg (by omega)]
  omega

theorem markedLength_zero : markedLength n gap 0 = 0 := by
  simp [markedLength]

theorem length_marked (hn : 0 < n) :
    (marked mark n gap xs).length = markedLength n gap xs.length := by
  induction xs using stream_induction gap hn with
  | nil => simp [markedLength_zero]
  | short xs hne hlen =>
    have hpos := List.length_pos_iff.mpr hne
    rw [marked_of_ne hn hne, List.drop_of_length_le (Nat.le_of_lt hlen), marked_nil,
      markedLength_of_lt hpos hlen]
    simp
    omega
  | packet xs hlen ih =>
    have hne : xs ≠ [] := List.ne_nil_of_length_pos (by omega)
    rw [marked_of_ne hn hne, List.length_append, ih, ← Nat.sub_add_cancel hlen, markedLength_add hn]
    simp
    omega

/-- The rest of the last packet ends at a multiple of the length of a marked packet. -/
theorem markedLength_rest (hn : 0 < n) (k : Nat) :
    (markedLength n gap k + (toBoundary n gap k - gap)) % (n + 1) = 0 := by
  induction k using Nat.strongRecOn with
  | ind k ih =>
    by_cases hk : n + gap ≤ k
    case pos =>
      have hih := ih (k - (n + gap)) (by omega)
      rw [← Nat.sub_add_cancel hk, markedLength_add hn, toBoundary_add, Nat.add_assoc,
        Nat.add_mod_left]
      exact hih
    case neg =>
      by_cases hzero : k = 0
      case pos => rw [hzero, markedLength_zero, toBoundary_zero, Nat.zero_sub, Nat.zero_mod]
      case neg =>
        have hsum : min k n + 1 + (n + gap - k - gap) = n + 1 := by omega
        rw [markedLength_of_lt (by omega) (by omega), toBoundary_of_lt (by omega) (by omega), hsum,
          Nat.mod_self]

section packets

variable {ps : List (List α × List α)}

/-- The stream of packets with what is dropped behind each. -/
def stream (ps : List (List α × List α)) : List α := ps.flatMap fun p => p.1 ++ p.2

/-- The first packet of a stream, with what stands behind it. -/
theorem stream_cons (p : List α × List α) (ps : List (List α × List α)) :
    stream (p :: ps) = (p.1 ++ p.2) ++ stream ps :=
  List.flatMap_cons

/-- As much of the stream as there is gives as much of the marked packets. -/
theorem marked_take_stream (hn : 0 < n) (hps : ∀ p ∈ ps, p.1.length = n ∧ p.2.length = gap)
    (k : Nat) : marked mark n gap ((stream ps).take k) =
      (ps.flatMap fun p => mark :: p.1).take (markedLength n gap k) := by
  induction ps generalizing k with
  | nil => simp [stream]
  | cons p ps ih =>
    rw [List.forall_mem_cons] at hps
    obtain ⟨⟨hp, hgap⟩, hps⟩ := hps
    have hlen : (p.1 ++ p.2).length = n + gap := by rw [List.length_append, hp, hgap]
    rw [stream_cons, List.flatMap_cons]
    by_cases hzero : k = 0
    case pos => simp [hzero, markedLength_zero]
    case neg =>
      have hne : ((p.1 ++ p.2) ++ stream ps).take k ≠ [] :=
        List.ne_nil_of_length_pos (by rw [List.length_take, List.length_append]; omega)
      have hfirst : (((p.1 ++ p.2) ++ stream ps).take k).take n = p.1.take k := by
        rw [List.take_take, List.append_assoc, List.take_append_of_le_length (by omega), ← hp,
          Nat.min_comm, ← List.take_eq_take_min]
      rw [marked_of_ne hn hne, hfirst]
      by_cases hk : n + gap ≤ k
      case pos =>
        have hall : p.1.take k = p.1 := List.take_of_length_le (by omega)
        have hlength : markedLength n gap k =
            (mark :: p.1).length + markedLength n gap (k - (n + gap)) := by
          rw [List.length_cons, hp, ← markedLength_add hn, Nat.sub_add_cancel hk]
        rw [List.drop_take, List.drop_left' hlen, ih hps, hall, hlength,
          List.take_length_add_append]
      case neg =>
        have hempty : (((p.1 ++ p.2) ++ stream ps).take k).drop (n + gap) = [] :=
          List.drop_of_length_le (by rw [List.length_take]; omega)
        rw [hempty, marked_nil, List.append_nil, markedLength_of_lt (by omega) (by omega),
          List.cons_append, List.take_succ_cons, List.take_append_of_le_length (by omega), ← hp,
          ← List.take_eq_take_min]

theorem drop_stream (hps : ∀ p ∈ ps, p.1.length = n ∧ p.2.length = gap) (j : Nat) :
    (stream ps).drop (j * (n + gap)) = stream (ps.drop j) := by
  induction j generalizing ps with
  | zero => simp
  | succ j ih =>
    cases ps with
    | nil => simp [stream]
    | cons p ps =>
      rw [List.forall_mem_cons] at hps
      obtain ⟨⟨hp, hgap⟩, hps⟩ := hps
      have hlen : (p.1 ++ p.2).length = n + gap := by rw [List.length_append, hp, hgap]
      rw [stream_cons, Nat.succ_mul, Nat.add_comm, ← List.drop_drop, List.drop_left' hlen, ih hps,
        List.drop_succ_cons]

end packets

end cut

end UserPackets
