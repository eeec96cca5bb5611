import Mathlib.Data.List.Basic

/-!
# Table-driven cyclic redundancy checks

The byte-at-a-time register update over an arbitrary table of 32-bit words, for
a register of any width. A wider register computes the same low 32 bits, and a
message followed by its own register, high byte first, leaves the register
zero: the only fact about the table that this needs is that its entry 0 is 0.
When no other entry has a low byte of zero, no other four bytes do so.
-/
namespace TableCrc

/-- The table index of one update: the low byte of the shifted register against the message byte. -/
def index {w : Nat} (crc : BitVec w) (b : UInt8) : BitVec 8 :=
  (crc >>> 24).setWidth 8 ^^^ b.toBitVec

/-- One update: shift out the high byte, add the table's word for it. -/
def step {w : Nat} (table : BitVec 8 → BitVec 32) (crc : BitVec w) (b : UInt8) : BitVec w :=
  (crc <<< 8) ^^^ (table (index crc b)).setWidth w

def remainder {w : Nat} (table : BitVec 8 → BitVec 32) (crc : BitVec w) (bytes : List UInt8) :
    BitVec w :=
  bytes.foldl (step table) crc

variable {table : BitVec 8 → BitVec 32} {w : Nat}

@[simp] theorem remainder_nil (crc : BitVec w) : remainder table crc [] = crc := rfl
@[simp] theorem remainder_cons (crc : BitVec w) (b : UInt8) (bytes : List UInt8) :
    remainder table crc (b :: bytes) = remainder table (step table crc b) bytes := rfl
theorem remainder_append (crc : BitVec w) (xs ys : List UInt8) :
    remainder table crc (xs ++ ys) = remainder table (remainder table crc xs) ys :=
  List.foldl_append

theorem index_setWidth (crc : BitVec w) (b : UInt8) :
    index (crc.setWidth 32) b = index crc b := by
  unfold index
  congr 1
  apply BitVec.eq_of_getLsbD_eq
  intro i hi
  have h : 24 + i < 32 := by omega
  simp [h, hi]

theorem step_setWidth (crc : BitVec w) (hw : 32 ≤ w) (b : UInt8) :
    (step table crc b).setWidth 32 = step table (crc.setWidth 32) b := by
  unfold step
  rw [index_setWidth crc]
  apply BitVec.eq_of_getLsbD_eq
  intro i hi
  have h : i < w := by omega
  by_cases h8 : i < 8
  · simp [hi, h, h8]
  · have h9 : i - 8 < 32 := by omega
    simp [hi, h, h8, -BitVec.getLsbD_eq_getElem, h9]

/-- The low 32 bits of a wider register follow the 32-bit register. -/
theorem remainder_setWidth (crc : BitVec w) (hw : 32 ≤ w) (bytes : List UInt8) :
    (remainder table crc bytes).setWidth 32 = remainder table (crc.setWidth 32) bytes := by
  induction bytes generalizing crc with
  | nil => rfl
  | cons b bytes ih => rw [remainder_cons, remainder_cons, ih, step_setWidth crc hw]

/-- The four low bytes of a register, high byte first. -/
def bytes (crc : BitVec w) : List UInt8 :=
  [⟨(crc >>> 24).setWidth 8⟩, ⟨(crc >>> 16).setWidth 8⟩, ⟨(crc >>> 8).setWidth 8⟩, ⟨crc.setWidth 8⟩]

@[simp] theorem length_bytes (crc : BitVec w) : (bytes crc).length = 4 := rfl

theorem bytes_setWidth (crc : BitVec w) : bytes (crc.setWidth 32) = bytes crc := by
  have h : ∀ k, k ≤ 24 → ((crc.setWidth 32) >>> k).setWidth 8 = (crc >>> k).setWidth 8 := by
    intro k hk
    apply BitVec.eq_of_getLsbD_eq
    intro i hi
    have h1 : k + i < 32 := by omega
    simp [h1, hi]
  have h0 := h 0 (by decide)
  simp only [BitVec.ushiftRight_zero] at h0
  simp only [bytes, h 24 (by decide), h 16 (by decide), h 8 (by decide), h0]

/-- A message byte equal to the register's high byte only shifts the register. -/
theorem step_high_byte (h0 : table 0 = 0) (crc : BitVec 32) :
    step table crc ⟨(crc >>> 24).setWidth 8⟩ = crc <<< 8 := by
  have hi : index crc ⟨(crc >>> 24).setWidth 8⟩ = 0 := BitVec.xor_self
  rw [step, hi, h0]
  simp

theorem shiftLeft_high_byte (crc : BitVec 32) (k : Nat) (hk : k ≤ 24) :
    (crc >>> (24 - k)).setWidth 8 = ((crc <<< k) >>> 24).setWidth 8 := by
  apply BitVec.eq_of_getLsbD_eq
  intro i hi
  have h1 : 24 + i < 32 := by omega
  have h2 : ¬ 24 + i < k := by omega
  have h3 : 24 + i - k = 24 - k + i := by omega
  simp [hi, h1, h2, h3, -BitVec.getLsbD_eq_getElem]

/-- A message followed by its register has remainder zero. -/
theorem remainder_append_bytes (h0 : table 0 = 0) (crc : BitVec 32) :
    remainder table crc (bytes crc) = 0 := by
  have h1 := step_high_byte h0 (crc <<< 8)
  have h2 := step_high_byte h0 (crc <<< 16)
  have h3 := step_high_byte h0 (crc <<< 24)
  rw [← shiftLeft_high_byte crc 8 (by decide), ← BitVec.shiftLeft_add] at h1
  rw [← shiftLeft_high_byte crc 16 (by decide), ← BitVec.shiftLeft_add] at h2
  rw [← shiftLeft_high_byte crc 24 (by decide), ← BitVec.shiftLeft_add] at h3
  simp only [Nat.reduceSub, Nat.reduceAdd, BitVec.ushiftRight_zero] at h1 h2 h3
  simp only [bytes, remainder_cons, remainder_nil, step_high_byte h0, h1, h2, h3]
  simp

/-- Only entry 0 of the table has a low byte of zero. -/
def LowBytes (table : BitVec 8 → BitVec 32) : Prop := ∀ i, (table i).setWidth 8 = 0#8 → i = 0

theorem xor_high_byte {crc : BitVec 32} {b : UInt8} (h : index crc b = 0) :
    b = ⟨(crc >>> 24).setWidth 8⟩ := by
  have := BitVec.xor_eq_zero_iff.mp h
  rw [this]

/-- A step to a register with low byte zero takes the register's high byte. -/
theorem step_low_byte (hlow : LowBytes table) {crc : BitVec 32} {b : UInt8}
    (h : (step table crc b).setWidth 8 = 0#8) : b = ⟨(crc >>> 24).setWidth 8⟩ := by
  refine xor_high_byte (hlow _ ?_)
  have hshift : (crc <<< 8).setWidth 8 = 0#8 := by
    apply BitVec.eq_of_getLsbD_eq
    intro i hi
    simp [hi]
  rw [step, BitVec.setWidth_xor, hshift, BitVec.zero_xor, BitVec.setWidth_setWidth_of_le] at h
  · exact h
  · decide

theorem low_byte_of_shiftLeft {crc : BitVec 32} {k : Nat} (hk : k ≤ 24) (h : crc <<< k = 0#32) :
    crc.setWidth 8 = 0#8 := by
  apply BitVec.eq_of_getLsbD_eq
  intro i hi
  have hbit := congrArg (fun x : BitVec 32 => x.getLsbD (i + k)) h
  have h1 : i + k < 32 := by omega
  simp only [BitVec.getLsbD_shiftLeft, h1, decide_true, Nat.add_sub_cancel, Bool.true_and,
    BitVec.getLsbD_zero, show ¬ i + k < k by omega, decide_false, Bool.not_false] at hbit
  simp [hi, hbit]

theorem bytes_shiftLeft (crc : BitVec 32) :
    bytes crc = ⟨(crc >>> 24).setWidth 8⟩ :: (bytes (crc <<< 8)).take 3 := by
  have h1 := shiftLeft_high_byte crc 8 (by decide)
  have h2 := shiftLeft_high_byte crc 16 (by decide)
  have h3 := shiftLeft_high_byte crc 24 (by decide)
  have hbits : ∀ k, k ≤ 16 → ((crc <<< 8) >>> (k + 8)).setWidth 8 = (crc >>> k).setWidth 8 := by
    intro k hk
    apply BitVec.eq_of_getLsbD_eq
    intro i hi
    have hsum : k + 8 + i < 32 := by omega
    have hlow : ¬ k + 8 + i < 8 := by omega
    have hsub : k + 8 + i - 8 = k + i := by omega
    simp [hi, hsum, hlow, hsub, -BitVec.getLsbD_eq_getElem]
  have h0 := hbits 0 (by decide)
  simp only [BitVec.ushiftRight_zero, Nat.zero_add] at h0
  simp only [bytes, List.take_succ_cons, List.take_zero, hbits 16 (by decide), hbits 8 (by decide),
    h0]

/-- A message of at most four bytes with remainder zero is the start of the register's bytes. -/
theorem remainder_eq_zero (h0 : table 0 = 0) (hlow : LowBytes table) {xs : List UInt8}
    {crc : BitVec 32} (hlen : xs.length ≤ 4) (h : remainder table crc xs = 0) :
    crc <<< (8 * xs.length) = 0#32 ∧ xs = (bytes crc).take xs.length := by
  induction xs generalizing crc with
  | nil =>
    refine ⟨?_, rfl⟩
    rw [remainder_nil] at h
    rw [h]
    rfl
  | cons b xs ih =>
    rw [List.length_cons] at hlen
    obtain ⟨hshift, hrest⟩ := ih (by omega) h
    have hb := step_low_byte hlow (low_byte_of_shiftLeft (by omega) hshift)
    rw [hb, step_high_byte h0] at hshift hrest
    refine ⟨?_, ?_⟩
    · rw [List.length_cons, ← hshift, ← BitVec.shiftLeft_add, Nat.mul_succ, Nat.add_comm]
    · rw [List.length_cons, bytes_shiftLeft, List.take_succ_cons, ← hb, List.take_take,
        Nat.min_eq_left (by omega), ← hrest]

end TableCrc
