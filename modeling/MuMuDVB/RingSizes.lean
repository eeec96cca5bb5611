import MuMuDVB.BitSmearing
import MuMuDVB.ScamRing

/-!
# The size of the ring

The size that is configured for the ring is rounded up to a power of two, so that
the indices of its threads can be masked.
-/
namespace MuMuDVB.RingSizes

open BitSmearing RecentRing ScamRing

/-- `x |= x >> s`, with the sign shifted in. -/
def smearInt (s : Nat) (x : BitVec 32) : BitVec 32 := x ||| x.sshiftRight s

def roundUp (x : BitVec 32) : BitVec 32 :=
  smearInt 16 (smearInt 8 (smearInt 4 (smearInt 2 (smearInt 1 (x - 1))))) + 1

/-- `c_chan->ring_buffer_size = round_up(atoi (substring))`, for the number that `atoi` gives. -/
def ringBufferSize (x : Nat) : Nat := ((roundUp (BitVec.ofNat 32 x)).signExtend 64).toNat

theorem smearInt_toNat {x : BitVec 32} (s : Nat) (h : x.toNat < 2 ^ 30) :
    (smearInt s x).toNat = smear s x.toNat ∧ (smearInt s x).toNat < 2 ^ 30 := by
  have hmsb : x.msb = false := by rw [BitVec.msb_eq_false_iff_two_mul_lt]; omega
  have heq : (smearInt s x).toNat = smear s x.toNat := by
    rw [smearInt, BitVec.sshiftRight_eq_of_msb_false hmsb, BitVec.toNat_or,
      BitVec.toNat_ushiftRight, smear]
  refine ⟨heq, ?_⟩
  rw [heq, smear]
  exact Nat.or_lt_two_pow h ((Nat.shiftRight_le ..).trans_lt h)

/-- The five turns spread a bit over all 32. -/
theorem roundUp_toNat {x : BitVec 32} (hpos : 1 ≤ x.toNat) (hle : x.toNat ≤ 2 ^ 30) :
    (roundUp x).toNat = 2 ^ Nat.clog 2 x.toNat := by
  have hsub : (x - 1).toNat = x.toNat - 1 := by
    rw [BitVec.toNat_sub_of_le (by simpa [BitVec.le_def] using hpos)]
    rfl
  obtain ⟨h1, hlt1⟩ := smearInt_toNat 1 (x := x - 1) (by omega)
  obtain ⟨h2, hlt2⟩ := smearInt_toNat 2 hlt1
  obtain ⟨h4, hlt4⟩ := smearInt_toNat 4 hlt2
  obtain ⟨h8, hlt8⟩ := smearInt_toNat 8 hlt4
  obtain ⟨h16, hlt16⟩ := smearInt_toNat 16 hlt8
  have hspread := ((((spread_one (x - 1).toNat).smear.smear).smear).smear).smear.add_one
    (x - 1).isLt
  rw [← h1, ← h2, ← h4, ← h8, ← h16, hsub, Nat.sub_add_cancel hpos] at hspread
  rw [roundUp, BitVec.toNat_add, show (1 : BitVec 32).toNat = 1 from rfl, ← hspread]
  exact Nat.mod_eq_of_lt (by omega)

theorem ringBufferSize_eq {x : Nat} (hpos : 1 ≤ x) (hle : x ≤ 2 ^ 30) :
    ringBufferSize x = 2 ^ Nat.clog 2 x := by
  have hx : (BitVec.ofNat 32 x).toNat = x := by
    rw [BitVec.toNat_ofNat]
    exact Nat.mod_eq_of_lt (by omega)
  have hround : (roundUp (BitVec.ofNat 32 x)).toNat = 2 ^ Nat.clog 2 x := by
    rw [roundUp_toNat (by rwa [hx]) (by rwa [hx]), hx]
  have hbound : 2 ^ Nat.clog 2 x ≤ 2 ^ 30 :=
    Nat.pow_le_pow_right (by decide) (Nat.clog_le_of_le_pow hle)
  have hmsb : (roundUp (BitVec.ofNat 32 x)).msb = false := by
    rw [BitVec.msb_eq_false_iff_two_mul_lt]
    omega
  rw [ringBufferSize, BitVec.signExtend_eq_setWidth_of_msb_false hmsb, BitVec.toNat_setWidth,
    hround]
  exact Nat.mod_eq_of_lt (by omega)

theorem ringBufferSize_isLeast {x : Nat} (hpos : 1 ≤ x) (hle : x ≤ 2 ^ 30) :
    IsLeast {size | (∃ k, size = 2 ^ k) ∧ x ≤ size} (ringBufferSize x) := by
  rw [ringBufferSize_eq hpos hle]
  refine ⟨⟨⟨_, rfl⟩, Nat.le_pow_clog (by decide) x⟩, ?_⟩
  rintro _ ⟨⟨k, rfl⟩, hk⟩
  exact Nat.pow_le_pow_right (by decide) (Nat.clog_le_of_le_pow hk)

/-- An index behind another of the same ring is masked to the next one. -/
theorem advance_eq (setup : Setup) (index : Nat) :
    advance setup.ringBufferSize index = (index + 1) % setup.ringBufferSize := by
  rw [advance, Setup.ringBufferSize, Nat.and_two_pow_sub_one_eq_mod,
    Nat.mod_mod_of_dvd _ (Nat.pow_dvd_pow 2 (by have := setup.exponent_le; omega))]

/-- The size of the ring is the least power of two that is not below the one configured, the
threads that share the ring can have it, and each of them counts its index modulo it. -/
theorem ringBufferSize_masks (x : Nat) (hpos : 1 ≤ x) (hle : x ≤ 2 ^ 30) :
    IsLeast {size | (∃ k, size = 2 ^ k) ∧ x ≤ size} (ringBufferSize x) ∧
      (∃ exponent ≤ 30, ringBufferSize x = 2 ^ exponent) ∧
      (∀ index, index &&& (ringBufferSize x - 1) = index % ringBufferSize x) ∧
      ∀ (setup : Setup), setup.ringBufferSize = ringBufferSize x → ∀ s : State,
        (∀ tsPacket, (s.push setup tsPacket).ring.writeIdx =
          (s.ring.writeIdx + 1) % ringBufferSize x) ∧
        (s.take setup).ring.readDecsaIdx = (s.ring.readDecsaIdx + 1) % ringBufferSize x ∧
        (s.sender = .ready →
          (s.sendthread setup).ring.readSendIdx =
            (s.ring.readSendIdx + 1) % ringBufferSize x) := by
  refine ⟨ringBufferSize_isLeast hpos hle, ⟨_, Nat.clog_le_of_le_pow hle,
    ringBufferSize_eq hpos hle⟩, ?_, ?_⟩
  · intro index
    rw [ringBufferSize_eq hpos hle, Nat.and_two_pow_sub_one_eq_mod]
  · intro setup hsize s
    rw [← hsize]
    refine ⟨fun tsPacket => advance_eq setup _, ?_, ?_⟩
    · rw [State.take, State.closeBatches]
      split <;> exact advance_eq setup _
    · intro hready
      rw [State.sendthread, hready]
      exact advance_eq setup _

/-- A size of five packets is rounded up to eight. -/
theorem ringBufferSize_masks_five :
    (IsLeast {size | (∃ k, size = 2 ^ k) ∧ 5 ≤ size} (ringBufferSize 5) ∧
      ∀ index, index &&& (ringBufferSize 5 - 1) = index % ringBufferSize 5) ∧
      ringBufferSize 5 = 8 :=
  have h := ringBufferSize_masks 5 (by decide) (by decide)
  ⟨⟨h.1, h.2.2.1⟩, by decide⟩

end MuMuDVB.RingSizes
