import MuMuDVB.SatelliteSwitch

/-!
# What listens on the cable

The committed and the uncommitted switches take the bits that a message resets
and sets. A converter of either kind has user bands; a message chooses the
position, the polarisation and the band of one of them and the frequency that
is moved to it. A user band may be protected by a PIN.
-/
namespace MuMuDVB.SatelliteChain

open RequestScripts CString MuMuDVB.SatelliteSwitch

/-- What a converter puts on a user band. -/
structure UserBand where
  position : Nat
  horizontal : Bool
  high : Bool
  word : Nat
  deriving DecidableEq, Repr

structure Chain where
  tone : Bool
  voltage : Voltage
  burst : Option MiniCmd
  committed : UInt8
  uncommitted : UInt8
  scr : Nat → Option UserBand
  scr2 : Nat → Option UserBand
  tuned : Option Nat

def Chain.ports (c : Chain) : UInt8 × UInt8 := (c.committed, c.uncommitted)

/-- The high nibble resets, the low nibble sets. -/
def writePort (port data : UInt8) : UInt8 :=
  (port &&& ~~~(data >>> 4) &&& 0x0f) ||| (data &&& 0x0f)

/-- A user band is changed with the PIN that protects it, or without one. -/
def changeBand (pins : Nat → Option UInt8) (bands : Nat → Option UserBand) (n : Nat)
    (pin : Option UInt8) (band : UserBand) : Nat → Option UserBand :=
  fun i => if i = n ∧ pins n = pin then some band else bands i

/-- The channel of a message of the first kind. -/
def scrBand (d1 d2 : UInt8) : UserBand :=
  ⟨((d1 >>> 4) &&& 1).toNat, d1 &&& 8 != 0, d1 &&& 4 != 0, (d1 &&& 3).toNat * 256 + d2.toNat⟩

/-- And of the second kind. -/
def scr2Band (d1 d2 d3 : UInt8) : UserBand :=
  ⟨(d3 >>> 2).toNat, d3 &&& 2 != 0, d3 &&& 1 != 0, (d1 &&& 7).toNat * 256 + d2.toNat⟩

/-- From the master, without a reply, to any device. -/
def ToAny (framing address : UInt8) : Prop := (framing = 0xe0 ∨ framing = 0xe1) ∧ address = 0x10

instance (framing address : UInt8) : Decidable (ToAny framing address) :=
  inferInstanceAs (Decidable (_ ∧ _))

/-- What a message changes. -/
def obey (pins : Nat → Option UInt8) (c : Chain) : List UInt8 → Chain
  | [framing, b1, b2, b3] =>
    if framing = 0x70 then
      { c with scr2 := changeBand pins c.scr2 (b1 >>> 3).toNat none (scr2Band b1 b2 b3) }
    else if ToAny framing b1 ∧ b2 = 0x38 then { c with committed := writePort c.committed b3 }
    else if ToAny framing b1 ∧ b2 = 0x39 then { c with uncommitted := writePort c.uncommitted b3 }
    else c
  | [framing, b1, b2, b3, b4] =>
    if framing = 0x71 then
      { c with scr2 := changeBand pins c.scr2 (b1 >>> 3).toNat (some b4) (scr2Band b1 b2 b3) }
    else if ToAny framing b1 ∧ b2 = 0x5a then
      { c with scr := changeBand pins c.scr (b3 >>> 5).toNat none (scrBand b3 b4) }
    else c
  | [framing, b1, b2, b3, b4, b5] =>
    if ToAny framing b1 ∧ b2 = 0x5c then
      { c with scr := changeBand pins c.scr (b3 >>> 5).toNat (some b5) (scrBand b3 b4) }
    else c
  | _ => c

/-- What a request changes. -/
def respond (pins : Nat → Option UInt8) (c : Chain) : Request → Chain
  | .setTone on => { c with tone := on }
  | .setVoltage v => { c with voltage := v }
  | .diseqcSendMasterCmd msg => obey pins c msg
  | .diseqcSendBurst burst => { c with burst := some burst }
  | .setFrontend frequency => { c with tuned := some frequency }
  | .clearProperties => c
  | .setProperties frequency => { c with tuned := some frequency }

/-! ## The bytes -/

section bytes

variable {satNo : UInt8} {switchNo : Int} {polVR hiLo : Bool}

/-- The inputs that a port chooses. -/
def portValue (satNo : UInt8) (switchNo : Int) (polVR hiLo : Bool) : UInt8 :=
  portByte satNo switchNo polVR hiLo &&& 0x0f

/-- All the bits of the port are reset or set. -/
theorem writePort_portByte (port : UInt8) :
    writePort port (portByte satNo switchNo polVR hiLo) = portValue satNo switchNo polVR hiLo := by
  have hall : ∀ n < 256, ∀ h b : Bool,
      (0xf0 ||| ((UInt8.ofNat n &&& 0x0f) ||| bit h 2 ||| bit b 1)) >>> 4 = (0x0f : UInt8) := by
    decide +kernel
  have hreset : ∀ x : UInt8, ∀ h b : Bool,
      (0xf0 ||| ((x &&& 0x0f) ||| bit h 2 ||| bit b 1)) >>> 4 = (0x0f : UInt8) := by
    intro x h b
    have hx := hall x.toNat x.toNat_lt h b
    rwa [UInt8.ofNat_toNat] at hx
  have hhigh : portByte satNo switchNo polVR hiLo >>> 4 = 0x0f := by
    rw [portByte]
    split
    · have hinput := hreset (UInt8.ofInt switchNo) false false
      rwa [bit, if_neg Bool.false_ne_true, bit, if_neg Bool.false_ne_true, UInt8.or_zero,
        UInt8.or_zero] at hinput
    · exact hreset _ _ _
  rw [writePort, hhigh, UInt8.and_assoc, show ~~~(0x0f : UInt8) &&& 0x0f = 0 from by decide,
    UInt8.and_zero, UInt8.zero_or, portValue]

/-- The satellites are numbered from 1; the polarisation and the band have a bit each. -/
theorem portValue_sat (hsat : 1 ≤ satNo.toNat ∧ satNo.toNat ≤ 4) :
    (portValue satNo (-1) polVR hiLo >>> 2).toNat + 1 = satNo.toNat ∧
    (portValue satNo (-1) polVR hiLo &&& 2 != 0) = !polVR ∧
    (portValue satNo (-1) polVR hiLo &&& 1 != 0) = hiLo := by
  have hall : ∀ n < 5, 1 ≤ n → ∀ v b : Bool,
      (portValue (UInt8.ofNat n) (-1) v b >>> 2).toNat + 1 = n ∧
      (portValue (UInt8.ofNat n) (-1) v b &&& 2 != 0) = !v ∧
      (portValue (UInt8.ofNat n) (-1) v b &&& 1 != 0) = b := by decide +kernel
  have hn := hall satNo.toNat (by omega) hsat.1 polVR hiLo
  rwa [UInt8.ofNat_toNat] at hn

/-- An input that is given is the number of the input, of which there are 16. -/
theorem portValue_input (hinput : switchNo ≠ -1) :
    ((portValue satNo switchNo polVR hiLo).toNat : Int) = switchNo % 16 := by
  have hall : ∀ n < 256, ((0xf0 ||| (UInt8.ofNat n &&& 0x0f)) &&& 0x0f : UInt8).toNat = n % 16 := by
    decide +kernel
  have hbyte := hall (UInt8.ofInt switchNo).toNat (UInt8.ofInt switchNo).toNat_lt
  rw [UInt8.ofNat_toNat] at hbyte
  rw [portValue, portByte, if_pos hinput, hbyte]
  have hvalue : ((UInt8.ofInt switchNo).toNat : Int) = switchNo % 256 := by
    rw [UInt8.ofInt, UInt8.toNat_ofNat']
    omega
  omega

variable {t : UInt16}

theorem toNat_highByte {k : Nat} (hk : k = 2 ∨ k = 3) :
    ((t >>> 8).toUInt8 &&& UInt8.ofNat (2 ^ k - 1)).toNat = t.toNat / 256 % 2 ^ k := by
  have ht := t.toNat_lt
  rw [UInt8.toNat_and, UInt16.toNat_toUInt8, UInt16.toNat_shiftRight]
  have hshift : t.toNat >>> ((8 : UInt16).toNat % 16) = t.toNat / 256 :=
    Nat.shiftRight_eq_div_pow _ 8
  rw [hshift, Nat.mod_eq_of_lt (show t.toNat / 256 < 2 ^ 8 from by omega)]
  rcases hk with rfl | rfl
  · exact Nat.and_two_pow_sub_one_eq_mod _ 2
  · exact Nat.and_two_pow_sub_one_eq_mod _ 3

theorem toNat_lowByte : (t &&& 0xff).toUInt8.toNat = t.toNat % 256 := by
  rw [UInt16.toNat_toUInt8, UInt16.toNat_and]
  have hmask : t.toNat &&& (0xff : UInt16).toNat = t.toNat % 256 :=
    Nat.and_two_pow_sub_one_eq_mod _ 8
  rw [hmask]
  exact Nat.mod_mod _ 256

/-- A converter of the first kind reads the number of one of its eight user bands, and of
the word ten bits. -/
theorem scrBand_unicable (hlow : 0 ≤ switchNo) (hhigh : switchNo < 8) :
    (unicableByte satNo switchNo polVR hiLo t >>> 5).toNat = switchNo.toNat ∧
    scrBand (unicableByte satNo switchNo polVR hiLo t) (t &&& 0xff).toUInt8 =
      ⟨if satNo = 1 then 0 else 1, !polVR, hiLo, t.toNat % 1024⟩ := by
  have hall : ∀ n < 8, ∀ m < 4, ∀ s h b : Bool,
      let d := UInt8.ofInt ((n : Nat) * 32) ||| bit s 16 ||| bit h 8 ||| bit b 4 ||| UInt8.ofNat m
      (d >>> 5).toNat = n ∧ ((d >>> 4) &&& 1).toNat = (if s then 1 else 0) ∧
        (d &&& 8 != 0) = h ∧ (d &&& 4 != 0) = b ∧ (d &&& 3).toNat = m := by
    decide +kernel
  have hword : ((t >>> 8).toUInt8 &&& 3).toNat = t.toNat / 256 % 4 := toNat_highByte (Or.inl rfl)
  have hfields := hall switchNo.toNat (by omega) (t.toNat / 256 % 4) (Nat.mod_lt _ (by decide))
    (satNo != 1) (!polVR) hiLo
  have hbyte : UInt8.ofNat (t.toNat / 256 % 4) = (t >>> 8).toUInt8 &&& 0x03 := by
    rw [← UInt8.toNat_inj, UInt8.toNat_ofNat', hword]
    omega
  rw [hbyte, show ((switchNo.toNat : Int) * 32) = switchNo * 32 from by omega] at hfields
  obtain ⟨hband, hposition, hpol, hhi, hbits⟩ := hfields
  refine ⟨hband, ?_⟩
  rw [scrBand, UserBand.mk.injEq]
  refine ⟨hposition.trans ?_, hpol, hhi, ?_⟩
  · by_cases hsat : satNo = 1
    · rw [hsat]
      rfl
    · rw [if_neg hsat, if_pos (bne_iff_ne.mpr hsat)]
  · have hbits : (unicableByte satNo switchNo polVR hiLo t &&& 3).toNat = t.toNat / 256 % 4 := hbits
    rw [hbits, toNat_lowByte]
    omega

/-- A converter of the second kind has 32 user bands, and reads eleven bits of the word. -/
theorem scr2Band_jess (hlow : 0 ≤ switchNo) (hhigh : switchNo < 32)
    (hsat : 1 ≤ satNo.toNat ∧ satNo.toNat ≤ 64) :
    (jessByte1 switchNo t >>> 3).toNat = switchNo.toNat ∧
    scr2Band (jessByte1 switchNo t) (t &&& 0xff).toUInt8 (jessByte3 satNo polVR hiLo) =
      ⟨satNo.toNat - 1, !polVR, hiLo, t.toNat % 2048⟩ := by
  have hall : ∀ n < 32, ∀ m < 8,
      let d := ((UInt8.ofInt (n : Nat) &&& 0x1f) <<< 3) ||| UInt8.ofNat m
      (d >>> 3).toNat = n ∧ (d &&& 7).toNat = m := by
    decide +kernel
  have hall3 : ∀ n < 64, ∀ h b : Bool,
      let d := ((UInt8.ofInt (n : Nat) &&& 0x3f) <<< 2) ||| bit h 2 ||| bit b 1
      (d >>> 2).toNat = n ∧ (d &&& 2 != 0) = h ∧ (d &&& 1 != 0) = b := by
    decide +kernel
  have hword : ((t >>> 8).toUInt8 &&& 7).toNat = t.toNat / 256 % 8 := toNat_highByte (Or.inr rfl)
  obtain ⟨hband, hbits⟩ := hall switchNo.toNat (by omega) (t.toNat / 256 % 8)
    (Nat.mod_lt _ (by decide))
  have hbyte : UInt8.ofNat (t.toNat / 256 % 8) = (t >>> 8).toUInt8 &&& 0x07 := by
    rw [← UInt8.toNat_inj, UInt8.toNat_ofNat', hword]
    omega
  rw [hbyte, show (switchNo.toNat : Int) = switchNo from by omega] at hband hbits
  have hfields := hall3 (satNo.toNat - 1) (by omega) (!polVR) hiLo
  rw [show ((satNo.toNat - 1 : Nat) : Int) = (satNo.toNat : Int) - 1 from by omega] at hfields
  obtain ⟨hposition, hpol, hhi⟩ := hfields
  have hbits : (jessByte1 switchNo t &&& 7).toNat = t.toNat / 256 % 8 := hbits
  refine ⟨hband, ?_⟩
  rw [scr2Band, UserBand.mk.injEq]
  refine ⟨hposition, hpol, hhi, ?_⟩
  rw [hbits, toNat_lowByte]
  omega

end bytes

/-! ## The frequencies -/

section words

variable {m : Machine} {f u : Nat}

/-- The word of the first kind is that of the nearest frequency it can give. -/
theorem unicableWord_eq (hlow : 1400 ≤ f / 1000 + u + 2) (hhigh : f / 1000 + u + 2 < 263544) :
    (unicableWord m f u).toNat + 350 = (f / 1000 + u + 2) / 4 := by
  have hx : ((f / 1000 + u + 2) % 2 ^ 32 / 4 + (2 ^ 32 - 350)) % 2 ^ 32 =
      (f / 1000 + u + 2) / 4 - 350 := by omega
  rw [unicableWord, hx, if_pos (by omega), UInt16.toNat_ofNat']
  omega

theorem jessWord_eq (hlow : 100 ≤ f / 1000) (hhigh : f / 1000 < 65636) :
    (jessWord f).toNat = f / 1000 - 100 := by
  rw [jessWord, UInt16.toNat_ofNat']
  omega

end words

end MuMuDVB.SatelliteChain
