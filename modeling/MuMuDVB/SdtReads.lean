import MuMuDVB.PmtReads
import MuMuDVB.ServiceNames
import MuMuDVB.TableReads

/-!
# What is read of an SDT

The lengths in an SDT are nested: that of the descriptors of a service, those of
the descriptors, and in a service descriptor those of the two names.
`autoconf_read_sdt` holds none of them against the one around it, or against the
end of the section. Each byte that it reads is read here from a section of `n`
bytes, and the names go into arrays of 512.
-/
namespace MuMuDVB.SdtReads

open CheckedMemory MuMuDVB.TsHeader MuMuDVB.Ts MuMuDVB.Autoconf MuMuDVB.AutoconfTables
open MuMuDVB.AutoconfPat (hasService)
open MuMuDVB.PmtReads (readAt readAt_ok readAt_outside readAt_eq_ok)
open MuMuDVB.ServiceNames
open MuMuDVB.TsAssembler (Accepted sectionSize)

/-- What the reading of the SDT uses of a channel. -/
structure SdtChannel where
  serviceId : Int
  serviceType : Nat
  freeCaMode : Bool
  serviceName : ServiceName

section reads

variable (iconvOpen : IconvOpen) (byte : Nat → UInt8) (n : Nat)

/-- A loop that shows groups of `size` bytes. -/
def showGroupsIn (size buf length : Nat) : Nat → Nat → Checked Unit
  | 0, _ => .error .endless
  | fuel + 1, i =>
    if i < length then do
      let _ ← readBytes (readAt byte n) (buf + i) size
      showGroupsIn size buf length fuel (i + size)
    else return ()

/-- `show_CA_identifier_descriptor` -/
def showCaIdentifierDescriptorIn (buf : Nat) : Checked Unit := do
  let length ← readAt byte n (buf + 1)
  showGroupsIn byte n 2 (buf + 2) length.toNat (length.toNat + 1) 0

/-- `ts_display_country_avaibility_descriptor` -/
def tsDisplayCountryAvaibilityDescriptorIn (buf : Nat) : Checked Unit := do
  let length ← readAt byte n (buf + 1)
  let _ ← readAt byte n (buf + 2)
  showGroupsIn byte n 3 (buf + 3) (length.toNat - 1) (length.toNat + 1) 0

/-- `parse_service_descriptor` -/
def parseServiceDescriptorIn (buf : Nat) (chan : SdtChannel) : Checked SdtChannel := do
  let serviceType ← readAt byte n (buf + 2)
  let providerLen ← readAt byte n (buf + 3)
  let name := buf + 3 + (providerLen.toNat + 1)
  let len ← readAt byte n name
  let bytes ← readBytes (readAt byte n) (name + 1) len.toNat
  let serviceName ← storeName iconvOpen chan.serviceName bytes
  return { chan with serviceType := serviceType.toNat, serviceName := serviceName }

/-- What becomes of a descriptor with a tag. -/
def useDescriptorIn (descriptorTag : UInt8) (buf : Nat) (chan : SdtChannel) :
    Checked SdtChannel :=
  if descriptorTag = 0x48 then parseServiceDescriptorIn iconvOpen byte n buf chan
  else if descriptorTag = 0x53 then do
    showCaIdentifierDescriptorIn byte n buf
    return chan
  else if descriptorTag = 0x49 then do
    tsDisplayCountryAvaibilityDescriptorIn byte n buf
    return chan
  else return chan

/-- `parse_sdt_descriptor` -/
def parseSdtDescriptorIn : Nat → Nat → Nat → SdtChannel → Checked SdtChannel
  | 0, _, _, _ => .error .endless
  | fuel + 1, buf, remaining, chan =>
    if 0 < remaining then do
      let descriptorTag ← readAt byte n buf
      let len ← readAt byte n (buf + 1)
      -- an unsigned char: 254 and 255 wrap around
      let descriptorLen := (len + 2).toNat
      if descriptorLen = 0 then return chan
      else do
        let chan ← useDescriptorIn iconvOpen byte n descriptorTag buf chan
        parseSdtDescriptorIn fuel (buf + descriptorLen) (remaining - descriptorLen) chan
    else return chan

/-- The service at `delta` goes into the last channel that has it. -/
def sdtServiceIn (channels : List SdtChannel) (delta : Nat) : Checked (List SdtChannel) := do
  let serviceId ← readHilo (readAt byte n) 256 delta
  match lastIndex (fun chan => chan.serviceId = (serviceId : Int)) channels with
  | none => return channels
  | some i =>
    let flags ← readAt byte n (delta + 3)
    let loopLen ← readHilo (readAt byte n) 16 (delta + 3)
    match channels[i]? with
    | none => .error .outOfBounds
    | some chan =>
      let chan ← parseSdtDescriptorIn iconvOpen byte n (loopLen + 1) (delta + sdtDescrLen) loopLen
        { chan with freeCaMode := flags.toNat / 16 % 2 = 1 }
      return channels.set i chan

/-- The loop of `autoconf_read_sdt` over the services. -/
def sdtLoopIn : Nat → Nat → List SdtChannel → Checked (List SdtChannel)
  | 0, _, _ => .error .endless
  | fuel + 1, delta, channels =>
    if delta + (4 + sdtDescrLen) ≤ n then do
      let channels ← sdtServiceIn iconvOpen byte n channels delta
      let loopLen ← readHilo (readAt byte n) 16 (delta + 3)
      sdtLoopIn fuel (delta + (loopLen + sdtDescrLen)) channels
    else return channels

end reads

/-- `autoconf_read_sdt` -/
def autoconfReadSdtIn (iconvOpen : IconvOpen) (s : AutoP) (channels : List SdtChannel) :
    Checked (AutoP × List SdtChannel) := do
  let sdt := s.sdt.temp.dataFull.cells
  let lenFull := s.sdt.temp.lenFull
  let read := readAt (byteAt sdt) lenFull
  let _ ← read 0
  if tableId sdt ≠ 0x42 then return (s, channels)
  else do
    -- the version and the number of the section
    let _ ← readBytes read 5 2
    if ← s.sdt.alreadySeen sdt then return (s, channels)
    else do
      let tracker ← (s.sdt.renew sdt).store sdt
      -- what is only shown
      let _ ← readHilo read 256 3
      let _ ← read 7
      let originalNetworkId ← readHilo read 256 8
      let channels ← sdtLoopIn iconvOpen (byteAt sdt) lenFull (lenFull + 1) sdtLen channels
      let s := { s with sdt := tracker, originalNetworkId := originalNetworkId }
      if tracker.sectionsMissing sdt ≠ 0 then return (s, channels)
      else return ({ s with sdt := tracker.finish, needFilterChanUpdate := true }, channels)

section walk

variable (iconvOpen : IconvOpen) (byte : Nat → UInt8) (n : Nat)

/-- How far it is to the next descriptor, in an `unsigned char`. -/
def stepAt (a : Nat) : Nat := (byte (a + 1) + 2).toNat

/-- Where the descriptors begin that `parse_sdt_descriptor` comes to. -/
def placesFrom : Nat → Nat → Nat → List Nat
  | 0, _, _ => []
  | fuel + 1, a, remaining =>
    if 0 < remaining then
      a :: if stepAt byte a = 0 then []
        else placesFrom fuel (a + stepAt byte a) (remaining - stepAt byte a)
    else []

def serviceIdAt (delta : Nat) : Nat := hilo (byte delta).toNat (byte (delta + 1)).toNat

/-- `descriptors_loop_length` -/
def loopLenAt (delta : Nat) : Nat := hilo ((byte (delta + 3)).toNat % 16) (byte (delta + 4)).toNat

def places (delta : Nat) : List Nat :=
  placesFrom byte (loopLenAt byte delta) (delta + sdtDescrLen) (loopLenAt byte delta)

/-- Where the services begin. -/
def servicesFrom : Nat → Nat → List Nat
  | 0, _ => []
  | fuel + 1, delta =>
    if delta + (4 + sdtDescrLen) ≤ n then
      delta :: servicesFrom fuel (delta + (loopLenAt byte delta + sdtDescrLen))
    else []

def services : List Nat := servicesFrom byte n n sdtLen

/-- Where the length of the service name stands. -/
def nameAt (a : Nat) : Nat := a + 3 + ((byte (a + 3)).toNat + 1)

def nameBytes (a : Nat) : List UInt8 :=
  (List.range (byte (nameAt byte a)).toNat).map fun k => byte (nameAt byte a + 1 + k)

/-- A descriptor with a tag that does not end the walk. -/
def Tagged (tag : UInt8) (a : Nat) : Prop := stepAt byte a ≠ 0 ∧ byte a = tag

instance (tag : UInt8) (a : Nat) : Decidable (Tagged byte tag a) :=
  inferInstanceAs (Decidable (_ ∧ _))

/-- Groups of `size` bytes of which each that begins before `length` lies in the section. -/
def GroupsInside (size buf length : Nat) : Prop :=
  ∀ k, k * size < length → buf + (k + 1) * size ≤ n

/-- The head of a descriptor lies in the section, and so do the service name, the CA systems and
the countries. -/
structure DescriptorInside (a : Nat) : Prop where
  head : a + 2 ≤ n
  name : Tagged byte 0x48 a → nameAt byte a + 1 + (byte (nameAt byte a)).toNat ≤ n
  caSystems : Tagged byte 0x53 a → GroupsInside n 2 (a + 2) (byte (a + 1)).toNat
  countryFlag : Tagged byte 0x49 a → a + 3 ≤ n
  countries : Tagged byte 0x49 a → GroupsInside n 3 (a + 3) ((byte (a + 1)).toNat - 1)

/-- The array of a name behind a descriptor. -/
def nameBehind (cells : List UInt8) (a : Nat) : List UInt8 :=
  if Tagged byte 0x48 a then nameStored iconvOpen cells (nameBytes byte a) else cells

/-- `iconv` does not fill the array with one of the names of a service. -/
def ServiceFits (cells : List UInt8) (delta : Nat) : Prop :=
  Throughout (fun cells a => Tagged byte 0x48 a → NameFits iconvOpen cells (nameBytes byte a))
    (nameBehind iconvOpen byte) cells (places byte delta)

/-- The last of the channels that have the service at `delta`. -/
def channelAt (ids : List Int) (delta : Nat) : Option Nat :=
  lastIndex (fun id => id = (serviceIdAt byte delta : Int)) ids

/-- The arrays of the names behind a service. -/
def namesBehind (ids : List Int) (names : List (List UInt8)) (delta : Nat) : List (List UInt8) :=
  match channelAt byte ids delta with
  | some i =>
    names.modify i fun cells => (places byte delta).foldl (nameBehind iconvOpen byte) cells
  | none => names

/-- The names of each service fit, at what the services before it have left. -/
def NamesFit (ids : List Int) (names : List (List UInt8)) : Prop :=
  Throughout (fun names delta => ∀ i, channelAt byte ids delta = some i →
      ∀ cells, names[i]? = some cells → ServiceFits iconvOpen byte cells delta)
    (namesBehind iconvOpen byte ids) names (services byte n)

end walk

variable {iconvOpen : IconvOpen} {byte : Nat → UInt8} {n : Nat}

theorem readBytes_ok_iff {i len : Nat} :
    (∃ bytes, readBytes (readAt byte n) i len = .ok bytes) ↔ (0 < len → i + len ≤ n) := by
  rw [readBytes, mapM_ok_iff]
  simp only [List.mem_range, readAt_eq_ok, exists_and_left, exists_eq', and_true]
  constructor
  · intro h hlen
    have := h (len - 1) (by omega)
    omega
  · intro h k hk
    have := h (by omega)
    omega

theorem readBytes_eq_ok {i len : Nat} {bytes : List UInt8}
    (h : readBytes (readAt byte n) i len = .ok bytes) :
    bytes = (List.range len).map fun k => byte (i + k) := by
  have hinside := readBytes_ok_iff.mp ⟨bytes, h⟩
  have hall : ∀ k ∈ List.range len, readAt byte n (i + k) = .ok (byte (i + k)) := by
    intro k hk
    have := List.mem_range.mp hk
    exact readAt_ok (by have := hinside (by omega); omega)
  rw [readBytes, mapM_eq_map hall] at h
  exact (Except.ok.inj h).symm

theorem readHilo_ok {mask i : Nat} (h : i + 2 ≤ n) :
    readHilo (readAt byte n) mask i = .ok (hilo ((byte i).toNat % mask) (byte (i + 1)).toNat) := by
  rw [readHilo, readAt_ok (by omega), bind_ok, readAt_ok (by omega), bind_ok, pure_ok]

theorem showGroupsIn_ok_iff {size buf length fuel k : Nat} (hsize : 0 < size)
    (h : length ≤ k * size + fuel) :
    (∃ r, showGroupsIn byte n size buf length (fuel + 1) (k * size) = .ok r) ↔
      ∀ j, k ≤ j → j * size < length → buf + (j + 1) * size ≤ n := by
  have hlater : ∀ j, k ≤ j → k * size ≤ j * size := fun j hj => Nat.mul_le_mul_right size hj
  induction fuel generalizing k with
  | zero =>
    rw [showGroupsIn, if_neg (by omega)]
    refine iff_of_true ⟨(), rfl⟩ fun j hj hlt => ?_
    have := hlater j hj
    omega
  | succ fuel ih =>
    rw [showGroupsIn]
    by_cases hmore : k * size < length
    · have hnext : k * size + size = (k + 1) * size := (Nat.succ_mul k size).symm
      have hrest := @ih (k + 1) (by omega) fun j hj => Nat.mul_le_mul_right size hj
      have hgroup := @readBytes_ok_iff byte n (buf + k * size) size
      rw [imp_iff_right hsize] at hgroup
      rw [if_pos hmore, hnext]
      constructor
      · rintro ⟨r, h⟩
        obtain ⟨bytes, hbytes, h⟩ := bind_eq_ok.mp h
        have hhere := hgroup.mp ⟨bytes, hbytes⟩
        intro j hj hlt
        rcases hj.eq_or_lt with rfl | hj
        · omega
        · exact hrest.mp ⟨r, h⟩ j hj hlt
      · intro hall
        have hhere := hall k (Nat.le_refl k) hmore
        obtain ⟨bytes, hbytes⟩ := hgroup.mpr (by omega)
        obtain ⟨r, h⟩ := hrest.mpr fun j hj => hall j (by omega)
        exact ⟨r, by rw [hbytes, bind_ok, h]⟩
    · rw [if_neg hmore]
      refine iff_of_true ⟨(), rfl⟩ fun j hj hlt => ?_
      have := hlater j hj
      omega

theorem showGroupsIn_inside {size buf length fuel : Nat} (hsize : 0 < size) (h : length ≤ fuel) :
    (∃ r, showGroupsIn byte n size buf length (fuel + 1) 0 = .ok r) ↔
      GroupsInside n size buf length := by
  have hgroups := @showGroupsIn_ok_iff byte n size buf length fuel 0 hsize (by omega)
  rw [Nat.zero_mul] at hgroups
  exact hgroups.trans (forall_congr' fun j => imp_iff_right (Nat.zero_le j))

section descriptor

variable {a : Nat} {chan : SdtChannel}

theorem nameBytes_length (byte : Nat → UInt8) (a : Nat) :
    (nameBytes byte a).length < maxNameLen := by
  rw [nameBytes, List.length_map, List.length_range]
  exact (UInt8.toNat_lt _).trans (by decide)

theorem parseServiceDescriptorIn_ok_iff :
    (∃ chan', parseServiceDescriptorIn iconvOpen byte n a chan = .ok chan') ↔
      nameAt byte a + 1 + (byte (nameAt byte a)).toNat ≤ n ∧
        NameFits iconvOpen chan.serviceName.cells (nameBytes byte a) := by
  have hstored := @storeName_ok_iff iconvOpen chan.serviceName _ (nameBytes_length byte a)
  constructor
  · rintro ⟨chan', h⟩
    obtain ⟨serviceType, -, h⟩ := bind_eq_ok.mp h
    obtain ⟨providerLen, hprovider, h⟩ := bind_eq_ok.mp h
    obtain ⟨-, rfl⟩ := readAt_eq_ok.mp hprovider
    obtain ⟨len, hlen, h⟩ := bind_eq_ok.mp h
    obtain ⟨hname, rfl⟩ := readAt_eq_ok.mp hlen
    obtain ⟨bytes, hbytes, h⟩ := bind_eq_ok.mp h
    obtain ⟨name, hput, -⟩ := bind_eq_ok.mp h
    have hinside := readBytes_ok_iff.mp ⟨bytes, hbytes⟩
    rw [readBytes_eq_ok hbytes] at hput
    rw [nameAt]
    refine ⟨?_, hstored.mp ⟨name, hput⟩⟩
    omega
  · rintro ⟨hinside, hfits⟩
    obtain ⟨name, hput⟩ := hstored.mpr hfits
    rw [nameAt] at hinside
    obtain ⟨bytes, hbytes⟩ := readBytes_ok_iff.mpr fun _ => hinside
    refine ⟨{ chan with serviceType := (byte (a + 2)).toNat, serviceName := name }, ?_⟩
    rw [parseServiceDescriptorIn, readAt_ok (by omega), bind_ok, readAt_ok (by omega), bind_ok]
    dsimp only
    rw [readAt_ok (by omega), bind_ok, hbytes, bind_ok, readBytes_eq_ok hbytes]
    change (storeName iconvOpen chan.serviceName (nameBytes byte a) >>= _) = _
    rw [hput]
    rfl

theorem parseServiceDescriptorIn_eq_ok {chan' : SdtChannel}
    (h : parseServiceDescriptorIn iconvOpen byte n a chan = .ok chan') :
    chan'.serviceId = chan.serviceId ∧ chan'.serviceName.cells =
      nameStored iconvOpen chan.serviceName.cells (nameBytes byte a) := by
  obtain ⟨serviceType, -, h⟩ := bind_eq_ok.mp h
  obtain ⟨providerLen, hprovider, h⟩ := bind_eq_ok.mp h
  obtain ⟨-, rfl⟩ := readAt_eq_ok.mp hprovider
  obtain ⟨len, hlen, h⟩ := bind_eq_ok.mp h
  obtain ⟨-, rfl⟩ := readAt_eq_ok.mp hlen
  obtain ⟨bytes, hbytes, h⟩ := bind_eq_ok.mp h
  obtain ⟨name, hput, h⟩ := bind_eq_ok.mp h
  cases h
  rw [readBytes_eq_ok hbytes] at hput
  exact ⟨rfl, storeName_eq_ok hput⟩

theorem showCaIdentifierDescriptorIn_ok_iff (h : a + 2 ≤ n) :
    (∃ r, showCaIdentifierDescriptorIn byte n a = .ok r) ↔
      GroupsInside n 2 (a + 2) (byte (a + 1)).toNat := by
  rw [showCaIdentifierDescriptorIn, readAt_ok (by omega), bind_ok,
    showGroupsIn_inside (by decide) (Nat.le_refl _)]

theorem tsDisplayCountryAvaibilityDescriptorIn_ok_iff (h : a + 2 ≤ n) :
    (∃ r, tsDisplayCountryAvaibilityDescriptorIn byte n a = .ok r) ↔
      a + 3 ≤ n ∧ GroupsInside n 3 (a + 3) ((byte (a + 1)).toNat - 1) := by
  rw [tsDisplayCountryAvaibilityDescriptorIn, readAt_ok (by omega), bind_ok]
  by_cases hflag : a + 3 ≤ n
  · rw [readAt_ok (by omega), bind_ok, showGroupsIn_inside (by decide) (Nat.sub_le _ _),
      and_iff_right hflag]
  · rw [readAt_outside (by omega)]
    exact iff_of_false (fun ⟨r, h⟩ => nomatch h) fun h => hflag h.1

/-- A descriptor that is only shown leaves the channel. -/
theorem shown_ok_iff {show_ : Checked Unit} :
    (∃ chan', (show_ >>= fun _ => pure chan) = .ok chan') ↔ ∃ r, show_ = .ok r := by
  constructor
  · rintro ⟨chan', h⟩
    obtain ⟨r, hr, -⟩ := bind_eq_ok.mp h
    exact ⟨r, hr⟩
  · rintro ⟨r, hr⟩
    exact ⟨chan, by rw [hr]; rfl⟩

theorem useDescriptorIn_other {tag : UInt8} (htag : tag ≠ 0x48) {chan' : SdtChannel}
    (h : useDescriptorIn iconvOpen byte n tag a chan = .ok chan') : chan' = chan := by
  rw [useDescriptorIn, if_neg htag] at h
  split at h
  · obtain ⟨r, -, h⟩ := bind_eq_ok.mp h
    exact (Except.ok.inj h).symm
  · split at h
    · obtain ⟨r, -, h⟩ := bind_eq_ok.mp h
      exact (Except.ok.inj h).symm
    · exact (Except.ok.inj h).symm

/-- One turn of `parse_sdt_descriptor`, but for the step. -/
def readDescriptorIn (iconvOpen : IconvOpen) (byte : Nat → UInt8) (n : Nat) (chan : SdtChannel)
    (buf : Nat) : Checked SdtChannel := do
  let descriptorTag ← readAt byte n buf
  let len ← readAt byte n (buf + 1)
  if (len + 2).toNat = 0 then return chan
  else useDescriptorIn iconvOpen byte n descriptorTag buf chan

theorem readDescriptorIn_head (h : a + 2 ≤ n) :
    readDescriptorIn iconvOpen byte n chan a = if stepAt byte a = 0 then .ok chan
      else useDescriptorIn iconvOpen byte n (byte a) a chan := by
  rw [readDescriptorIn, readAt_ok (by omega), bind_ok, readAt_ok (by omega), bind_ok]
  rfl

theorem readDescriptorIn_ok_iff :
    (∃ chan', readDescriptorIn iconvOpen byte n chan a = .ok chan') ↔
      DescriptorInside byte n a ∧ (Tagged byte 0x48 a →
        NameFits iconvOpen chan.serviceName.cells (nameBytes byte a)) := by
  by_cases hhead : a + 2 ≤ n
  · rw [readDescriptorIn_head hhead]
    by_cases hstep : stepAt byte a = 0
    · have hnone : ∀ tag, ¬ Tagged byte tag a := fun tag h => h.1 hstep
      rw [if_pos hstep]
      exact iff_of_true ⟨chan, rfl⟩ ⟨⟨hhead, fun h => absurd h (hnone _),
        fun h => absurd h (hnone _), fun h => absurd h (hnone _), fun h => absurd h (hnone _)⟩,
        fun h => absurd h (hnone _)⟩
    · have htagged : ∀ tag, Tagged byte tag a ↔ byte a = tag := fun tag => and_iff_right hstep
      have hinside : DescriptorInside byte n a ↔
          (byte a = 0x48 → nameAt byte a + 1 + (byte (nameAt byte a)).toNat ≤ n) ∧
          (byte a = 0x53 → GroupsInside n 2 (a + 2) (byte (a + 1)).toNat) ∧
          (byte a = 0x49 → a + 3 ≤ n ∧ GroupsInside n 3 (a + 3) ((byte (a + 1)).toNat - 1)) := by
        simp only [← htagged]
        exact ⟨fun h => ⟨h.name, h.caSystems, fun ht => ⟨h.countryFlag ht, h.countries ht⟩⟩,
          fun h => ⟨hhead, h.1, h.2.1, fun ht => (h.2.2 ht).1, fun ht => (h.2.2 ht).2⟩⟩
      rw [if_neg hstep, hinside, htagged, useDescriptorIn]
      by_cases hservice : byte a = 0x48
      · rw [if_pos hservice, parseServiceDescriptorIn_ok_iff]
        simp [hservice]
      · rw [if_neg hservice]
        by_cases hca : byte a = 0x53
        · rw [if_pos hca, shown_ok_iff, showCaIdentifierDescriptorIn_ok_iff hhead]
          simp [hca]
        · rw [if_neg hca]
          by_cases hcountry : byte a = 0x49
          · rw [if_pos hcountry, shown_ok_iff,
              tsDisplayCountryAvaibilityDescriptorIn_ok_iff hhead]
            simp [hcountry]
          · rw [if_neg hcountry]
            exact iff_of_true ⟨chan, rfl⟩ (by simp [hservice, hca, hcountry])
  · refine iff_of_false ?_ fun h => hhead h.1.head
    rintro ⟨chan', h⟩
    obtain ⟨tag, -, h⟩ := bind_eq_ok.mp h
    obtain ⟨len, hlen, -⟩ := bind_eq_ok.mp h
    have := (readAt_eq_ok.mp hlen).1
    omega

theorem readDescriptorIn_eq_ok {chan' : SdtChannel}
    (h : readDescriptorIn iconvOpen byte n chan a = .ok chan') :
    chan'.serviceId = chan.serviceId ∧
      chan'.serviceName.cells = nameBehind iconvOpen byte chan.serviceName.cells a := by
  have hhead := (readDescriptorIn_ok_iff.mp ⟨chan', h⟩).1.head
  rw [readDescriptorIn_head hhead] at h
  rw [nameBehind]
  split at h
  case isTrue hstep =>
    cases h
    exact ⟨rfl, (if_neg fun ht => ht.1 hstep).symm⟩
  case isFalse hstep =>
    by_cases hservice : byte a = 0x48
    · rw [useDescriptorIn, if_pos hservice] at h
      rw [if_pos ⟨hstep, hservice⟩]
      exact parseServiceDescriptorIn_eq_ok h
    · rw [if_neg fun ht => hservice ht.2, useDescriptorIn_other hservice h]
      exact ⟨rfl, rfl⟩

/-- The loop of `parse_sdt_descriptor` is one over the places that it comes to. -/
theorem parseSdtDescriptorIn_eq {fuel remaining : Nat} (h : remaining ≤ fuel) :
    parseSdtDescriptorIn iconvOpen byte n (fuel + 1) a remaining chan =
      (placesFrom byte fuel a remaining).foldlM (readDescriptorIn iconvOpen byte n) chan := by
  induction fuel generalizing a remaining chan with
  | zero =>
    rw [parseSdtDescriptorIn, if_neg (by omega)]
    rfl
  | succ fuel ih =>
    rw [parseSdtDescriptorIn, placesFrom]
    by_cases hmore : 0 < remaining
    · rw [if_pos hmore, if_pos hmore, List.foldlM_cons, readDescriptorIn]
      cases htag : readAt byte n a with
      | error e => rfl
      | ok tag =>
        cases hlen : readAt byte n (a + 1) with
        | error e => rfl
        | ok len =>
          have hstep : (len + 2).toNat = stepAt byte a := by
            rw [stepAt, (readAt_eq_ok.mp hlen).2]
          simp only [bind_ok, hstep]
          by_cases hzero : stepAt byte a = 0
          · simp only [if_pos hzero]
            rfl
          · have hrest := fun chan => @ih (a + stepAt byte a) chan (remaining - stepAt byte a)
              (by omega)
            simp only [if_neg hzero, hrest]
    · rw [if_neg hmore, if_neg hmore]
      rfl

end descriptor

section service

variable {ids : List Int} {channels : List SdtChannel} {delta : Nat}

/-- The arrays of the names. -/
def nameCells (channels : List SdtChannel) : List (List UInt8) :=
  channels.map fun chan => chan.serviceName.cells

def channelIds (channels : List SdtChannel) : List Int := channels.map SdtChannel.serviceId

theorem updateService_ok_iff {chan : SdtChannel} :
    (∃ chan', (places byte delta).foldlM (readDescriptorIn iconvOpen byte n) chan = .ok chan') ↔
      (∀ a ∈ places byte delta, DescriptorInside byte n a) ∧
        ServiceFits iconvOpen byte chan.serviceName.cells delta := by
  rw [ServiceFits, ← throughout_and]
  refine foldlM_ok_iff (fun _ => True) (fun c : SdtChannel => c.serviceName.cells) ?_ ?_ trivial
  · exact fun chan _ a _ => readDescriptorIn_ok_iff
  · exact fun chan _ a _ chan' h => ⟨trivial, (readDescriptorIn_eq_ok h).2⟩

theorem updateService_eq_ok {chan chan' : SdtChannel}
    (h : (places byte delta).foldlM (readDescriptorIn iconvOpen byte n) chan = .ok chan') :
    chan'.serviceId = chan.serviceId ∧ chan'.serviceName.cells =
      (places byte delta).foldl (nameBehind iconvOpen byte) chan.serviceName.cells := by
  refine foldlM_view (fun chan₁ => chan₁.serviceId = chan.serviceId)
    (fun c : SdtChannel => c.serviceName.cells) ?_ rfl h
  intro chan₁ hsame a _ chan₂ hread
  obtain ⟨hid, hname⟩ := readDescriptorIn_eq_ok hread
  exact ⟨hid.trans hsame, hname⟩

theorem serviceAt_ok (h : delta + 9 ≤ n) :
    readHilo (readAt byte n) 256 delta = .ok (serviceIdAt byte delta) ∧
      readAt byte n (delta + 3) = .ok (byte (delta + 3)) ∧
      readHilo (readAt byte n) 16 (delta + 3) = .ok (loopLenAt byte delta) := by
  rw [readHilo_ok (by omega), readAt_ok (by omega), readHilo_ok (by omega)]
  exact ⟨congrArg (fun hi => Except.ok (hilo hi _)) (Nat.mod_eq_of_lt (UInt8.toNat_lt _)), rfl, rfl⟩

/-- The channel that a service goes into. -/
theorem lastIndex_channelAt (channels : List SdtChannel) (delta : Nat) :
    lastIndex (fun chan => chan.serviceId = (serviceIdAt byte delta : Int)) channels =
      channelAt byte (channelIds channels) delta := by
  rw [channelAt, channelIds, lastIndex_map]

theorem sdtServiceIn_none (h : delta + 9 ≤ n)
    (hnone : channelAt byte (channelIds channels) delta = none) :
    sdtServiceIn iconvOpen byte n channels delta = .ok channels := by
  rw [sdtServiceIn, (serviceAt_ok h).1, bind_ok, lastIndex_channelAt, hnone]
  rfl

theorem sdtServiceIn_some (h : delta + 9 ≤ n) {i : Nat}
    (hsome : channelAt byte (channelIds channels) delta = some i) :
    ∃ chan freeCaMode, channels[i]? = some chan ∧ chan.serviceId = serviceIdAt byte delta ∧
      sdtServiceIn iconvOpen byte n channels delta = (places byte delta).foldlM
        (readDescriptorIn iconvOpen byte n) { chan with freeCaMode := freeCaMode } >>=
          fun chan' => pure (channels.set i chan') := by
  obtain ⟨hid, hflags, hlen⟩ := serviceAt_ok h
  rw [← lastIndex_channelAt] at hsome
  obtain ⟨chan, hfound, hservice⟩ := lastIndex_some hsome
  refine ⟨chan, (byte (delta + 3)).toNat / 16 % 2 = 1, hfound, by simpa using hservice, ?_⟩
  rw [sdtServiceIn, hid, bind_ok, hsome]
  dsimp only
  rw [hflags, bind_ok, hlen, bind_ok, hfound]
  dsimp only
  rw [parseSdtDescriptorIn_eq (Nat.le_refl _)]
  rfl

/-- Where the descriptors of the known services lie, and how long their names get. -/
theorem sdtServiceIn_ok_iff (h : delta + 9 ≤ n) :
    (∃ channels', sdtServiceIn iconvOpen byte n channels delta = .ok channels') ↔
      ((serviceIdAt byte delta : Int) ∈ channelIds channels →
        ∀ a ∈ places byte delta, DescriptorInside byte n a) ∧
      ∀ i, channelAt byte (channelIds channels) delta = some i →
        ∀ cells, (nameCells channels)[i]? = some cells →
          ServiceFits iconvOpen byte cells delta := by
  cases hchannel : channelAt byte (channelIds channels) delta with
  | none =>
    have hunknown : (serviceIdAt byte delta : Int) ∉ channelIds channels := fun hmem =>
      of_decide_eq_false (lastIndex_eq_none.mp hchannel _ hmem) rfl
    rw [sdtServiceIn_none h hchannel]
    exact iff_of_true ⟨channels, rfl⟩ ⟨fun hmem => absurd hmem hunknown, fun i hi => by cases hi⟩
  | some i =>
    obtain ⟨chan, freeCaMode, hfound, hid, hread⟩ :=
      @sdtServiceIn_some iconvOpen _ _ _ _ h i hchannel
    have hknown : (serviceIdAt byte delta : Int) ∈ channelIds channels :=
      List.mem_map.mpr ⟨chan, List.mem_of_getElem? hfound, hid⟩
    have hcells : (nameCells channels)[i]? = some chan.serviceName.cells := by
      rw [nameCells, List.getElem?_map, hfound]
      rfl
    have hupdate := @updateService_ok_iff iconvOpen byte n delta
      { chan with freeCaMode := freeCaMode }
    rw [hread, imp_iff_right hknown]
    simp only [Option.some.injEq, forall_eq', hcells]
    rw [← hupdate]
    constructor
    · rintro ⟨channels', h⟩
      obtain ⟨chan', hchan, -⟩ := bind_eq_ok.mp h
      exact ⟨chan', hchan⟩
    · rintro ⟨chan', hchan⟩
      exact ⟨channels.set i chan', by rw [hchan]; rfl⟩

theorem sdtServiceIn_eq_ok (h : delta + 9 ≤ n) {channels' : List SdtChannel}
    (hread : sdtServiceIn iconvOpen byte n channels delta = .ok channels') :
    channelIds channels' = channelIds channels ∧ nameCells channels' =
      namesBehind iconvOpen byte (channelIds channels) (nameCells channels) delta := by
  rw [namesBehind]
  cases hchannel : channelAt byte (channelIds channels) delta with
  | none =>
    rw [sdtServiceIn_none h hchannel] at hread
    cases hread
    exact ⟨rfl, rfl⟩
  | some i =>
    obtain ⟨chan, freeCaMode, hfound, -, heq⟩ := @sdtServiceIn_some iconvOpen _ _ _ _ h i hchannel
    rw [heq] at hread
    obtain ⟨chan', hchan, hread⟩ := bind_eq_ok.mp hread
    cases hread
    obtain ⟨hid, hname⟩ := updateService_eq_ok hchan
    have hids : (channelIds channels)[i]? = some chan.serviceId := by
      rw [channelIds, List.getElem?_map, hfound]
      rfl
    have hcells : (nameCells channels)[i]? = some chan.serviceName.cells := by
      rw [nameCells, List.getElem?_map, hfound]
      rfl
    constructor
    · obtain ⟨hlt, hget⟩ := List.getElem?_eq_some_iff.mp hids
      rw [channelIds, List.map_set, hid, ← channelIds]
      dsimp only
      rw [← hget, List.set_getElem_self hlt]
    · rw [nameCells, List.map_set, hname, ← nameCells]
      dsimp only
      rw [List.modify_eq_set_getElem?, hcells]
      rfl

theorem mem_services {delta : Nat} (h : delta ∈ services byte n) : delta + 9 ≤ n := by
  have hall : ∀ fuel start, delta ∈ servicesFrom byte n fuel start → delta + 9 ≤ n := by
    intro fuel
    induction fuel with
    | zero => exact fun start hmem => by cases hmem
    | succ fuel ih =>
      intro start hmem
      rw [servicesFrom] at hmem
      split at hmem
      case isTrue hle =>
        rcases List.mem_cons.mp hmem with rfl | hmem
        · exact hle
        · exact ih _ hmem
      case isFalse => cases hmem
  exact hall _ _ h

/-- The loop over the services is one over the list of their places. -/
theorem sdtLoopIn_eq {fuel : Nat} (h : n ≤ delta + fuel) :
    sdtLoopIn iconvOpen byte n (fuel + 1) delta channels =
      (servicesFrom byte n fuel delta).foldlM (sdtServiceIn iconvOpen byte n) channels := by
  induction fuel generalizing delta channels with
  | zero =>
    rw [sdtLoopIn, if_neg (by simp only [sdtDescrLen]; omega)]
    rfl
  | succ fuel ih =>
    rw [sdtLoopIn, servicesFrom]
    by_cases hmore : delta + (4 + sdtDescrLen) ≤ n
    · have hlen := (@serviceAt_ok byte n delta hmore).2.2
      have hrest := fun channels => @ih channels (delta + (loopLenAt byte delta + sdtDescrLen))
        (by simp only [sdtDescrLen]; omega)
      rw [if_pos hmore, if_pos hmore, List.foldlM_cons, hlen]
      simp only [bind_ok, hrest]
    · rw [if_neg hmore, if_neg hmore]
      rfl

theorem sdtLoopIn_ok_iff :
    (∃ channels', sdtLoopIn iconvOpen byte n (n + 1) sdtLen channels = .ok channels') ↔
      (∀ delta ∈ services byte n, (serviceIdAt byte delta : Int) ∈ channelIds channels →
        ∀ a ∈ places byte delta, DescriptorInside byte n a) ∧
      NamesFit iconvOpen byte n (channelIds channels) (nameCells channels) := by
  rw [sdtLoopIn_eq (Nat.le_add_left _ _), NamesFit, ← throughout_and]
  refine foldlM_ok_iff (fun c => channelIds c = channelIds channels) nameCells ?_ ?_ rfl
  · intro c hids delta hdelta
    rw [sdtServiceIn_ok_iff (mem_services hdelta), hids]
  · intro c hids delta hdelta c' hread
    obtain ⟨hsame, hnames⟩ := sdtServiceIn_eq_ok (mem_services hdelta) hread
    rw [hids] at hsame hnames
    exact ⟨hsame, hnames⟩

end service

/-- The section is an SDT that has not been seen. -/
def IsRead (s : AutoP) : Prop :=
  tableId s.sdt.temp.dataFull.cells = 0x42 ∧ ¬ s.sdt.Skips s.sdt.temp.dataFull.cells

/-- As much of the header as is looked at lies in the section; so do the descriptors of the
services that a channel has, and their names fit. -/
structure SdtInside (iconvOpen : IconvOpen) (s : AutoP) (channels : List SdtChannel) : Prop where
  tableId : 0 < s.sdt.temp.lenFull
  sectionNumber : TsHeader.tableId s.sdt.temp.dataFull.cells = 0x42 → 7 ≤ s.sdt.temp.lenFull
  header : IsRead s → 10 ≤ s.sdt.temp.lenFull
  descriptors : IsRead s →
    ∀ delta ∈ services (byteAt s.sdt.temp.dataFull.cells) s.sdt.temp.lenFull,
      (serviceIdAt (byteAt s.sdt.temp.dataFull.cells) delta : Int) ∈ channelIds channels →
        ∀ a ∈ places (byteAt s.sdt.temp.dataFull.cells) delta,
          DescriptorInside (byteAt s.sdt.temp.dataFull.cells) s.sdt.temp.lenFull a
  names : IsRead s → NamesFit iconvOpen (byteAt s.sdt.temp.dataFull.cells) s.sdt.temp.lenFull
    (channelIds channels) (nameCells channels)

/-- Reading an SDT ends, reads only of the section and writes only inside of the names exactly
when the header and the descriptors that it comes to lie in the section and the names fit. -/
theorem autoconfReadSdtIn_ok_iff (iconvOpen : IconvOpen) (s : AutoP) (channels : List SdtChannel) :
    (∃ r, autoconfReadSdtIn iconvOpen s channels = .ok r) ↔ SdtInside iconvOpen s channels := by
  have hloop := @sdtLoopIn_ok_iff iconvOpen (byteAt s.sdt.temp.dataFull.cells)
    s.sdt.temp.lenFull channels
  obtain ⟨tracker, hstore, -⟩ := s.sdt.store_renew s.sdt.temp.dataFull.cells
  rw [autoconfReadSdtIn]
  dsimp only
  by_cases hone : 0 < s.sdt.temp.lenFull
  · rw [readAt_ok hone, bind_ok]
    by_cases htable : tableId s.sdt.temp.dataFull.cells = 0x42
    · rw [if_neg (not_not.mpr htable)]
      by_cases hseven : 7 ≤ s.sdt.temp.lenFull
      · obtain ⟨bytes, hbytes⟩ := (@readBytes_ok_iff (byteAt s.sdt.temp.dataFull.cells)
          s.sdt.temp.lenFull 5 2).mpr fun _ => hseven
        rw [hbytes, bind_ok, Tracker.alreadySeen_eq, bind_ok]
        by_cases hskips : s.sdt.Skips s.sdt.temp.dataFull.cells
        · rw [if_pos (decide_eq_true hskips)]
          exact iff_of_true ⟨_, rfl⟩ ⟨hone, fun _ => hseven, fun h => absurd hskips h.2,
            fun h => absurd hskips h.2, fun h => absurd hskips h.2⟩
        · have hread : IsRead s := ⟨htable, hskips⟩
          rw [if_neg (by simpa using hskips), hstore, bind_ok]
          by_cases hten : 10 ≤ s.sdt.temp.lenFull
          · rw [readHilo_ok (by omega), bind_ok, readAt_ok (by omega), bind_ok,
              readHilo_ok (by omega), bind_ok]
            constructor
            · rintro ⟨r, h⟩
              obtain ⟨channels', hchannels, -⟩ := bind_eq_ok.mp h
              obtain ⟨hinside, hfit⟩ := hloop.mp ⟨channels', hchannels⟩
              exact ⟨hone, fun _ => hseven, fun _ => hten, fun _ => hinside, fun _ => hfit⟩
            · intro h
              obtain ⟨channels', hchannels⟩ := hloop.mpr ⟨h.descriptors hread, h.names hread⟩
              rw [hchannels, bind_ok]
              split
              · exact ⟨_, rfl⟩
              · exact ⟨_, rfl⟩
          · refine iff_of_false ?_ fun h => hten (h.header hread)
            rintro ⟨r, h⟩
            obtain ⟨_, -, h⟩ := bind_eq_ok.mp h
            obtain ⟨_, -, h⟩ := bind_eq_ok.mp h
            obtain ⟨_, hnetwork, -⟩ := bind_eq_ok.mp h
            obtain ⟨_, -, hnetwork⟩ := bind_eq_ok.mp hnetwork
            obtain ⟨_, hnetwork, -⟩ := bind_eq_ok.mp hnetwork
            have := (readAt_eq_ok.mp hnetwork).1
            omega
      · refine iff_of_false ?_ fun h => hseven (h.sectionNumber htable)
        rintro ⟨r, h⟩
        obtain ⟨bytes, hbytes, -⟩ := bind_eq_ok.mp h
        have := readBytes_ok_iff.mp ⟨bytes, hbytes⟩ (by decide)
        omega
    · rw [if_pos htable]
      exact iff_of_true ⟨_, rfl⟩ ⟨hone, fun h => absurd h htable, fun h => absurd h.1 htable,
        fun h => absurd h.1 htable, fun h => absurd h.1 htable⟩
  · rw [readAt_outside hone]
    exact iff_of_false (fun ⟨r, h⟩ => nomatch h) fun h => hone h.tableId

section refinement

/-- A channel of the autoconfiguration as the reading of the SDT sees it. -/
structure Seen (chan : AutoChannel) (c : SdtChannel) : Prop where
  serviceId : chan.http.serviceId = c.serviceId
  serviceType : chan.serviceType = c.serviceType
  freeCaMode : chan.freeCaMode = c.freeCaMode

/-- The surroundings with a memory of the section only. -/
def sectionOnly (env : Surroundings) : Surroundings :=
  { env with byte := fun pkt => readAt (byteAt pkt.dataFull.cells) pkt.lenFull }

variable {convert : List UInt8 → List UInt8} {chan : AutoChannel} {c c' : SdtChannel}

theorem Seen.withMode (h : Seen chan c) (freeCaMode : Bool) :
    Seen { chan with freeCaMode := freeCaMode } { c with freeCaMode := freeCaMode } :=
  ⟨h.serviceId, h.serviceType, rfl⟩

theorem Seen.parseServiceDescriptor (h : Seen chan c) {buf : Nat}
    (hread : parseServiceDescriptorIn iconvOpen byte n buf c = .ok c') :
    ∃ chan', AutoconfTables.parseServiceDescriptor (readAt byte n) convert buf chan = .ok chan' ∧
      Seen chan' c' := by
  obtain ⟨serviceType, htype, hread⟩ := bind_eq_ok.mp hread
  obtain ⟨providerLen, hprovider, hread⟩ := bind_eq_ok.mp hread
  obtain ⟨len, hlen, hread⟩ := bind_eq_ok.mp hread
  obtain ⟨bytes, hbytes, hread⟩ := bind_eq_ok.mp hread
  obtain ⟨name, -, hread⟩ := bind_eq_ok.mp hread
  cases hread
  refine ⟨{ chan with serviceType := serviceType.toNat, serviceName := convert bytes }, ?_,
    h.serviceId, rfl, h.freeCaMode⟩
  rw [AutoconfTables.parseServiceDescriptor, htype, bind_ok, hprovider, bind_ok]
  dsimp only
  rw [hlen, bind_ok, hbytes]
  rfl

theorem Seen.useDescriptor (h : Seen chan c) {tag : UInt8} {buf : Nat}
    (hread : useDescriptorIn iconvOpen byte n tag buf c = .ok c') :
    ∃ chan', (if tag = 0x48 then
      AutoconfTables.parseServiceDescriptor (readAt byte n) convert buf chan else .ok chan) =
        .ok chan' ∧ Seen chan' c' := by
  by_cases hservice : tag = 0x48
  · rw [useDescriptorIn, if_pos hservice] at hread
    rw [if_pos hservice]
    exact h.parseServiceDescriptor hread
  · rw [if_neg hservice, useDescriptorIn_other hservice hread]
    exact ⟨chan, rfl, h⟩

theorem Seen.parseSdtDescriptor (h : Seen chan c) {fuel buf remaining : Nat}
    (hread : parseSdtDescriptorIn iconvOpen byte n fuel buf remaining c = .ok c') :
    ∃ chan', AutoconfTables.parseSdtDescriptor (readAt byte n) convert fuel buf remaining chan =
      .ok chan' ∧ Seen chan' c' := by
  induction fuel generalizing buf remaining chan c with
  | zero => cases hread
  | succ fuel ih =>
    rw [parseSdtDescriptorIn] at hread
    rw [AutoconfTables.parseSdtDescriptor]
    by_cases hmore : 0 < remaining
    · rw [if_pos hmore] at hread ⊢
      obtain ⟨tag, htag, hread⟩ := bind_eq_ok.mp hread
      obtain ⟨len, hlen, hread⟩ := bind_eq_ok.mp hread
      rw [htag, bind_ok, hlen, bind_ok]
      dsimp only at hread ⊢
      by_cases hzero : (len + 2).toNat = 0
      · rw [if_pos hzero] at hread ⊢
        cases hread
        exact ⟨chan, rfl, h⟩
      · rw [if_neg hzero] at hread ⊢
        obtain ⟨c₁, huse, hread⟩ := bind_eq_ok.mp hread
        obtain ⟨chan₁, huse', hseen⟩ :=
          @Seen.useDescriptor iconvOpen byte n convert _ _ _ h _ _ huse
        obtain ⟨chan', hrest, hseen'⟩ := ih hseen hread
        exact ⟨chan', by rw [huse', bind_ok, hrest], hseen'⟩
    · rw [if_neg hmore] at hread ⊢
      cases hread
      exact ⟨chan, rfl, h⟩

section channels

variable {chans : List AutoChannel} {channels : List SdtChannel}

theorem ids_seen (h : List.Forall₂ Seen chans channels) :
    chans.map (fun chan => chan.http.serviceId) = channels.map SdtChannel.serviceId := by
  induction h with
  | nil => rfl
  | cons hchan _ ih => rw [List.map_cons, List.map_cons, hchan.serviceId, ih]

theorem lastIndex_seen (h : List.Forall₂ Seen chans channels) (serviceId : Nat) :
    lastIndex (hasService serviceId) chans =
      lastIndex (fun c => c.serviceId = (serviceId : Int)) channels := by
  have hleft := lastIndex_map (fun chan : AutoChannel => chan.http.serviceId)
    (fun id => id = (serviceId : Int)) chans
  rw [ids_seen h, lastIndex_map] at hleft
  exact hleft.symm

theorem getElem_seen (h : List.Forall₂ Seen chans channels) {i : Nat}
    (hfound : channels[i]? = some c) :
    ∃ chan, chans[i]? = some chan ∧ Seen chan c := by
  induction h generalizing i with
  | nil => cases hfound
  | @cons chan _ _ _ hchan _ ih =>
    cases i with
    | zero =>
      cases hfound
      exact ⟨chan, rfl, hchan⟩
    | succ i => exact ih hfound

theorem set_seen (h : List.Forall₂ Seen chans channels) (hchan : Seen chan c) (i : Nat) :
    List.Forall₂ Seen (chans.set i chan) (channels.set i c) := by
  induction h generalizing i with
  | nil => exact .nil
  | cons hfirst hrest ih =>
    cases i with
    | zero => exact .cons hchan hrest
    | succ i => exact .cons hfirst (ih i)

end channels

theorem sdtLoop_seen {chanP : MumuChanP} {channels channels' : List SdtChannel} {fuel delta : Nat}
    (h : List.Forall₂ Seen chanP.channels channels)
    (hread : sdtLoopIn iconvOpen byte n fuel delta channels = .ok channels') :
    ∃ chanP', sdtLoop (readAt byte n) convert n fuel delta chanP = .ok chanP' ∧
      List.Forall₂ Seen chanP'.channels channels' := by
  induction fuel generalizing delta chanP channels with
  | zero => cases hread
  | succ fuel ih =>
    rw [sdtLoopIn] at hread
    rw [sdtLoop]
    by_cases hmore : delta + (4 + sdtDescrLen) ≤ n
    · obtain ⟨hid, hflags, hlen⟩ := @serviceAt_ok byte n delta hmore
      rw [if_pos hmore] at hread ⊢
      obtain ⟨channels₁, hservice, hread⟩ := bind_eq_ok.mp hread
      rw [hlen, bind_ok] at hread
      rw [hid, bind_ok, hflags, bind_ok, hlen, bind_ok, lastIndex_seen h]
      rw [sdtServiceIn, hid, bind_ok] at hservice
      cases hlast : lastIndex (fun c => c.serviceId = (serviceIdAt byte delta : Int)) channels with
      | none =>
        rw [hlast] at hservice
        cases hservice
        exact ih h hread
      | some i =>
        rw [hlast] at hservice
        dsimp only at hservice ⊢
        obtain ⟨c, hfound, -⟩ := lastIndex_some hlast
        obtain ⟨chan, hfound', hchan⟩ := getElem_seen h hfound
        rw [hflags, bind_ok, hlen, bind_ok, hfound] at hservice
        obtain ⟨c', hparse, hservice⟩ := bind_eq_ok.mp hservice
        cases hservice
        obtain ⟨chan', hparse', hchan'⟩ := @Seen.parseSdtDescriptor iconvOpen byte n convert _ _ _
          (hchan.withMode ((byte (delta + 3)).toNat / 16 % 2 = 1)) _ _ _ hparse
        rw [MumuChanP.modify, hfound']
        dsimp only
        rw [updateService, hparse', bind_ok, pure_ok, bind_ok]
        exact ih (set_seen h hchan' i) hread
    · rw [if_neg hmore] at hread ⊢
      cases hread
      exact ⟨chanP, rfl, h⟩

/-- Where only the section is read, the reader of the tables reads the same of it, whatever is
made of the names. -/
theorem autoconfReadSdt_seen {env : Surroundings} {s s' : AutoP} {chanP : MumuChanP}
    {channels channels' : List SdtChannel} (h : List.Forall₂ Seen chanP.channels channels)
    (hread : autoconfReadSdtIn iconvOpen s channels = .ok (s', channels')) :
    ∃ chanP', autoconfReadSdt (sectionOnly env) s chanP = .ok (s', chanP') ∧
      List.Forall₂ Seen chanP'.channels channels' := by
  rw [autoconfReadSdtIn] at hread
  rw [autoconfReadSdt]
  dsimp only at hread ⊢
  obtain ⟨_, -, hread⟩ := bind_eq_ok.mp hread
  by_cases htable : tableId s.sdt.temp.dataFull.cells ≠ 0x42
  · rw [if_pos htable] at hread ⊢
    cases hread
    exact ⟨chanP, rfl, h⟩
  · rw [if_neg htable] at hread ⊢
    obtain ⟨_, -, hread⟩ := bind_eq_ok.mp hread
    rw [Tracker.alreadySeen_eq, bind_ok] at hread ⊢
    split at hread
    case isTrue hskips =>
      cases hread
      rw [if_pos hskips]
      exact ⟨chanP, rfl, h⟩
    case isFalse hnew =>
      rw [if_neg hnew]
      obtain ⟨tracker, hstore, hread⟩ := bind_eq_ok.mp hread
      obtain ⟨_, -, hread⟩ := bind_eq_ok.mp hread
      obtain ⟨_, -, hread⟩ := bind_eq_ok.mp hread
      obtain ⟨originalNetworkId, hnetwork, hread⟩ := bind_eq_ok.mp hread
      obtain ⟨channels₁, hloop, hread⟩ := bind_eq_ok.mp hread
      obtain ⟨chanP', hloop', hseen⟩ := @sdtLoop_seen iconvOpen _ _
        env.convertEn300468String _ _ _ _ _ h hloop
      rw [hstore, bind_ok, sectionOnly]
      dsimp only
      rw [hnetwork, bind_ok, hloop', bind_ok]
      split at hread
      case isTrue hmissing =>
        cases hread
        rw [if_pos hmissing]
        exact ⟨chanP', rfl, hseen⟩
      case isFalse hcomplete =>
        cases hread
        rw [if_neg hcomplete]
        exact ⟨chanP', rfl, hseen⟩

end refinement

/-- The descriptors of the service are said to be longer than the section. -/
def farSdt : List UInt8 :=
  [0x42, 0xf0, 0x11, 0x00, 0x01, 0xc1, 0x00, 0x00, 0x00, 0x01, 0xff, 0x00, 0x01, 0xfc, 0x8f, 0xff,
    0xbb, 0xc0, 0xa7, 0x7a]

/-- The name of the service is 170 Thai letters and two Latin ones. -/
def thaiSdt : List UInt8 :=
  [0x42, 0xf0, 0xc3, 0x00, 0x01, 0xc1, 0x00, 0x00, 0x00, 0x01, 0xff, 0x00, 0x01, 0xfc, 0x80, 0xb2,
    0x48, 0xb0, 0x01, 0x00, 0xad, 0x07] ++ (List.replicate 170 0xa1 ++
    [0x41, 0x41, 0xa0, 0x8a, 0x45, 0xff])

theorem thaiSdt_length : thaiSdt.length ≤ maxTsSize := by decide +kernel

/-- A letter of ISO 8859-11 in UTF-8. -/
def thaiLetter (c : UInt8) : List UInt8 :=
  if c < 0x80 then [c]
  else [0xe0, UInt8.ofNat (0x80 + (0xd60 + c.toNat) / 64 % 64),
    UInt8.ofNat (0x80 + (0xd60 + c.toNat) % 64)]

/-- Whole letters, as long as there is room. -/
def thaiText : List UInt8 → Nat → List UInt8
  | [], _ => []
  | c :: text, room =>
    if (thaiLetter c).length ≤ room then
      thaiLetter c ++ thaiText text (room - (thaiLetter c).length)
    else []

theorem thaiText_fits (text : List UInt8) (room : Nat) : (thaiText text room).length ≤ room := by
  induction text generalizing room with
  | nil => exact Nat.zero_le room
  | cons c text ih =>
    have hrest := ih (room - (thaiLetter c).length)
    rw [thaiText]
    split
    · rw [List.length_append]
      omega
    · exact Nat.zero_le room

def thaiIconv : IconvOpen := fun target source =>
  if target = "UTF8" ∧ source = "ISO8859-11" then some ⟨thaiText, thaiText_fits⟩ else none

/-- A section has come, and nothing has been read. -/
def holding (sdt : List UInt8) (h : sdt.length ≤ maxTsSize) : AutoP :=
  { TableReads.started with
    sdt := { TableReads.started.sdt with temp := CatCollection.handedOut sdt h } }

/-- The channel of the service 1, with no name. -/
def channelOne : List SdtChannel := [⟨1, 0, false, .zeros⟩]

/-- The CRC is right, and the section is read beyond its end; or `iconv` fills the array, and the
zero is written behind it. -/
theorem sdtReads_not_inside :
    (Accepted farSdt ∧ sectionSize farSdt = farSdt.length ∧
      (autoconfReadSdtIn thaiIconv (holding farSdt (by decide)) channelOne).map (fun _ => ()) =
        .error .outOfBounds) ∧
    Accepted thaiSdt ∧ sectionSize thaiSdt = thaiSdt.length ∧
      (autoconfReadSdtIn thaiIconv (holding thaiSdt thaiSdt_length) channelOne).map (fun _ => ()) =
        .error .outOfBounds := by
  decide +kernel

end MuMuDVB.SdtReads
