import MuMuDVB.FuelLoop
import MuMuDVB.Ts

/-!
# Reading the conditional access table

`autoconf_read_cat` takes the CA descriptors of a complete section into the
list of CA systems. The position advances by an `unsigned char`, as in the SDT
rewriting; here the loop gives up where a descriptor does not fit.
-/
namespace MuMuDVB.AutoconfCat

open CheckedMemory FuelLoop MuMuDVB.TsHeader MuMuDVB.Ts

/-- Size of the CAT header. -/
@[simp] abbrev catLen : Nat := 8
/-- Size of the part of a CA descriptor that is read. -/
@[simp] abbrev descrCaLen : Nat := 6
@[simp] abbrev maxCaSystems : Nat := 32
@[simp] abbrev maxChannels : Nat := 128

/-- `mumudvb_ca_system_t`. -/
structure CaSystem where
  id : Int
  emmPid : Int

/-- The part of `auto_p_t` that the CAT reading uses. -/
structure AutoP where
  autoconfTempCat : MumudvbTsPacket
  catNeedUpdate : Bool
  catVersion : Int
  catSectionsSeen : Buffer Bool 256
  catAllSectionsSeen : Bool
  sdtVersion : Int
  caSystemList : Buffer CaSystem maxCaSystems

/-- What the CAT reading uses of a channel. -/
structure CaChannel where
  caSysId : Buffer Int 32
  pmtVersion : Int

/-- `autoconf_clear_ca_system_list`: the pids stay. -/
def autoconfClearCaSystemList (list : Buffer CaSystem maxCaSystems) : Buffer CaSystem maxCaSystems :=
  ⟨list.cells.map (fun ca => { ca with id := -1 }), by rw [List.length_map, list.length_cells]⟩

section descr

variable (d : List UInt8)

def caType : Nat := hilo (byteAt d 2).toNat (byteAt d 3).toNat
def caPid : Nat := hilo ((byteAt d 4).toNat % 32) (byteAt d 5).toNat

end descr

/-- The state of the loop over the descriptors. -/
structure CatWalk where
  delta : Nat
  caSystemListIndex : Nat
  caSystemList : Buffer CaSystem maxCaSystems

/-- One turn of the loop over the descriptors; it is done with the list of CA systems. -/
def catTurn (data : Buffer UInt8 maxTsSize) (lenFull : Nat) (w : CatWalk) :
    Checked (Turn CatWalk (Buffer CaSystem maxCaSystems)) :=
  if w.delta + 2 < sectionLength data.cells then do
    let descriptorTag ← data.read w.delta
    let len ← data.read (w.delta + 1)
    -- an unsigned char: 254 and 255 wrap around
    let descriptorLen := (len + 2).toNat
    if lenFull ≤ w.delta + descriptorLen then return .done w.caSystemList
    else if descriptorTag = 0x09 then
      if lenFull ≤ w.delta + descrCaLen then return .done w.caSystemList
      else do
        let caDescriptor ← data.slice w.delta descrCaLen
        if maxCaSystems ≤ w.caSystemListIndex then return .done w.caSystemList
        else do
          let list ← w.caSystemList.write w.caSystemListIndex
            [⟨caType caDescriptor, caPid caDescriptor⟩]
          return .again ⟨w.delta + descriptorLen, w.caSystemListIndex + 1, list⟩
    else return .again { w with delta := w.delta + descriptorLen }
  else .ok (.done w.caSystemList)

/-- A turn takes a byte of the section or a place of the list. -/
@[simp] abbrev catFuel : Nat := maxTsSize + maxCaSystems + 1

/-- The head of `autoconf_read_cat`: a new version starts again, and the section is noted. -/
def noteCatSection (autoP : AutoP) (cat : List UInt8) : Checked AutoP := do
  let autoP := if (versionNumber cat : Int) = autoP.catVersion then autoP
    else { autoP with
      catAllSectionsSeen := false
      sdtVersion := -1
      catSectionsSeen := Buffer.fill _ false
      catVersion := versionNumber cat }
  let seen ← autoP.catSectionsSeen.write (sectionNumber cat) [true]
  return { autoP with catSectionsSeen := seen }

/-- The end of `autoconf_read_cat`: once no section is missing, the channels with a CA system
read their PMT again. -/
def finishCat (autoP : AutoP) (cat : List UInt8) (channels : List CaChannel) :
    AutoP × List CaChannel :=
  let sectionsMissing := (autoP.catSectionsSeen.cells.take (lastSectionNumber cat + 1)).count false
  if sectionsMissing ≠ 0 then (autoP, channels)
  else
    ({ autoP with catAllSectionsSeen := true, catNeedUpdate := false },
      (channels.take maxChannels).map (fun chan =>
        if chan.caSysId.cells.head? = some 0 then chan else { chan with pmtVersion := -1 }) ++
      channels.drop maxChannels)

/-- `autoconf_read_cat`. -/
def autoconfReadCat (autoP : AutoP) (channels : List CaChannel) :
    Checked (AutoP × List CaChannel) := do
  let data := autoP.autoconfTempCat.dataFull
  let cat := data.cells
  let seen ← autoP.catSectionsSeen.read (sectionNumber cat)
  if (versionNumber cat : Int) = autoP.catVersion ∧ seen = true then return (autoP, channels)
  else do
    let autoP ← noteCatSection autoP cat
    if currentNextIndicator cat = 0 then return (autoP, channels)
    else do
      let list ← run (catTurn data autoP.autoconfTempCat.lenFull) catFuel
        ⟨catLen, 0, autoconfClearCaSystemList autoP.caSystemList⟩
      return finishCat { autoP with caSystemList := list } cat channels

end MuMuDVB.AutoconfCat
