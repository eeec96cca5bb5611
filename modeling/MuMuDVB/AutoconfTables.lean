import MuMuDVB.AutoconfPat

/-!
# Reading the other tables

The SDT, the NIT and the VCT of an ATSC stream are read like the PAT: the
section is noted, and what it says goes into the channels. `autoconf_new_packet`
looks at the first section of a packet to see whether a table has to be read,
and reads sections until the table is complete.
-/
namespace MuMuDVB.AutoconfTables

open CheckedMemory MuMuDVB.TsHeader MuMuDVB.Ts MuMuDVB.Autoconf MuMuDVB.AutoconfPat
open MuMuDVB.RewritePat (programNumber)

@[simp] abbrev sdtLen : Nat := 11
@[simp] abbrev sdtDescrLen : Nat := 5
@[simp] abbrev nitLen : Nat := 10
@[simp] abbrev sizeNitMid : Nat := 2
@[simp] abbrev nitTsLen : Nat := 6
@[simp] abbrev nitLcnLen : Nat := 4
@[simp] abbrev psipHeaderLen : Nat := 9
@[simp] abbrev psipVctLen : Nat := 32

/-- What is outside: how bytes are read from `data_full` on, what the text libraries make of a
name of a service and of the names of a virtual channel, and whether the card is an ATSC one. -/
structure Surroundings where
  byte : MumudvbTsPacket → Nat → Checked UInt8
  convertEn300468String : List UInt8 → List UInt8
  vctName : List UInt8 → List UInt8 → List UInt8
  atsc : Bool

section sections

variable (read : Nat → Checked UInt8)

def readBytes (i len : Nat) : Checked (List UInt8) := (List.range len).mapM fun k => read (i + k)

/-- `HILO` of two bytes, the upper one being cut to a bit-field. -/
def readHilo (mask i : Nat) : Checked Nat := do
  let hi ← read i
  let lo ← read (i + 1)
  return hilo (hi.toNat % mask) lo.toNat

/-- `parse_service_descriptor`. -/
def parseServiceDescriptor (convert : List UInt8 → List UInt8) (buf : Nat) (chan : AutoChannel) :
    Checked AutoChannel := do
  let serviceType ← read (buf + 2)
  let providerLen ← read (buf + 3)
  let name := buf + 3 + (providerLen.toNat + 1)
  let len ← read name
  let bytes ← readBytes read (name + 1) len.toNat
  return { chan with serviceType := serviceType.toNat, serviceName := convert bytes }

/-- `parse_sdt_descriptor`; the descriptors that are only shown are passed over. -/
def parseSdtDescriptor (convert : List UInt8 → List UInt8) (fuel buf remaining : Nat)
    (chan : AutoChannel) : Checked AutoChannel :=
  match fuel with
  | 0 => .error .endless
  | fuel + 1 =>
    if 0 < remaining then do
      let descriptorTag ← read buf
      let len ← read (buf + 1)
      -- an unsigned char: 254 and 255 wrap around
      let descriptorLen := (len + 2).toNat
      if descriptorLen = 0 then return chan
      else do
        let chan ← (if descriptorTag = 0x48 then parseServiceDescriptor read convert buf chan
          else .ok chan)
        parseSdtDescriptor convert fuel (buf + descriptorLen) (remaining - descriptorLen) chan
    else .ok chan

/-- What the SDT says about a service goes into its channel. -/
def updateService (convert : List UInt8 → List UInt8) (delta loopLen : Nat) (freeCaMode : Bool)
    (chan : AutoChannel) : Checked AutoChannel :=
  parseSdtDescriptor read convert (loopLen + 1) (delta + sdtDescrLen) loopLen
    { chan with freeCaMode := freeCaMode }

/-- The loop of `autoconf_read_sdt` over the services. -/
def sdtLoop (convert : List UInt8 → List UInt8) (lenFull fuel delta : Nat) (chanP : MumuChanP) :
    Checked MumuChanP :=
  match fuel with
  | 0 => .error .endless
  | fuel + 1 =>
    if delta + (4 + sdtDescrLen) ≤ lenFull then do
      let serviceId ← readHilo read 256 delta
      let flags ← read (delta + 3)
      let loopLen ← readHilo read 16 (delta + 3)
      let chanP ← (match lastIndex (hasService serviceId) chanP.channels with
        | some i =>
          chanP.modify i (updateService read convert delta loopLen (flags.toNat / 16 % 2 = 1))
        | none => .ok chanP)
      sdtLoop convert lenFull fuel (delta + (loopLen + sdtDescrLen)) chanP
    else .ok chanP

/-- `parse_lcn_descriptor` from its first service on. -/
def lcnLoop (fuel buf remaining : Nat) (chanP : MumuChanP) : Checked MumuChanP :=
  match fuel with
  | 0 => .error .endless
  | fuel + 1 =>
    if 0 < remaining then do
      let serviceId ← readHilo read 256 buf
      let lcn ← readHilo read 4 (buf + 2)
      let chanP := chanP.map fun chan =>
        if hasService serviceId chan then { chan with logicalChannelNumber := lcn } else chan
      lcnLoop fuel (buf + nitLcnLen) (remaining - nitLcnLen) chanP
    else .ok chanP

/-- The descriptors of one transport stream in the NIT, and where they end. -/
def nitDescriptors (ours : Bool) (fuel buf remaining : Nat) (chanP : MumuChanP) :
    Checked (Nat × MumuChanP) :=
  match fuel with
  | 0 => .error .endless
  | fuel + 1 =>
    if 0 < remaining then do
      let descriptorTag ← read buf
      let len ← read (buf + 1)
      let descriptorLen := (len + 2).toNat
      if descriptorLen = 0 then return (buf, chanP)
      else do
        let chanP ← (if ours = true ∧ descriptorTag = 0x83 then
            lcnLoop read (len.toNat + 1) (buf + 2) len.toNat chanP
          else .ok chanP)
        nitDescriptors ours fuel (buf + descriptorLen) (remaining - descriptorLen) chanP
    else .ok (buf, chanP)

/-- `parse_nit_ts_descriptor`. -/
def parseNitTsDescriptor (patTsid : Int) (fuel buf remaining : Nat) (chanP : MumuChanP) :
    Checked MumuChanP :=
  match fuel with
  | 0 => .error .endless
  | fuel + 1 =>
    if 0 < remaining then do
      let tsId ← readHilo read 256 buf
      let loopLen ← readHilo read 16 (buf + 4)
      let (buf, chanP) ← nitDescriptors read ((tsId : Int) = patTsid) (loopLen + 1)
        (buf + nitTsLen) loopLen chanP
      parseNitTsDescriptor patTsid fuel buf (remaining - (loopLen + nitTsLen)) chanP
    else .ok chanP

/-- "We \"convert\" ATSC service type to the \"equivalent\" MPEG2 service type" -/
def mpeg2ServiceType (atscType : Nat) : Nat :=
  if atscType = 0x02 then 0x01 else if atscType = 0x03 then 0x02
  else if atscType = 0x04 then 0x0c else 0

/-- `autoconf_parse_vct_channel`: the length and the channels. -/
def autoconfParseVctChannel (vctName : List UInt8 → List UInt8 → List UInt8)
    (transportStreamId : Int) (buf : Nat) (chanP : MumuChanP) : Checked (Nat × MumuChanP) := do
  let shortName ← readBytes read buf 14
  let modulationMode ← read (buf + 17)
  let channelTsid ← readHilo read 256 (buf + 22)
  let number ← readHilo read 256 (buf + 24)
  let flags ← read (buf + 26)
  let serviceType ← read (buf + 27)
  let descriptorLength ← readHilo read 4 (buf + 30)
  let length := psipVctLen + descriptorLength
  -- analog, of another transponder or hidden
  if modulationMode = 0x01 ∨ (channelTsid : Int) ≠ transportStreamId ∨ flags.toNat / 16 % 2 = 1 then
    return (length, chanP)
  else do
    let descriptors ← readBytes read (buf + psipVctLen) descriptorLength
    match lastIndex (hasService number) chanP.channels with
    | some i =>
      let chanP ← chanP.modify i fun chan => .ok { chan with
        serviceType := mpeg2ServiceType (serviceType.toNat % 64)
        freeCaMode := flags.toNat / 32 % 2 = 1
        serviceName := vctName shortName descriptors }
      return (length, chanP)
    | none => return (length, chanP)

/-- The loop of `autoconf_read_psip` over the channels. -/
def vctLoop (vctName : List UInt8 → List UInt8 → List UInt8) (transportStreamId : Int) :
    Nat → Nat → MumuChanP → Checked MumuChanP
  | 0, _, chanP => .ok chanP
  | channels + 1, delta, chanP => do
    let (length, chanP) ← autoconfParseVctChannel read vctName transportStreamId delta chanP
    vctLoop vctName transportStreamId channels (delta + length) chanP

end sections

variable (env : Surroundings)

/-- What the reading of the CAT uses. -/
def catPart (s : AutoP) : AutoconfCat.AutoP where
  autoconfTempCat := s.cat.temp
  catNeedUpdate := s.cat.needUpdate
  catVersion := s.cat.version
  catSectionsSeen := s.cat.sectionsSeen
  catAllSectionsSeen := s.cat.allSectionsSeen
  sdtVersion := s.sdt.version
  caSystemList := s.caSystemList

/-- What it has made of its part goes back. -/
def putCat (s : AutoP) (cat : AutoconfCat.AutoP) : AutoP :=
  { s with
    cat := {
      temp := cat.autoconfTempCat
      needUpdate := cat.catNeedUpdate
      version := cat.catVersion
      sectionsSeen := cat.catSectionsSeen
      allSectionsSeen := cat.catAllSectionsSeen
      lastRead := if s.cat.needUpdate = true ∧ cat.catNeedUpdate = false then some cat.catVersion
        else s.cat.lastRead }
    sdt := { s.sdt with version := cat.sdtVersion }
    caSystemList := cat.caSystemList }

def putCaChannels (chanP : MumuChanP) (channels : List AutoconfCat.CaChannel) : MumuChanP :=
  ⟨List.zipWith (fun chan ca => { chan with toCaChannel := ca }) chanP.channels channels, by
    rw [List.length_zipWith]
    exact Nat.le_trans (Nat.min_le_left _ _) chanP.atMost⟩

/-- `autoconf_read_cat`, on its part of the structures. -/
def autoconfReadCat (s : AutoP) (chanP : MumuChanP) : Checked (AutoP × MumuChanP) := do
  let (cat, channels) ← AutoconfCat.autoconfReadCat (catPart s)
    (chanP.channels.map AutoChannel.toCaChannel)
  return (putCat s cat, putCaChannels chanP channels)

/-- `autoconf_read_sdt`. -/
def autoconfReadSdt (s : AutoP) (chanP : MumuChanP) : Checked (AutoP × MumuChanP) := do
  let sdt := s.sdt.temp.dataFull.cells
  if tableId sdt ≠ 0x42 then return (s, chanP)
  else if ← s.sdt.alreadySeen sdt then return (s, chanP)
  else do
    let tracker ← (s.sdt.renew sdt).store sdt
    let read := env.byte s.sdt.temp
    let originalNetworkId ← readHilo read 256 8
    let chanP ← sdtLoop read env.convertEn300468String s.sdt.temp.lenFull (s.sdt.temp.lenFull + 1)
      sdtLen chanP
    let s := { s with sdt := tracker, originalNetworkId := originalNetworkId }
    if tracker.sectionsMissing sdt ≠ 0 then return (s, chanP)
    else return ({ s with sdt := tracker.finish, needFilterChanUpdate := true }, chanP)

/-- `autoconf_read_nit`; what it shows is left out. -/
def autoconfReadNit (s : AutoP) (chanP : MumuChanP) : Checked (AutoP × MumuChanP) := do
  let nit := s.nit.temp.dataFull.cells
  if tableId nit ≠ 0x40 then return (s, chanP)
  else if ← s.nit.alreadySeen nit then return (s, chanP)
  else do
    let tracker ← (s.nit.renew nit).store nit
    if currentNextIndicator nit = 0 then return ({ s with nit := tracker }, chanP)
    else do
      let read := env.byte s.nit.temp
      let networkId ← readHilo read 256 3
      let descriptorsLength ← readHilo read 16 8
      let buf := nitLen + descriptorsLength
      let loopLength ← readHilo read 16 buf
      let chanP ← parseNitTsDescriptor read s.transportStreamId (loopLength + 1)
        (buf + sizeNitMid) loopLength chanP
      let s := { s with nit := tracker, networkId := networkId }
      if tracker.sectionsMissing nit ≠ 0 then return (s, chanP)
      else return ({ s with nit := tracker.finish }, chanP)

/-- `autoconf_read_psip`. -/
def autoconfReadPsip (s : AutoP) (chanP : MumuChanP) : Checked (AutoP × MumuChanP) := do
  let psip := s.psip.temp.dataFull.cells
  if tableId psip ≠ 0xc8 ∧ tableId psip ≠ 0xc9 then return (s, chanP)
  else if s.transportStreamId < 0 then return (s, chanP)
  else if (transportStreamId psip : Int) ≠ s.transportStreamId then return (s, chanP)
  else if ← s.psip.alreadySeen psip then return (s, chanP)
  else do
    let tracker ← (s.psip.renew psip).store psip
    let read := env.byte s.psip.temp
    let channels ← read psipHeaderLen
    let chanP ← vctLoop read env.vctName s.transportStreamId channels.toNat (psipHeaderLen + 1)
      chanP
    let s := { s with psip := tracker }
    if tracker.sectionsMissing psip ≠ 0 then return (s, chanP)
    else return ({ s with psip := tracker.finish, needFilterChanUpdate := true }, chanP)

/-- The kinds of tables. -/
inductive Kind where
  | pat | cat | sdt | nit | psip
  deriving DecidableEq, Repr

def tracker (s : AutoP) : Kind → Tracker
  | .pat => s.pat
  | .cat => s.cat
  | .sdt => s.sdt
  | .nit => s.nit
  | .psip => s.psip

def setTracker (s : AutoP) (t : Tracker) : Kind → AutoP
  | .pat => { s with pat := t }
  | .cat => { s with cat := t }
  | .sdt => { s with sdt := t }
  | .nit => { s with nit := t }
  | .psip => { s with psip := t }

/-- `autoconf_read_pat`, `autoconf_read_cat` and so on. -/
def readTable : Kind → AutoP → MumuChanP → Checked (AutoP × MumuChanP)
  | .pat => autoconfReadPat
  | .cat => autoconfReadCat
  | .sdt => autoconfReadSdt env
  | .nit => autoconfReadNit env
  | .psip => autoconfReadPsip env

/-- The check of `autoconf_pat_need_update`, `autoconf_cat_need_update` and
`autoconf_sdt_need_update`. -/
def checkVersion (t : Tracker) (isTable : Bool) (header : List UInt8) : Tracker :=
  if (versionNumber header : Int) ≠ t.version ∧ isTable = true then
    if currentNextIndicator header = 0 then t else { t with needUpdate := true }
  -- "We can have a wrong need update if the packet was broken"
  else if t.allSectionsSeen = true ∧ t.needUpdate = true then { t with needUpdate := false }
  else t

/-- The check of `autoconf_nit_need_update` and `autoconf_psip_need_update`. -/
def checkUnread (t : Tracker) (isTable : Bool) (header : List UInt8) : Tracker :=
  if (versionNumber header : Int) ≠ t.version ∧ isTable = true ∧ t.allSectionsSeen = false then
    if currentNextIndicator header = 0 then t else { t with needUpdate := true }
  else t

/-- The functions `autoconf_pat_need_update` and so on, on the first section of a packet. -/
def checkHeader (header : List UInt8) (t : Tracker) : Kind → Tracker
  | .pat => checkVersion t true header
  | .cat => checkVersion t true header
  | .sdt => checkVersion t (tableId header = 0x42) header
  | .nit => checkUnread t (tableId header = 0x40) header
  | .psip => checkUnread t true header

def needUpdate (mem : TableMemory) (kind : Kind) (s : AutoP) : Checked AutoP := do
  match ← getTsBegin mem with
  | none => return s
  | some off =>
    let header ← mem.slice off 8
    return setTracker s (checkHeader header (tracker s kind) kind) kind

/-- The loop of `autoconf_new_packet` over the sections of a table. -/
def readLoop (kind : Kind) (fuel : Nat) (buf : Option Packet) (s : AutoP) (chanP : MumuChanP) :
    Checked (AutoP × MumuChanP) :=
  match fuel with
  | 0 => .error .endless
  | fuel + 1 =>
    if (tracker s kind).needUpdate then do
      let (avail, temp) ← getTsPacket buf (tracker s kind).temp
      let s := setTracker s { tracker s kind with temp := temp } kind
      if avail then do
        let (s, chanP) ← readTable env kind s chanP
        readLoop kind fuel none s chanP
      else return (s, chanP)
    else .ok (s, chanP)

/-- A table that waits for the PAT, or keeps its flag while it is read. -/
def Checks (s : AutoP) : Kind → Bool
  | .pat | .cat | .sdt => true
  | .nit => !s.nit.needUpdate
  | .psip => !s.psip.needUpdate

def isOn (pid : Nat) : Kind → Bool
  | .pat => pid == 0
  | .cat => pid == 1
  | .sdt => pid == 17
  | .psip => pid == 8187 && env.atsc
  | .nit => pid == 16

/-- The table that comes on a PID. -/
def kindOf (pid : Nat) : Option Kind :=
  [.pat, .cat, .sdt, .psip, .nit].find? (isOn env pid)

def afterPat (s : AutoP) : Kind → Bool
  | .pat | .cat => true
  | _ => s.pat.allSectionsSeen

/-- The part of `autoconf_new_packet` that reads the tables. -/
def newPacketTables (pid : Nat) (mem : TableMemory) (s : AutoP) (chanP : MumuChanP) :
    Checked (AutoP × MumuChanP) :=
  match kindOf env pid with
  | none => .ok (s, chanP)
  | some kind =>
    if afterPat s kind then do
      let s ← (if Checks s kind then needUpdate mem kind s else .ok s)
      readLoop env kind takeFuel (some mem.packet) s chanP
    else .ok (s, chanP)

end MuMuDVB.AutoconfTables
