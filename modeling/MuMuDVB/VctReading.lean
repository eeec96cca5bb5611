import MuMuDVB.VctNames

/-!
# What the VCT says about the channels

A VCT of an ATSC stream is a list of virtual channels, each with its descriptors
behind it. `autoconf_read_psip` goes from one to the next by the length that
`autoconf_parse_vct_channel` returns, and the digital channels of the transport
stream that are not hidden give what they say to the channel with their number.
-/
namespace MuMuDVB.VctReading

open CheckedMemory CString MuMuDVB.TsHeader MuMuDVB.Ts MuMuDVB.TsAssembler MuMuDVB.Autoconf
open MuMuDVB.AutoconfPat MuMuDVB.AutoconfTables MuMuDVB.NitNumbers MuMuDVB.SdtReading
open MuMuDVB.VctNames
open MuMuDVB.ServiceNames (maxNameLen)

section functions

variable (text : AtscText) (stack : Buffer UInt8 (shortNameLen + 1))
  (dataFull : Buffer UInt8 maxTsSize)

/-- "We update a channel if stored channel" -/
def updateChannel (short : Buffer UInt8 (shortNameLen + 1)) (naming : Naming)
    (number mpeg2ServiceType : Nat) (accessControlled : Bool) (chanP : MumuChanP) :
    Checked MumuChanP :=
  match lastIndex (hasService number) chanP.channels with
  | some chan => do
    let name ← channelName short naming
    let serviceName ← storeServiceName name
    chanP.modify chan fun chan => .ok { chan with
      serviceType := mpeg2ServiceType
      freeCaMode := accessControlled
      serviceName := serviceName }
  | none => .ok chanP

/-- `autoconf_parse_vct_channel`, with its arrays and pointers. -/
def autoconfParseVctChannelIn (transportStreamId : Int) (buf : Nat) (chanP : MumuChanP) :
    Checked (Nat × MumuChanP) := do
  let unconvertedShortName ← readBytes dataFull.read buf shortNameLen
  let short ← utf8ShortName text stack unconvertedShortName
  let modulationMode ← dataFull.read (buf + 17)
  let channelTsid ← readHilo dataFull.read 256 (buf + 22)
  let programNumber ← readHilo dataFull.read 256 (buf + 24)
  let flags ← dataFull.read (buf + 26)
  let serviceType ← dataFull.read (buf + 27)
  let descriptorLength ← readHilo dataFull.read 4 (buf + 30)
  let length := psipVctLen + descriptorLength
  -- analog, of another transponder or hidden
  if modulationMode = 0x01 ∨ (channelTsid : Int) ≠ transportStreamId ∨ flags.toNat / 16 % 2 = 1 then
    return (length, chanP)
  else do
    let naming ← descriptorLoop text dataFull (descriptorLength + 1) (buf + psipVctLen)
      descriptorLength Naming.start
    let chanP ← updateChannel short naming programNumber
      (mpeg2ServiceType (serviceType.toNat % 64)) (flags.toNat / 32 % 2 = 1) chanP
    return (length, chanP)

/-- The loop of `autoconf_read_psip` over the channels. -/
def vctLoopIn (transportStreamId : Int) : Nat → Nat → MumuChanP → Checked MumuChanP
  | 0, _, chanP => .ok chanP
  | channels + 1, delta, chanP => do
    let (length, chanP) ← autoconfParseVctChannelIn text stack dataFull transportStreamId delta
      chanP
    vctLoopIn transportStreamId channels (delta + length) chanP

/-- `autoconf_read_psip`, with the arrays and pointers of `autoconf_parse_vct_channel`. -/
def autoconfReadPsipIn (s : AutoP) (chanP : MumuChanP) : Checked (AutoP × MumuChanP) := do
  let psip := s.psip.temp.dataFull.cells
  if tableId psip ≠ 0xc8 ∧ tableId psip ≠ 0xc9 then return (s, chanP)
  else if s.transportStreamId < 0 then return (s, chanP)
  else if (transportStreamId psip : Int) ≠ s.transportStreamId then return (s, chanP)
  else if ← s.psip.alreadySeen psip then return (s, chanP)
  else do
    let tracker ← (s.psip.renew psip).store psip
    let channels ← s.psip.temp.dataFull.read psipHeaderLen
    let chanP ← vctLoopIn text stack s.psip.temp.dataFull s.transportStreamId channels.toNat
      (psipHeaderLen + 1) chanP
    let s := { s with psip := tracker }
    if tracker.sectionsMissing psip ≠ 0 then return (s, chanP)
    else return ({ s with psip := tracker.finish, needFilterChanUpdate := true }, chanP)

end functions

/-- A virtual channel with its descriptors. -/
structure VctEntry where
  head : List UInt8
  descriptors : List (List UInt8)
  headLength : head.length = psipVctLen
  loopLength : hilo ((byteAt head 30).toNat % 4) (byteAt head 31).toNat =
    descriptors.flatten.length
  isDescriptor : ∀ d ∈ descriptors, IsDescriptor d

namespace VctEntry

variable (v : VctEntry)

def bytes : List UInt8 := v.head ++ v.descriptors.flatten

def shortName : List UInt8 := v.head.take shortNameLen

def programNumber : Nat := hilo (byteAt v.head 24).toNat (byteAt v.head 25).toNat

def serviceType : Nat := mpeg2ServiceType ((byteAt v.head 27).toNat % 64)

def accessControlled : Bool := (byteAt v.head 26).toNat / 32 % 2 = 1

/-- Digital, of the transport stream and not hidden. -/
def Offered (transportStreamId : Int) : Prop :=
  byteAt v.head 17 ≠ 0x01 ∧
    (hilo (byteAt v.head 22).toNat (byteAt v.head 23).toNat : Int) = transportStreamId ∧
    (byteAt v.head 26).toNat / 16 % 2 ≠ 1

instance (transportStreamId : Int) : Decidable (v.Offered transportStreamId) :=
  inferInstanceAs (Decidable (_ ∧ _))

end VctEntry

/-- A virtual channel and what stands behind it in `data_full`. -/
structure Placed where
  entry : VctEntry
  behind : List UInt8

namespace Placed

variable (text : AtscText) (p : Placed)

/-- The segments of its long names. -/
def segments : List (List UInt8) := handed text p.behind p.entry.descriptors

def name : List UInt8 := nameOf text p.entry.shortName (p.segments text)

/-- The channel as the virtual channel describes it. -/
def describe (chan : AutoChannel) : AutoChannel :=
  { chan with
    serviceType := p.entry.serviceType
    freeCaMode := p.entry.accessControlled
    serviceName := p.name text }

end Placed

/-- Virtual channels one behind the other. -/
def placed (behind : List UInt8) : List VctEntry → List Placed
  | [] => []
  | v :: vs => ⟨v, (vs.map VctEntry.bytes).flatten ++ behind⟩ :: placed behind vs

/-- A well-formed section of a VCT. -/
structure VctSection where
  header : List UInt8
  entries : List VctEntry
  rest : List UInt8
  headerLength : header.length = psipHeaderLen + 1
  isVct : tableId header = 0xc8 ∨ tableId header = 0xc9
  count : (byteAt header psipHeaderLen).toNat = entries.length
  size : (header ++ ((entries.map VctEntry.bytes).flatten ++ rest)).length = sectionSize header
  atMost : sectionSize header ≤ maxTsSize
  crcValid : crc32 (header ++ ((entries.map VctEntry.bytes).flatten ++ rest)) = 0

def VctSection.bytes (t : VctSection) : List UInt8 :=
  t.header ++ ((t.entries.map VctEntry.bytes).flatten ++ t.rest)

/-- The section has come, is of the transport stream of the PAT and has not been read before. -/
structure Applicable (s : AutoP) (t : VctSection) : Prop where
  stored : t.bytes <+: s.psip.temp.dataFull.cells
  ours : (transportStreamId t.header : Int) = s.transportStreamId
  unread : ¬ s.psip.Skips t.header

/-- What stands in `data_full` behind the virtual channels of the section. -/
def behindEntries (s : AutoP) (t : VctSection) : List UInt8 :=
  s.psip.temp.dataFull.cells.drop (t.header ++ (t.entries.map VctEntry.bytes).flatten).length

/-- The virtual channels that describe a channel. -/
def offered (s : AutoP) (t : VctSection) : List Placed :=
  (placed (behindEntries s t) t.entries).filter fun p => p.entry.Offered s.transportStreamId

section describe

variable (text : AtscText)

/-- The channel as the last virtual channel with its number describes it. -/
def describedBy (ps : List Placed) (chan : AutoChannel) : AutoChannel :=
  match (ps.filter fun p => hasService p.entry.programNumber chan).getLast? with
  | some p => p.describe text chan
  | none => chan

/-- The section is read inside all arrays, and afterwards the channels are as it describes them. -/
def GivesNames (stack : Buffer UInt8 (shortNameLen + 1)) (s : AutoP) (chanP : MumuChanP)
    (t : VctSection) : Prop :=
  ∃ s', autoconfReadPsipIn text stack s chanP =
    .ok (s', chanP.map (describedBy text (offered s t)))

/-- Of a known channel at most one segment is handed to the decoder. -/
def Sole (chanP : MumuChanP) (ps : List Placed) : Prop :=
  ∀ p ∈ ps, (p.entry.programNumber : Int) ∈ serviceIds chanP → (p.segments text).length ≤ 1

/-- The decoded texts leave room for their ends, and there is a descriptor when the channel is
known. -/
structure Named (ids : List Int) (p : Placed) : Prop where
  room : LeavesRoom text (p.segments text)
  descriptor : (p.entry.programNumber : Int) ∈ ids → p.entry.descriptors ≠ []

/-- Each virtual channel finds its names, and a channel with a later one of the same service is
as it is described before. -/
structure Nameable (chanP : MumuChanP) (ps : List Placed) : Prop where
  named : ∀ p ∈ ps, Named text (serviceIds chanP) p
  shared : ∀ (i j : Nat) (chan later : AutoChannel), i < j → chanP.channels[i]? = some chan →
    chanP.channels[j]? = some later → later.http.serviceId = chan.http.serviceId →
    describedBy text ps chan = chan

end describe

section entries

variable {text : AtscText} {stack : Buffer UInt8 (shortNameLen + 1)}
  {dataFull : Buffer UInt8 maxTsSize} {a : Nat} {behind : List UInt8} {v : VctEntry}
  {chanP chanP' : MumuChanP} {p : Placed}

/-- What an offered virtual channel does to the channels. -/
def offer (text : AtscText) (stack : Buffer UInt8 (shortNameLen + 1)) (chanP : MumuChanP)
    (p : Placed) : Checked MumuChanP := do
  let short ← utf8ShortName text stack p.entry.shortName
  let naming ← (p.segments text).foldlM (decodeLongName text) Naming.start
  updateChannel short (if p.entry.descriptors = [] then naming else naming.orShort)
    p.entry.programNumber p.entry.serviceType p.entry.accessControlled chanP

theorem VctEntry.length_bytes (v : VctEntry) :
    v.bytes.length = psipVctLen + v.descriptors.flatten.length := by
  rw [VctEntry.bytes, List.length_append, v.headLength]

theorem VctEntry.not_offered_iff {transportStreamId : Int} : ¬ v.Offered transportStreamId ↔
    byteAt v.head 17 = 0x01 ∨
      (hilo (byteAt v.head 22).toNat (byteAt v.head 23).toNat : Int) ≠ transportStreamId ∨
      (byteAt v.head 26).toNat / 16 % 2 = 1 := by
  rw [VctEntry.Offered, not_and_or, not_and_or, not_not, not_not]

/-- What is read of the head of a virtual channel. -/
structure HeadRead (dataFull : Buffer UInt8 maxTsSize) (a : Nat) (v : VctEntry) : Prop where
  modulationMode : dataFull.read (a + 17) = .ok (byteAt v.head 17)
  channelTsid : readHilo dataFull.read 256 (a + 22) =
    .ok (hilo (byteAt v.head 22).toNat (byteAt v.head 23).toNat)
  programNumber : readHilo dataFull.read 256 (a + 24) = .ok v.programNumber
  flags : dataFull.read (a + 26) = .ok (byteAt v.head 26)
  serviceType : dataFull.read (a + 27) = .ok (byteAt v.head 27)
  descriptorLength : readHilo dataFull.read 4 (a + 30) = .ok v.descriptors.flatten.length

theorem VctEntry.headRead (h : dataFull.cells.drop a = v.bytes ++ behind) :
    HeadRead dataFull a v := by
  have hlen : v.head.length = 32 := v.headLength
  rw [VctEntry.bytes, List.append_assoc] at h
  have hreads := reads_of_drop h
  exact
    { modulationMode := hreads 17 (by omega)
      channelTsid := hreads.wide (show 22 + 1 < v.head.length by omega)
      programNumber := hreads.wide (show 24 + 1 < v.head.length by omega)
      flags := hreads 26 (by omega)
      serviceType := hreads 27 (by omega)
      descriptorLength := by
        rw [hreads.hilo 4 (show 30 + 1 < v.head.length by omega), v.loopLength] }

theorem VctEntry.shortName_read (h : dataFull.cells.drop a = v.bytes ++ behind) :
    readBytes dataFull.read a shortNameLen = .ok v.shortName := by
  rw [VctEntry.bytes, List.append_assoc] at h
  have hshort := readBytes_ok (reads_of_drop h) (show 0 + shortNameLen ≤ v.head.length by
    rw [v.headLength]; decide)
  rwa [Nat.add_zero, List.drop_zero] at hshort

theorem VctEntry.drop_head (h : dataFull.cells.drop a = v.bytes ++ behind) :
    dataFull.cells.drop (a + psipVctLen) = v.descriptors.flatten ++ behind := by
  rw [← v.headLength, ← List.drop_drop, h, VctEntry.bytes, List.append_assoc, List.drop_left]

/-- A virtual channel is read, and its length returned whether it is offered or not. -/
theorem autoconfParseVctChannelIn_eq (h : dataFull.cells.drop a = v.bytes ++ behind)
    (transportStreamId : Int) (chanP : MumuChanP) :
    autoconfParseVctChannelIn text stack dataFull transportStreamId a chanP =
      (fun chanP => (v.bytes.length, chanP)) <$>
        (if v.Offered transportStreamId then offer text stack chanP ⟨v, behind⟩
          else .ok chanP) := by
  have hhead := VctEntry.headRead h
  have hloop := descriptorLoop_eq text v.isDescriptor (VctEntry.drop_head h) (Nat.le_refl _)
    Naming.start
  obtain ⟨short, hname, -⟩ := utf8ShortName_ok text stack v.shortName
  rw [autoconfParseVctChannelIn, VctEntry.shortName_read h, bind_ok, hname, bind_ok,
    hhead.modulationMode, bind_ok, hhead.channelTsid, bind_ok, hhead.programNumber, bind_ok,
    hhead.flags, bind_ok, hhead.serviceType, bind_ok, hhead.descriptorLength, bind_ok]
  dsimp only
  rw [← v.length_bytes]
  by_cases hoffered : v.Offered transportStreamId
  · rw [if_neg (mt VctEntry.not_offered_iff.mpr (not_not.mpr hoffered)), if_pos hoffered, hloop,
      offer, hname, bind_ok, bind_map_left, map_bind]
    refine bind_congr fun naming => ?_
    have hnaming : (if v.descriptors = [] then id else Naming.orShort) naming =
        if v.descriptors = [] then naming else naming.orShort := by split <;> rfl
    rw [hnaming]
    rfl
  · rw [if_pos (VctEntry.not_offered_iff.mp hoffered), if_neg hoffered]
    rfl

/-- The virtual channels are read one behind the other. -/
theorem vctLoopIn_eq {vs : List VctEntry}
    (h : dataFull.cells.drop a = (vs.map VctEntry.bytes).flatten ++ behind)
    (transportStreamId : Int) (chanP : MumuChanP) :
    vctLoopIn text stack dataFull transportStreamId vs.length a chanP =
      ((placed behind vs).filter fun p => p.entry.Offered transportStreamId).foldlM
        (offer text stack) chanP := by
  induction vs generalizing a chanP with
  | nil => rfl
  | cons v vs ih =>
    rw [List.map_cons, List.flatten_cons, List.append_assoc] at h
    have hnext : dataFull.cells.drop (a + v.bytes.length) =
        (vs.map VctEntry.bytes).flatten ++ behind := by rw [← List.drop_drop, h, List.drop_left]
    rw [List.length_cons, vctLoopIn, autoconfParseVctChannelIn_eq h, bind_map_left, placed]
    dsimp only
    simp only [ih hnext]
    by_cases hoffered : v.Offered transportStreamId
    · rw [if_pos hoffered, List.filter_cons_of_pos (by simpa using hoffered), List.foldlM_cons]
    · rw [if_neg hoffered, List.filter_cons_of_neg (by simpa using hoffered), bind_ok]

end entries

section channels

variable {text : AtscText} {stack : Buffer UInt8 (shortNameLen + 1)} {chanP chanP' : MumuChanP}
  {p : Placed} {ps : List Placed} {i : Nat} {chan : AutoChannel}

/-- The channels with what a virtual channel says in the last one of its service. -/
def latest (text : AtscText) (chanP : MumuChanP) (p : Placed) : MumuChanP :=
  match lastIndex (hasService p.entry.programNumber) chanP.channels with
  | some i =>
    match chanP.channels[i]? with
    | some chan => chanP.set i (p.describe text chan)
    | none => chanP
  | none => chanP

theorem mem_serviceIds {n : Nat} : (n : Int) ∈ serviceIds chanP ↔
    lastIndex (hasService n) chanP.channels ≠ none := by
  rw [Ne, lastIndex_eq_none, serviceIds, List.mem_map]
  simp only [hasService, decide_eq_false_iff_not, not_forall, not_not, exists_prop]

/-- The name that is stored in the channel of a known service. -/
theorem updateChannel_known {short : Buffer UInt8 (shortNameLen + 1)} {naming : Naming}
    {name : List UInt8} (h : channelName short naming = .ok name) {number : Nat}
    (hknown : lastIndex (hasService number) chanP.channels = some i)
    (hchan : chanP.channels[i]? = some chan) (serviceType : Nat) (accessControlled : Bool) :
    updateChannel short naming number serviceType accessControlled chanP =
      .ok (chanP.set i { chan with
        serviceType := serviceType
        freeCaMode := accessControlled
        serviceName := name }) := by
  rw [updateChannel, hknown]
  dsimp only
  rw [h, bind_ok, storeServiceName_ok h, bind_ok, MumuChanP.modify, hchan]
  rfl

/-- An offered virtual channel is taken in exactly when it is named. -/
theorem offer_ok_iff (hsole : (p.entry.programNumber : Int) ∈ serviceIds chanP →
      (p.segments text).length ≤ 1) :
    offer text stack chanP p = .ok chanP' ↔
      Named text (serviceIds chanP) p ∧ chanP' = latest text chanP p := by
  obtain ⟨short, hshort, hstring⟩ := utf8ShortName_ok text stack p.entry.shortName
  have hwalk := walk_ok_iff text (p.segments text)
  rw [offer, hshort, bind_ok, bind_eq_ok, latest]
  cases hknown : lastIndex (hasService p.entry.programNumber) chanP.channels with
  | none =>
    have hunknown : (p.entry.programNumber : Int) ∉ serviceIds chanP :=
      fun hmem => mem_serviceIds.mp hmem hknown
    simp only [updateChannel, hknown, Except.ok.injEq]
    constructor
    · rintro ⟨naming, hok, rfl⟩
      exact ⟨⟨hwalk.mp ⟨naming, hok⟩, fun hmem => absurd hmem hunknown⟩, rfl⟩
    · rintro ⟨hnamed, rfl⟩
      obtain ⟨naming, hok⟩ := hwalk.mpr hnamed.room
      exact ⟨naming, hok, rfl⟩
  | some i =>
    have hmem : (p.entry.programNumber : Int) ∈ serviceIds chanP :=
      mem_serviceIds.mpr (by rw [hknown]; exact Option.some_ne_none i)
    obtain ⟨chan, hchan, -⟩ := lastIndex_some hknown
    dsimp only
    rw [hchan]
    constructor
    · rintro ⟨naming, hok, hupdate⟩
      by_cases hds : p.entry.descriptors = []
      · rw [Placed.segments, hds] at hok
        cases hok
        rw [if_pos hds, updateChannel, hknown] at hupdate
        cases hupdate
      · have hname := channelName_walk (hsole hmem) hok hstring
        rw [if_neg hds, updateChannel_known hname hknown hchan] at hupdate
        exact ⟨⟨hwalk.mp ⟨naming, hok⟩, fun _ => hds⟩, (Except.ok.inj hupdate).symm⟩
    · rintro ⟨hnamed, rfl⟩
      obtain ⟨naming, hok⟩ := hwalk.mpr hnamed.room
      have hname := channelName_walk (hsole hmem) hok hstring
      exact ⟨naming, hok, by
        rw [if_neg (hnamed.descriptor hmem), updateChannel_known hname hknown hchan]
        rfl⟩

section refines

variable {dataFull : Buffer UInt8 maxTsSize} {a : Nat} {behind : List UInt8} {v : VctEntry}
  {transportStreamId : Int}

/-- `autoconf_parse_vct_channel` with a name in place of the arrays. -/
theorem autoconfParseVctChannel_eq (h : dataFull.cells.drop a = v.bytes ++ behind)
    (transportStreamId : Int) (chanP : MumuChanP) :
    autoconfParseVctChannel dataFull.read (fun _ _ => (⟨v, behind⟩ : Placed).name text)
        transportStreamId a chanP =
      .ok (v.bytes.length,
        if v.Offered transportStreamId then latest text chanP ⟨v, behind⟩ else chanP) := by
  have hhead := VctEntry.headRead h
  have hdescriptors := readBytes_ok (reads_of_drop (VctEntry.drop_head h))
    (show 0 + v.descriptors.flatten.length ≤ v.descriptors.flatten.length by omega)
  rw [Nat.add_zero] at hdescriptors
  rw [autoconfParseVctChannel, VctEntry.shortName_read h, bind_ok, hhead.modulationMode, bind_ok,
    hhead.channelTsid, bind_ok, hhead.programNumber, bind_ok, hhead.flags, bind_ok,
    hhead.serviceType, bind_ok, hhead.descriptorLength, bind_ok]
  dsimp only
  rw [← v.length_bytes]
  by_cases hoffered : v.Offered transportStreamId
  · rw [if_neg (mt VctEntry.not_offered_iff.mpr (not_not.mpr hoffered)), if_pos hoffered,
      hdescriptors, bind_ok, latest]
    cases hknown : lastIndex (hasService v.programNumber) chanP.channels with
    | none => rfl
    | some i =>
      obtain ⟨chan, hchan, -⟩ := lastIndex_some hknown
      dsimp only
      rw [MumuChanP.modify, hchan]
      rfl
  · rw [if_pos (VctEntry.not_offered_iff.mp hoffered), if_neg hoffered]
    rfl

/-- Where the arrays and pointers are right, the name is all that they make. -/
theorem autoconfParseVctChannelIn_refines (h : dataFull.cells.drop a = v.bytes ++ behind)
    (hsole : (v.programNumber : Int) ∈ serviceIds chanP →
      ((⟨v, behind⟩ : Placed).segments text).length ≤ 1) {r : Nat × MumuChanP}
    (hok : autoconfParseVctChannelIn text stack dataFull transportStreamId a chanP = .ok r) :
    autoconfParseVctChannel dataFull.read (fun _ _ => (⟨v, behind⟩ : Placed).name text)
      transportStreamId a chanP = .ok r := by
  rw [autoconfParseVctChannelIn_eq h] at hok
  obtain ⟨chanP', hchanP, rfl⟩ := map_eq_ok hok
  rw [autoconfParseVctChannel_eq h]
  split at hchanP
  case isTrue hoffered =>
    have hlatest := ((offer_ok_iff (p := ⟨v, behind⟩) hsole).mp hchanP).2
    rw [if_pos hoffered, hlatest]
  case isFalse hother =>
    cases hchanP
    rw [if_neg hother]

end refines

theorem latest_getElem? (text : AtscText) (p : Placed) (h : chanP.channels[i]? = some chan) :
    (latest text chanP p).channels[i]? = some
      (if lastIndex (hasService p.entry.programNumber) chanP.channels = some i then
        p.describe text chan else chan) := by
  rw [latest]
  cases hknown : lastIndex (hasService p.entry.programNumber) chanP.channels with
  | none => rw [if_neg (Option.some_ne_none i).symm, h]
  | some k =>
    obtain ⟨chan', hchan', -⟩ := lastIndex_some hknown
    dsimp only
    rw [hchan']
    change (chanP.channels.set k (p.describe text chan'))[i]? = _
    rw [List.getElem?_set]
    by_cases hki : k = i
    · subst hki
      cases h.symm.trans hchan'
      rw [if_pos rfl, if_pos rfl, if_pos (List.getElem?_eq_some_iff.mp h).1]
    · rw [if_neg hki, if_neg fun heq => hki (Option.some.inj heq), h]

theorem length_latest (text : AtscText) (chanP : MumuChanP) (p : Placed) :
    (latest text chanP p).channels.length = chanP.channels.length := by
  rw [latest]
  split
  · split
    · exact List.length_set
    · rfl
  · rfl

theorem serviceIds_latest (text : AtscText) (chanP : MumuChanP) (p : Placed) :
    serviceIds (latest text chanP p) = serviceIds chanP := by
  refine List.ext_getElem? fun i => ?_
  rw [serviceIds, serviceIds, List.getElem?_map, List.getElem?_map]
  cases h : chanP.channels[i]? with
  | none =>
    rw [List.getElem?_eq_none_iff] at h
    rw [List.getElem?_eq_none_iff.mpr (by rwa [length_latest])]
  | some chan =>
    rw [latest_getElem? text p h, Option.map_some, Option.map_some]
    split <;> rfl

/-- So are all that are offered. -/
theorem foldlM_offer (hsole : Sole text chanP ps) :
    ps.foldlM (offer text stack) chanP = .ok chanP' ↔
      (∀ p ∈ ps, Named text (serviceIds chanP) p) ∧ chanP' = ps.foldl (latest text) chanP := by
  induction ps generalizing chanP with
  | nil =>
    refine ⟨fun h => ⟨List.forall_mem_nil _, (Except.ok.inj h).symm⟩, fun h => ?_⟩
    rw [h.2]
    rfl
  | cons p ps ih =>
    obtain ⟨hfirst, hrest⟩ := List.forall_mem_cons.mp hsole
    have hids := serviceIds_latest text chanP p
    have hnext := @ih (latest text chanP p) fun q hq hmem => hrest q hq (by rwa [← hids])
    rw [hids] at hnext
    rw [List.foldlM_cons, List.forall_mem_cons, List.foldl_cons, bind_eq_ok, and_assoc, ← hnext]
    simp only [offer_ok_iff hfirst]
    constructor
    · rintro ⟨chanP₁, ⟨hnamed, rfl⟩, hok⟩
      exact ⟨hnamed, hok⟩
    · rintro ⟨hnamed, hok⟩
      exact ⟨_, ⟨hnamed, rfl⟩, hok⟩

theorem describedBy_cons (p : Placed) (ps : List Placed) (chan : AutoChannel) :
    describedBy text (p :: ps) chan = describedBy text ps
      (if hasService p.entry.programNumber chan then p.describe text chan else chan) := by
  rw [describedBy, describedBy]
  by_cases hhas : hasService p.entry.programNumber chan = true
  · have hsame : ∀ q : Placed, hasService q.entry.programNumber (p.describe text chan) =
        hasService q.entry.programNumber chan := fun _ => rfl
    rw [if_pos hhas, List.filter_cons_of_pos (by exact hhas), List.getLast?_cons]
    simp only [hsame]
    cases (ps.filter fun q => hasService q.entry.programNumber chan).getLast? <;> rfl
  · rw [if_neg hhas, List.filter_cons_of_neg (by exact hhas)]

/-- No channel behind has the same service. -/
def IsLatest (ids : List Int) (i : Nat) : Prop := ∀ j, i < j → ids[j]? ≠ ids[i]?

theorem hasService_iff {n : Nat} {j : Nat} {later : AutoChannel}
    (h : chanP.channels[i]? = some chan) (hlater : chanP.channels[j]? = some later)
    (hhas : hasService n chan = true) :
    hasService n later = true ↔ (serviceIds chanP)[j]? = (serviceIds chanP)[i]? := by
  rw [serviceIds_getElem? h hhas, serviceIds, List.getElem?_map, hlater, Option.map_some,
    Option.some.injEq, hasService, decide_eq_true_iff]

/-- The last channel of a service is the one that is found. -/
theorem lastIndex_isLatest (h : chanP.channels[i]? = some chan)
    (hlatest : IsLatest (serviceIds chanP) i) (n : Nat) :
    lastIndex (hasService n) chanP.channels = some i ↔ hasService n chan = true := by
  rw [lastIndex_eq_some]
  constructor
  · rintro ⟨⟨chan', hchan', hhas⟩, -⟩
    cases h.symm.trans hchan'
    exact hhas
  · intro hhas
    refine ⟨⟨chan, h, hhas⟩, fun j hj later hlater => ?_⟩
    rw [← Bool.not_eq_true, hasService_iff h hlater hhas]
    exact hlatest j hj

theorem lastIndex_earlier (hearlier : ¬ IsLatest (serviceIds chanP) i) (n : Nat) :
    lastIndex (hasService n) chanP.channels ≠ some i := by
  rw [Ne, lastIndex_eq_some]
  rintro ⟨⟨chan, h, hhas⟩, hbehind⟩
  refine hearlier fun j hj hsame => ?_
  have hid : (serviceIds chanP)[j]? = some (n : Int) := hsame.trans (serviceIds_getElem? h hhas)
  rw [serviceIds, List.getElem?_map, Option.map_eq_some_iff] at hid
  obtain ⟨later, hlater, -⟩ := hid
  exact Bool.false_ne_true ((hbehind j hj later hlater).symm.trans
    ((hasService_iff h hlater hhas).mpr hsame))

theorem foldl_latest_isLatest (text : AtscText) (h : chanP.channels[i]? = some chan)
    (hlatest : IsLatest (serviceIds chanP) i) (ps : List Placed) :
    (ps.foldl (latest text) chanP).channels[i]? = some (describedBy text ps chan) := by
  induction ps generalizing chanP chan with
  | nil => exact h
  | cons p ps ih =>
    have hnext := latest_getElem? text p h
    simp only [lastIndex_isLatest h hlatest] at hnext
    rw [List.foldl_cons, describedBy_cons,
      ih hnext (by rwa [serviceIds_latest])]

theorem foldl_latest_earlier (text : AtscText) (h : chanP.channels[i]? = some chan)
    (hearlier : ¬ IsLatest (serviceIds chanP) i) (ps : List Placed) :
    (ps.foldl (latest text) chanP).channels[i]? = some chan := by
  induction ps generalizing chanP with
  | nil => exact h
  | cons p ps ih =>
    have hnext := latest_getElem? text p h
    rw [if_neg (lastIndex_earlier hearlier _)] at hnext
    rw [List.foldl_cons, ih hnext (by rwa [serviceIds_latest])]

theorem length_foldl_latest (text : AtscText) (chanP : MumuChanP) (ps : List Placed) :
    (ps.foldl (latest text) chanP).channels.length = chanP.channels.length := by
  induction ps generalizing chanP with
  | nil => rfl
  | cons p ps ih => rw [List.foldl_cons, ih, length_latest]

theorem eq_of_channels (h : chanP.channels = chanP'.channels) : chanP = chanP' := by
  cases chanP
  cases chanP'
  cases h
  rfl

/-- The channels are as they are described exactly when the earlier ones of a service were. -/
theorem foldl_latest_eq_iff (text : AtscText) (chanP : MumuChanP) (ps : List Placed) :
    ps.foldl (latest text) chanP = chanP.map (describedBy text ps) ↔
      ∀ (i j : Nat) (chan later : AutoChannel), i < j → chanP.channels[i]? = some chan →
        chanP.channels[j]? = some later → later.http.serviceId = chan.http.serviceId →
        describedBy text ps chan = chan := by
  have hlength := length_foldl_latest text chanP ps
  constructor
  · intro heq i j chan later hij hchan hlater hsame
    have hearlier : ¬ IsLatest (serviceIds chanP) i := by
      intro hlatest
      refine hlatest j hij ?_
      rw [serviceIds, List.getElem?_map, List.getElem?_map, hchan, hlater, Option.map_some,
        Option.map_some, hsame]
    have hkept := foldl_latest_earlier text hchan hearlier ps
    rw [heq, MumuChanP.map, List.getElem?_map, hchan, Option.map_some] at hkept
    exact Option.some.inj hkept
  · intro hshared
    have hchannels : (ps.foldl (latest text) chanP).channels =
        (chanP.map (describedBy text ps)).channels := by
      refine List.ext_getElem? fun i => ?_
      rw [MumuChanP.map, List.getElem?_map]
      cases hchan : chanP.channels[i]? with
      | none =>
        rw [List.getElem?_eq_none_iff] at hchan
        exact List.getElem?_eq_none_iff.mpr (by rwa [length_foldl_latest])
      | some chan =>
        rw [Option.map_some]
        by_cases hlatest : IsLatest (serviceIds chanP) i
        · exact foldl_latest_isLatest text hchan hlatest ps
        · rw [foldl_latest_earlier text hchan hlatest]
          simp only [IsLatest, not_forall, not_not, exists_prop] at hlatest
          obtain ⟨j, hij, hsame⟩ := hlatest
          rw [serviceIds, List.getElem?_map, List.getElem?_map, hchan, Option.map_some,
            Option.map_eq_some_iff] at hsame
          obtain ⟨later, hlater, hid⟩ := hsame
          rw [hshared i j chan later hij hchan hlater hid]
    exact eq_of_channels hchannels

end channels

section sections

variable {text : AtscText} {stack : Buffer UInt8 (shortNameLen + 1)} {s : AutoP}
  {chanP : MumuChanP} {t : VctSection}

theorem Applicable.header (h : Applicable s t) {i : Nat} (hi : i < 10) :
    byteAt s.psip.temp.dataFull.cells i = byteAt t.header i := by
  obtain ⟨rest, hrest⟩ := h.stored
  rw [← hrest, VctSection.bytes, List.append_assoc,
    byteAt_append_left (by rw [t.headerLength]; exact hi)]

theorem Applicable.entries (h : Applicable s t) :
    s.psip.temp.dataFull.cells.drop (psipHeaderLen + 1) =
      (t.entries.map VctEntry.bytes).flatten ++ behindEntries s t := by
  obtain ⟨rest, hrest⟩ := h.stored
  have hsplit : s.psip.temp.dataFull.cells =
      (t.header ++ (t.entries.map VctEntry.bytes).flatten) ++ (t.rest ++ rest) := by
    rw [← hrest, VctSection.bytes]
    simp only [List.append_assoc]
  rw [behindEntries, hsplit, List.drop_left, List.append_assoc, ← t.headerLength, List.drop_left]

/-- Reading an applicable section is offering its virtual channels. -/
theorem autoconfReadPsipIn_eq (text : AtscText) (stack : Buffer UInt8 (shortNameLen + 1))
    (h : Applicable s t) (chanP : MumuChanP) :
    ∃ s', autoconfReadPsipIn text stack s chanP =
      (fun chanP => (s', chanP)) <$> (offered s t).foldlM (offer text stack) chanP := by
  obtain ⟨tracker, hstore, -⟩ := s.psip.store_renew s.psip.temp.dataFull.cells
  have hunread : ¬ s.psip.Skips s.psip.temp.dataFull.cells := by
    have hunread := h.unread
    rw [Tracker.Skips, versionNumber, sectionNumber] at hunread ⊢
    rwa [h.header (by decide), h.header (by decide)]
  have htable : ¬ (tableId s.psip.temp.dataFull.cells ≠ 0xc8 ∧
      tableId s.psip.temp.dataFull.cells ≠ 0xc9) := by
    rw [tableId, h.header (by decide), ← tableId]
    exact fun hother => t.isVct.elim hother.1 hother.2
  have hours : (transportStreamId s.psip.temp.dataFull.cells : Int) = s.transportStreamId := by
    rw [← h.ours, transportStreamId, transportStreamId, h.header (by decide),
      h.header (by decide)]
  have hcount : s.psip.temp.dataFull.read psipHeaderLen =
      .ok (byteAt t.header psipHeaderLen) := by
    obtain ⟨cell, hread, hcell⟩ := s.psip.temp.dataFull.read_lt
      (show psipHeaderLen < maxTsSize by decide)
    rw [hread, ← h.header (by decide), byteAt, List.getD_eq_getElem?_getD, hcell, Option.getD_some]
  rw [autoconfReadPsipIn]
  dsimp only
  rw [if_neg htable, if_neg (by omega), if_neg (not_ne_iff.mpr hours), Tracker.alreadySeen_eq,
    bind_ok, if_neg (by simpa using hunread), hstore, bind_ok, hcount, bind_ok, t.count,
    vctLoopIn_eq h.entries]
  split
  · exact ⟨_, bind_pure_comp _ _⟩
  · exact ⟨_, bind_pure_comp _ _⟩

/-- An applicable section whose long names stand alone gives its channels their names exactly
when each virtual channel finds its own and no channel hides another one of its service. -/
theorem readPsip_iff (h : Applicable s t) (hsole : Sole text chanP (offered s t)) :
    GivesNames text stack s chanP t ↔ Nameable text chanP (offered s t) := by
  obtain ⟨s', hread⟩ := autoconfReadPsipIn_eq text stack h chanP
  rw [GivesNames, hread]
  constructor
  · rintro ⟨s₁, hok⟩
    obtain ⟨chanP', hoffer, hresult⟩ := map_eq_ok hok
    cases hresult
    obtain ⟨hnamed, heq⟩ := (foldlM_offer hsole).mp hoffer
    exact ⟨hnamed, (foldl_latest_eq_iff text chanP _).mp heq.symm⟩
  · rintro ⟨hnamed, hshared⟩
    have heq := (foldl_latest_eq_iff text chanP _).mpr hshared
    refine ⟨s', ?_⟩
    rw [(foldlM_offer hsole).mpr ⟨hnamed, heq.symm⟩]
    rfl

end sections

/-- The letters of a text in UTF-16. -/
def letters : List UInt8 → List UInt8
  | _ :: letter :: rest => letter :: letters rest
  | _ => []

/-- Texts are letters, and a segment has a length in its third byte and is not compressed. -/
def uncompressed : AtscText where
  iconvOpen := some ⟨fun text room => (letters text).take room, fun _ _ => List.length_take_le ..⟩
  validate _ := true
  decode segment room := (((segment.drop 3).take (byteAt segment 2).toNat).take room, true)
  fits _ _ := List.length_take_le ..

theorem uncompressed_leavesRoom (segments : List (List UInt8)) :
    LeavesRoom uncompressed segments := by
  have hall : ∀ destbufpos, Throughout
      (fun destbufpos segment => (decodedAt uncompressed destbufpos segment).2 = true →
        (decodedAt uncompressed destbufpos segment).1.length < maxNameLen)
      (fun destbufpos segment =>
        destbufpos + (decodedAt uncompressed destbufpos segment).1.length)
      destbufpos segments := by
    induction segments with
    | nil => exact fun _ => trivial
    | cons segment segments ih =>
      refine fun destbufpos => ⟨fun _ => ?_, ih _⟩
      have hbyte : (byteAt segment 2).toNat < 256 := (byteAt segment 2).toNat_lt
      rw [decodedAt, uncompressed, maxNameLen, List.length_take, List.length_take]
      omega
  exact hall 0

/-- The virtual channel 1 with the short name "AAAAAAA". -/
def headOne (descriptorLength : UInt8) : List UInt8 :=
  [0x00, 0x41, 0x00, 0x41, 0x00, 0x41, 0x00, 0x41, 0x00, 0x41, 0x00, 0x41, 0x00, 0x41, 0xf0, 0x04,
    0x01, 0x04, 0x00, 0x00, 0x00, 0x00, 0x00, 0x01, 0x00, 0x01, 0x0d, 0xc2, 0x00, 0x01, 0xfc,
    descriptorLength]

/-- The long name "AB". -/
def longAb : List UInt8 :=
  [0xa0, 0x0a, 0x01, 0x65, 0x6e, 0x67, 0x01, 0x00, 0x00, 0x02, 0x41, 0x42]

def bareEntry : VctEntry where
  head := headOne 0
  descriptors := []
  headLength := rfl
  loopLength := rfl
  isDescriptor := List.forall_mem_nil _

def longEntry : VctEntry where
  head := headOne 12
  descriptors := [longAb]
  headLength := rfl
  loopLength := rfl
  isDescriptor := List.forall_mem_singleton.mpr rfl

def bareVct : VctSection where
  header := [0xc8, 0xf0, 0x2d, 0x00, 0x01, 0xc1, 0x00, 0x00, 0x00, 0x01]
  entries := [bareEntry]
  rest := [0xfc, 0x00, 0x67, 0xf7, 0x22, 0x23]
  headerLength := rfl
  isVct := .inl rfl
  count := rfl
  size := rfl
  atMost := by decide
  crcValid := by decide +kernel

def longVct : VctSection where
  header := [0xc8, 0xf0, 0x39, 0x00, 0x01, 0xc1, 0x00, 0x00, 0x00, 0x01]
  entries := [longEntry]
  rest := [0xfc, 0x00, 0x37, 0xad, 0xe6, 0x12]
  headerLength := rfl
  isVct := .inl rfl
  count := rfl
  size := rfl
  atMost := by decide
  crcValid := by decide +kernel

/-- The PAT has been read, and a section of the VCT has come. -/
def receivedVct (t : VctSection) : AutoP :=
  { TableReads.started with
    psip := { TableReads.started.psip with
      temp := CatCollection.handedOut t.bytes (t.size ▸ t.atMost) }
    transportStreamId := 1 }

theorem receivedVct_applicable (t : VctSection) (h : transportStreamId t.header = 1) :
    Applicable (receivedVct t) t := by
  refine ⟨List.prefix_append _ _, congrArg Nat.cast h, fun hskips => ?_⟩
  have hmarked : (List.replicate 256 false)[sectionNumber t.header]? = some true := hskips.2
  rw [List.getElem?_replicate_of_lt (sectionNumber_lt _)] at hmarked
  cases hmarked

/-- A known virtual channel without a descriptor has no name. -/
theorem not_givesNames : ¬ ∀ (text : AtscText) (stack : Buffer UInt8 (shortNameLen + 1))
    (s : AutoP) (chanP : MumuChanP) (t : VctSection), Applicable s t →
    GivesNames text stack s chanP t := by
  intro h
  obtain ⟨s', hread⟩ := h uncompressed (Buffer.fill _ 0) (receivedVct bareVct) serviceOne bareVct
    (receivedVct_applicable bareVct rfl)
  have hfault : (autoconfReadPsipIn uncompressed (Buffer.fill _ 0) (receivedVct bareVct)
      serviceOne).map (fun _ => ()) = .error .outOfBounds := by decide +kernel
  rw [hread] at hfault
  cases hfault

theorem mem_offered {p : Placed} (hp : p ∈ offered (receivedVct longVct) longVct) :
    p.entry = longEntry := by
  have hp := (List.mem_filter.mp hp).1
  cases List.mem_singleton.mp hp
  rfl

theorem longVct_sole : Sole uncompressed serviceOne (offered (receivedVct longVct) longVct) := by
  intro p hp _
  refine Nat.le_trans (length_handed_le _ _ _) ?_
  rw [mem_offered hp]
  exact Nat.le_refl 1

theorem longVct_named : ∀ p ∈ offered (receivedVct longVct) longVct,
    Named uncompressed (serviceIds serviceOne) p := by
  intro p hp
  refine ⟨uncompressed_leavesRoom _, fun _ => ?_⟩
  rw [mem_offered hp]
  exact List.cons_ne_nil _ _

theorem readPsip_long : GivesNames uncompressed (Buffer.fill _ 0) (receivedVct longVct) serviceOne
    longVct :=
  (readPsip_iff (receivedVct_applicable longVct rfl) longVct_sole).mpr
    ⟨longVct_named, fun i j _ _ hij _ hlater _ => by
      have hlt := (List.getElem?_eq_some_iff.mp hlater).1
      exact absurd hij (by rw [Nat.lt_one_iff.mp hlt]; exact Nat.not_lt_zero i)⟩

end MuMuDVB.VctReading
