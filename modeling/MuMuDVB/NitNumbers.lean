import MuMuDVB.RewriteSection
import MuMuDVB.TableReads

/-!
# The numbers that the NIT gives the channels

A NIT is a list of transport streams with their descriptors, and those with the
numbers of services are read for the transport stream of the PAT. The reader
keeps the length of a descriptor with its head in an `unsigned char`: where the
length is 254 or 255 it loses its way, and takes other bytes for what follows.
-/
namespace MuMuDVB.NitNumbers

open CheckedMemory MuMuDVB.TsHeader MuMuDVB.Ts MuMuDVB.TsAssembler MuMuDVB.Autoconf
open MuMuDVB.AutoconfPat MuMuDVB.AutoconfTables
open MuMuDVB.RewriteSection (byteAt_append_right byteAt_drop)

/-- An entry of an LCN descriptor. -/
structure LcnEntry where
  serviceId : Nat
  logicalChannelNumber : Nat
  deriving DecidableEq, Repr

/-- The number in the last entry for a service, and the one it has when there is none. -/
def numberFrom (entries : List LcnEntry) (serviceId : Int) (number : Nat) : Nat :=
  (((entries.filter fun e => (e.serviceId : Int) = serviceId).getLast?).map
    LcnEntry.logicalChannelNumber).getD number

/-- The number that a channel has after some entries. -/
def numberOf (entries : List LcnEntry) (chan : AutoChannel) : Nat :=
  numberFrom entries chan.http.serviceId chan.logicalChannelNumber

/-- A descriptor is a tag, a length and as many bytes; one with numbers has four for each. -/
structure IsNitDescriptor (d : List UInt8) : Prop where
  length : d.length = (byteAt d 1).toNat + 2
  lcn : byteAt d 0 = 0x83 → (byteAt d 1).toNat % nitLcnLen = 0

def lcnEntry (d : List UInt8) (i : Nat) : LcnEntry where
  serviceId := hilo (byteAt d i).toNat (byteAt d (i + 1)).toNat
  logicalChannelNumber := hilo ((byteAt d (i + 2)).toNat % 4) (byteAt d (i + 3)).toNat

def lcnEntries (d : List UInt8) : List LcnEntry :=
  (List.range ((byteAt d 1).toNat / nitLcnLen)).map fun k => lcnEntry d (2 + nitLcnLen * k)

structure NitStream where
  head : List UInt8
  descriptors : List (List UInt8)
  headLength : head.length = nitTsLen
  loopLength : hilo ((byteAt head 4).toNat % 16) (byteAt head 5).toNat = descriptors.flatten.length
  isDescriptor : ∀ d ∈ descriptors, IsNitDescriptor d

namespace NitStream

variable (v : NitStream)

def bytes : List UInt8 := v.head ++ v.descriptors.flatten

def tsId : Nat := hilo (byteAt v.head 0).toNat (byteAt v.head 1).toNat

def entries : List LcnEntry :=
  (v.descriptors.filter fun d => byteAt d 0 = 0x83).flatMap lcnEntries

/-- The length of a descriptor and its head fits into an `unsigned char`. -/
def Short : Prop := ∀ d ∈ v.descriptors, (byteAt d 1).toNat < 254

end NitStream

/-- A well-formed NIT section. -/
structure NitSection where
  header : List UInt8
  descriptors : List (List UInt8)
  middle : List UInt8
  streams : List NitStream
  crc : List UInt8
  headerLength : header.length = nitLen
  middleLength : middle.length = sizeNitMid
  crcLength : crc.length = 4
  isNit : tableId header = 0x40
  descriptorsLength : hilo ((byteAt header 8).toNat % 16) (byteAt header 9).toNat =
    descriptors.flatten.length
  isDescriptor : ∀ d ∈ descriptors, d.length = (byteAt d 1).toNat + 2
  loopLength : hilo ((byteAt middle 0).toNat % 16) (byteAt middle 1).toNat =
    (streams.map NitStream.bytes).flatten.length
  size : (header ++ (descriptors.flatten ++
    (middle ++ ((streams.map NitStream.bytes).flatten ++ crc)))).length = sectionSize header
  atMost : sectionSize header ≤ maxTsSize
  crcValid : crc32 (header ++ (descriptors.flatten ++
    (middle ++ ((streams.map NitStream.bytes).flatten ++ crc)))) = 0

namespace NitSection

variable (t : NitSection)

def bytes : List UInt8 :=
  t.header ++ (t.descriptors.flatten ++
    (t.middle ++ ((t.streams.map NitStream.bytes).flatten ++ t.crc)))

/-- The entries in the transport streams with the id of the PAT. -/
def entries (patTsid : Int) : List LcnEntry :=
  (t.streams.filter fun v => (v.tsId : Int) = patTsid).flatMap NitStream.entries

/-- No descriptor of a transport stream has a length of 254 or 255. -/
def Short : Prop := ∀ v ∈ t.streams, v.Short

end NitSection

section found

variable (read : Nat → Checked UInt8)

/-- The entries that `parse_lcn_descriptor` comes to. -/
def foundInLcn (fuel buf remaining : Nat) : Checked (List LcnEntry) :=
  match fuel with
  | 0 => .error .endless
  | fuel + 1 =>
    if 0 < remaining then do
      let serviceId ← readHilo read 256 buf
      let lcn ← readHilo read 4 (buf + 2)
      let rest ← foundInLcn fuel (buf + nitLcnLen) (remaining - nitLcnLen)
      return ⟨serviceId, lcn⟩ :: rest
    else .ok []

/-- The entries that are found in the descriptors of one transport stream, and where the reader is
then. -/
def foundInStream (ours : Bool) (fuel buf remaining : Nat) : Checked (Nat × List LcnEntry) :=
  match fuel with
  | 0 => .error .endless
  | fuel + 1 =>
    if 0 < remaining then do
      let descriptorTag ← read buf
      let len ← read (buf + 1)
      let descriptorLen := (len + 2).toNat
      if descriptorLen = 0 then return (buf, [])
      else do
        let lcns ← (if ours = true ∧ descriptorTag = 0x83 then
            foundInLcn read (len.toNat + 1) (buf + 2) len.toNat
          else .ok [])
        let rest ← foundInStream ours fuel (buf + descriptorLen) (remaining - descriptorLen)
        return (rest.1, lcns ++ rest.2)
    else .ok (buf, [])

/-- The entries that `parse_nit_ts_descriptor` comes to. -/
def found (patTsid : Int) (fuel buf remaining : Nat) : Checked (List LcnEntry) :=
  match fuel with
  | 0 => .error .endless
  | fuel + 1 =>
    if 0 < remaining then do
      let tsId ← readHilo read 256 buf
      let loopLen ← readHilo read 16 (buf + 4)
      let lcns ← foundInStream read ((tsId : Int) = patTsid) (loopLen + 1) (buf + nitTsLen) loopLen
      let rest ← found patTsid fuel lcns.1 (remaining - (loopLen + nitTsLen))
      return lcns.2 ++ rest
    else .ok []

end found

section channels

variable (chanP : MumuChanP)

/-- Channels that have been given their numbers. -/
def numbered (entries : List LcnEntry) : MumuChanP :=
  chanP.map fun chan => { chan with logicalChannelNumber := numberOf entries chan }

theorem map_map (f g : AutoChannel → AutoChannel) :
    (chanP.map f).map g = chanP.map fun chan => g (f chan) := by
  simp only [MumuChanP.map, List.map_map, Function.comp_def]

theorem numberFrom_append (xs ys : List LcnEntry) (serviceId : Int) (number : Nat) :
    numberFrom (xs ++ ys) serviceId number =
      numberFrom ys serviceId (numberFrom xs serviceId number) := by
  rw [numberFrom, numberFrom, numberFrom, List.filter_append, List.getLast?_append]
  cases (ys.filter fun e => (e.serviceId : Int) = serviceId).getLast? <;> rfl

theorem numberFrom_singleton (e : LcnEntry) (serviceId : Int) (number : Nat) :
    numberFrom [e] serviceId number =
      if serviceId = e.serviceId then e.logicalChannelNumber else number := by
  by_cases hsame : (e.serviceId : Int) = serviceId
  · rw [numberFrom, List.filter_cons_of_pos (by simpa using hsame), if_pos hsame.symm]
    rfl
  · rw [numberFrom, List.filter_cons_of_neg (by simpa using hsame), if_neg (Ne.symm hsame)]
    rfl

theorem numbered_nil : numbered chanP [] = chanP := by
  rw [numbered, MumuChanP.map]
  congr 1
  exact List.map_id chanP.channels

theorem numbered_append (xs ys : List LcnEntry) :
    numbered chanP (xs ++ ys) = numbered (numbered chanP xs) ys := by
  rw [numbered, numbered, numbered, map_map]
  simp only [numberOf, numberFrom_append]

theorem numbered_singleton (e : LcnEntry) : numbered chanP [e] = chanP.map fun chan =>
    if hasService e.serviceId chan then
      { chan with logicalChannelNumber := e.logicalChannelNumber } else chan := by
  rw [numbered]
  congr 1
  funext chan
  rw [numberOf, numberFrom_singleton, hasService]
  by_cases hsame : chan.http.serviceId = (e.serviceId : Int)
  · rw [if_pos hsame, if_pos (decide_eq_true hsame)]
  · rw [if_neg hsame, if_neg (by simpa using hsame)]

end channels

section apart

variable (read : Nat → Checked UInt8) (chanP : MumuChanP)

/-- The reading of the entries and what they do to the channels are apart. -/
theorem lcnLoop_eq (fuel buf remaining : Nat) :
    lcnLoop read fuel buf remaining chanP =
      numbered chanP <$> foundInLcn read fuel buf remaining := by
  induction fuel generalizing buf remaining chanP with
  | zero => rfl
  | succ fuel ih =>
    rw [lcnLoop, foundInLcn]
    split
    · simp only [map_bind, map_pure]
      refine bind_congr fun serviceId => bind_congr fun lcn => ?_
      have hentry := numbered_singleton chanP ⟨serviceId, lcn⟩
      dsimp only at hentry
      rw [ih, ← hentry, ← bind_pure_comp]
      simp only [← numbered_append, List.singleton_append]
    · exact congrArg Except.ok (numbered_nil chanP).symm

theorem nitDescriptors_eq (ours : Bool) (fuel buf remaining : Nat) :
    nitDescriptors read ours fuel buf remaining chanP =
      (fun r => (r.1, numbered chanP r.2)) <$> foundInStream read ours fuel buf remaining := by
  induction fuel generalizing buf remaining chanP with
  | zero => rfl
  | succ fuel ih =>
    have hstop : (Except.ok (buf, chanP) : Checked (Nat × MumuChanP)) =
        .ok (buf, numbered chanP []) := by rw [numbered_nil]
    rw [nitDescriptors, foundInStream]
    split
    · simp only [map_bind]
      refine bind_congr fun descriptorTag => bind_congr fun len => ?_
      split
      · exact hstop
      · simp only [map_bind, map_pure]
        split
        · simp only [lcnLoop_eq, ih, ← bind_pure_comp, bind_assoc, pure_bind, numbered_append]
        · simp only [ih, bind_ok, ← bind_pure_comp, List.nil_append]
    · exact hstop

theorem parseNitTsDescriptor_eq (patTsid : Int) (fuel buf remaining : Nat) :
    parseNitTsDescriptor read patTsid fuel buf remaining chanP =
      numbered chanP <$> found read patTsid fuel buf remaining := by
  induction fuel generalizing buf remaining chanP with
  | zero => rfl
  | succ fuel ih =>
    rw [parseNitTsDescriptor, found]
    split
    · simp only [map_bind, map_pure]
      refine bind_congr fun tsId => bind_congr fun loopLen => ?_
      simp only [nitDescriptors_eq, ih, ← bind_pure_comp, bind_assoc, pure_bind, numbered_append]
    · exact congrArg Except.ok (numbered_nil chanP).symm

end apart

section reads

/-- The bytes `xs` are read from `a` on. -/
def ReadsAt (read : Nat → Checked UInt8) (a : Nat) (xs : List UInt8) : Prop :=
  ∀ i < xs.length, read (a + i) = .ok (byteAt xs i)

variable {read : Nat → Checked UInt8} {a : Nat} {xs ys : List UInt8}

theorem reads_of_drop {n : Nat} {dataFull : Buffer UInt8 n}
    (h : dataFull.cells.drop a = xs ++ ys) : ReadsAt dataFull.read a xs := by
  intro i hi
  have hcell : dataFull.cells[a + i]? = xs[i]? := by
    rw [← List.getElem?_drop, h, List.getElem?_append_left hi]
  refine dataFull.read_ok ?_
  rw [hcell, List.getElem?_eq_getElem hi, byteAt, List.getD_eq_getElem?_getD,
    List.getElem?_eq_getElem hi, Option.getD_some]

theorem ReadsAt.left (h : ReadsAt read a (xs ++ ys)) : ReadsAt read a xs := by
  intro i hi
  rw [h i (by rw [List.length_append]; omega), byteAt_append_left hi]

theorem ReadsAt.right (h : ReadsAt read a (xs ++ ys)) : ReadsAt read (a + xs.length) ys := by
  intro i hi
  rw [Nat.add_assoc, h _ (by rw [List.length_append]; omega), byteAt_append_right]

theorem ReadsAt.drop (h : ReadsAt read a xs) (k : Nat) : ReadsAt read (a + k) (xs.drop k) := by
  intro i hi
  rw [List.length_drop] at hi
  rw [Nat.add_assoc, h _ (by omega), byteAt_drop]

theorem ReadsAt.hilo (h : ReadsAt read a xs) (mask : Nat) {i : Nat} (hi : i + 1 < xs.length) :
    readHilo read mask (a + i) =
      .ok (hilo ((byteAt xs i).toNat % mask) (byteAt xs (i + 1)).toNat) := by
  rw [readHilo, h i (by omega), bind_ok, Nat.add_assoc, h (i + 1) hi]
  rfl

theorem ReadsAt.wide (h : ReadsAt read a xs) {i : Nat} (hi : i + 1 < xs.length) :
    readHilo read 256 (a + i) =
      .ok (TsHeader.hilo (byteAt xs i).toNat (byteAt xs (i + 1)).toNat) := by
  rw [h.hilo 256 hi, Nat.mod_eq_of_lt (byteAt xs i).toNat_lt]

theorem lcnEntry_drop (xs : List UInt8) (k i : Nat) :
    lcnEntry (xs.drop k) i = lcnEntry xs (k + i) := by
  simp only [lcnEntry, byteAt_drop, Nat.add_assoc]

/-- An LCN descriptor is read entry by entry. -/
theorem foundInLcn_ok {m fuel : Nat} (h : ReadsAt read a xs) (hlen : xs.length = nitLcnLen * m)
    (hfuel : m ≤ fuel) : foundInLcn read (fuel + 1) a (nitLcnLen * m) =
      .ok ((List.range m).map fun k => lcnEntry xs (nitLcnLen * k)) := by
  induction m generalizing a xs fuel with
  | zero => rfl
  | succ m ih =>
    obtain ⟨fuel, rfl⟩ : ∃ fuel', fuel = fuel' + 1 := ⟨fuel - 1, by omega⟩
    have hrest := ih (h.drop nitLcnLen) (by rw [List.length_drop, hlen, nitLcnLen]; omega)
      (Nat.le_of_succ_le_succ hfuel)
    rw [nitLcnLen] at hlen
    have hservice := h.wide (show 0 + 1 < xs.length by omega)
    rw [Nat.add_zero] at hservice
    rw [foundInLcn, if_pos (by rw [nitLcnLen]; omega), hservice, bind_ok,
      h.hilo 4 (show 2 + 1 < xs.length by omega), bind_ok,
      Nat.mul_succ, Nat.add_sub_cancel, hrest, bind_ok, List.range_succ_eq_map, List.map_cons,
      List.map_map]
    simp only [lcnEntry_drop, Function.comp_def, Nat.mul_succ, Nat.add_comm]
    rfl

theorem lcnEntries_ok {d : List UInt8} (hd : IsNitDescriptor d) (hlcn : byteAt d 0 = 0x83)
    (h : ReadsAt read a d) : foundInLcn read ((byteAt d 1).toNat + 1) (a + 2) (byteAt d 1).toNat =
      .ok (lcnEntries d) := by
  have hwhole : (byteAt d 1).toNat = nitLcnLen * ((byteAt d 1).toNat / nitLcnLen) :=
    (Nat.mul_div_cancel' (Nat.dvd_of_mod_eq_zero (hd.lcn hlcn))).symm
  have hread := foundInLcn_ok (h.drop 2)
    (show (d.drop 2).length = nitLcnLen * ((byteAt d 1).toNat / nitLcnLen) by
      rw [List.length_drop, hd.length, ← hwhole, Nat.add_sub_cancel])
    (Nat.div_le_self (byteAt d 1).toNat nitLcnLen)
  rw [← hwhole] at hread
  rw [hread]
  simp only [lcnEntries, lcnEntry_drop]

/-- The descriptors of a transport stream are read one after the other while none is too long. -/
theorem foundInStream_ok {ds : List (List UInt8)} (hds : ∀ d ∈ ds, IsNitDescriptor d)
    (hshort : ∀ d ∈ ds, (byteAt d 1).toNat < 254) (ours : Bool) {fuel : Nat}
    (h : ReadsAt read a ds.flatten) (hfuel : ds.flatten.length ≤ fuel) :
    foundInStream read ours (fuel + 1) a ds.flatten.length = .ok (a + ds.flatten.length,
      if ours then (ds.filter fun d => byteAt d 0 = 0x83).flatMap lcnEntries else []) := by
  induction ds generalizing a fuel with
  | nil => cases ours <;> rfl
  | cons d ds ih =>
    rw [List.forall_mem_cons] at hds hshort
    have hlen := hds.1.length
    rw [List.flatten_cons] at h hfuel ⊢
    rw [List.length_append] at hfuel ⊢
    obtain ⟨fuel, rfl⟩ : ∃ fuel', fuel = fuel' + 1 := ⟨fuel - 1, by omega⟩
    have hrest := ih hds.2 hshort.2 h.right (show ds.flatten.length ≤ fuel by omega)
    have hstep : (byteAt d 1 + 2).toNat = d.length := by
      rw [UInt8.toNat_add, hlen]
      exact Nat.mod_eq_of_lt (by have := hshort.1; simp only [UInt8.reduceToNat]; omega)
    have htag : read a = .ok (byteAt d 0) := h.left 0 (by omega)
    rw [foundInStream, if_pos (by omega), htag, bind_ok, h.left 1 (by omega), bind_ok]
    dsimp only
    rw [hstep, if_neg (by omega), Nat.add_sub_cancel_left, hrest, ← Nat.add_assoc]
    cases ours with
    | false => rfl
    | true =>
      by_cases hlcn : byteAt d 0 = 0x83
      · rw [if_pos ⟨rfl, hlcn⟩, lcnEntries_ok hds.1 hlcn h.left,
          List.filter_cons_of_pos (by simpa using hlcn)]
        rfl
      · rw [if_neg fun hboth => hlcn hboth.2, List.filter_cons_of_neg (by simpa using hlcn)]
        rfl

theorem NitStream.length_bytes (v : NitStream) :
    v.bytes.length = nitTsLen + v.descriptors.flatten.length := by
  rw [NitStream.bytes, List.length_append, v.headLength]

/-- So are the transport streams. -/
theorem found_ok {vs : List NitStream} (hshort : ∀ v ∈ vs, v.Short) (patTsid : Int) {fuel : Nat}
    (h : ReadsAt read a (vs.map NitStream.bytes).flatten)
    (hfuel : (vs.map NitStream.bytes).flatten.length ≤ fuel) :
    found read patTsid (fuel + 1) a (vs.map NitStream.bytes).flatten.length =
      .ok ((vs.filter fun v => (v.tsId : Int) = patTsid).flatMap NitStream.entries) := by
  induction vs generalizing a fuel with
  | nil => rfl
  | cons v vs ih =>
    rw [List.forall_mem_cons] at hshort
    rw [List.map_cons, List.flatten_cons] at h hfuel ⊢
    have hlen := v.length_bytes
    rw [nitTsLen] at hlen
    rw [List.length_append] at hfuel ⊢
    obtain ⟨fuel, rfl⟩ : ∃ fuel', fuel = fuel' + 1 := ⟨fuel - 1, by omega⟩
    have hhead := h.left.left
    have hdescriptors := h.left.right
    have hsix : v.head.length = 6 := v.headLength
    have hrest := ih hshort.2 h.right (show (vs.map NitStream.bytes).flatten.length ≤ fuel by omega)
    have hts := hhead.wide (show 0 + 1 < v.head.length by omega)
    rw [Nat.add_zero] at hts
    have hstream := foundInStream_ok v.isDescriptor hshort.1 ((v.tsId : Int) = patTsid)
      hdescriptors (Nat.le_refl _)
    rw [v.headLength] at hstream
    rw [found, if_pos (by omega), hts, bind_ok, hhead.hilo 16 (show 4 + 1 < v.head.length by omega),
      bind_ok, v.loopLength]
    change (foundInStream read ((v.tsId : Int) = patTsid) _ _ _ >>= _) = _
    have hnext : a + nitTsLen + v.descriptors.flatten.length = a + v.bytes.length := by
      rw [v.length_bytes, Nat.add_assoc]
    have hleft : v.bytes.length + (vs.map NitStream.bytes).flatten.length -
        (v.descriptors.flatten.length + nitTsLen) = (vs.map NitStream.bytes).flatten.length := by
      rw [nitTsLen]
      omega
    rw [hstream, bind_ok]
    dsimp only
    rw [hnext, hleft, hrest, bind_ok]
    by_cases hours : (v.tsId : Int) = patTsid
    · rw [List.filter_cons_of_pos (by simpa using hours), decide_eq_true hours]
      rfl
    · rw [List.filter_cons_of_neg (by simpa using hours), decide_eq_false hours]
      rfl

end reads

/-- Inside `data_full` the bytes are those of `data_full`. -/
def ReadsInside (env : Surroundings) : Prop :=
  ∀ (pkt : MumudvbTsPacket) (i : Nat), i < maxTsSize →
    env.byte pkt i = .ok (byteAt pkt.dataFull.cells i)

/-- The section has come, is applicable and has not been read before. -/
structure Applicable (s : AutoP) (t : NitSection) : Prop where
  stored : t.bytes <+: s.nit.temp.dataFull.cells
  current : currentNextIndicator t.header = 1
  unread : ¬ s.nit.Skips t.header

/-- The entries that the reader finds from the transport streams of the section on. -/
def foundInSection (env : Surroundings) (s : AutoP) (t : NitSection) : Checked (List LcnEntry) :=
  found (env.byte s.nit.temp) s.transportStreamId
    ((t.streams.map NitStream.bytes).flatten.length + 1)
    (nitLen + t.descriptors.flatten.length + sizeNitMid)
    (t.streams.map NitStream.bytes).flatten.length

/-- The channels have the numbers of the section. -/
def GivesNumbers (env : Surroundings) (s : AutoP) (chanP : MumuChanP) (t : NitSection) : Prop :=
  ∃ s' chanP', autoconfReadNit env s chanP = .ok (s', chanP') ∧
    chanP'.channels.map AutoChannel.logicalChannelNumber =
      chanP.channels.map (numberOf (t.entries s.transportStreamId))

/-- A reader that has lost its way finds entries that give the channels the same numbers. -/
def SameNumbers (env : Surroundings) (s : AutoP) (chanP : MumuChanP) (t : NitSection) : Prop :=
  ∃ entries, foundInSection env s t = .ok entries ∧
    ∀ chan ∈ chanP.channels,
      numberOf entries chan = numberOf (t.entries s.transportStreamId) chan

section read

variable {env : Surroundings} {s : AutoP} {chanP : MumuChanP} {t : NitSection}

theorem Applicable.header (h : Applicable s t) {i : Nat} (hi : i < 10) :
    byteAt s.nit.temp.dataFull.cells i = byteAt t.header i := by
  obtain ⟨rest, hrest⟩ := h.stored
  rw [← hrest, NitSection.bytes, List.append_assoc,
    byteAt_append_left (by rw [t.headerLength]; exact hi)]

theorem Applicable.reads (henv : ReadsInside env) (h : Applicable s t) :
    ReadsAt (env.byte s.nit.temp) 0 t.bytes := by
  intro i hi
  have hsize : t.bytes.length ≤ maxTsSize := t.size ▸ t.atMost
  obtain ⟨rest, hrest⟩ := h.stored
  rw [Nat.zero_add, henv _ _ (Nat.lt_of_lt_of_le hi hsize), ← hrest, byteAt_append_left hi]

/-- Reading an applicable section is finding its entries. -/
theorem autoconfReadNit_eq (chanP : MumuChanP) (henv : ReadsInside env) (h : Applicable s t) :
    ∃ s', autoconfReadNit env s chanP =
      (fun entries => (s', numbered chanP entries)) <$> foundInSection env s t := by
  obtain ⟨tracker, hstore, -⟩ := s.nit.store_renew s.nit.temp.dataFull.cells
  have hreads := h.reads henv
  have hunread : ¬ s.nit.Skips s.nit.temp.dataFull.cells := by
    have hunread := h.unread
    rw [Tracker.Skips, versionNumber, sectionNumber] at hunread ⊢
    rwa [h.header (by decide), h.header (by decide)]
  have htable : tableId s.nit.temp.dataFull.cells = 0x40 := by
    rw [← t.isNit, tableId, tableId, h.header (by decide)]
  have hcurrent : currentNextIndicator s.nit.temp.dataFull.cells = 1 := by
    rw [← h.current, currentNextIndicator, currentNextIndicator, h.header (by decide)]
  have hheader := hreads.left
  have hten : t.header.length = 10 := t.headerLength
  have hmiddle := hreads.right.right.left
  rw [Nat.zero_add, t.headerLength] at hmiddle
  have htwo : t.middle.length = 2 := t.middleLength
  have hnetwork := hheader.wide (show 3 + 1 < t.header.length by omega)
  have hdescriptors := hheader.hilo 16 (show 8 + 1 < t.header.length by omega)
  have hloop := hmiddle.hilo 16 (show 0 + 1 < t.middle.length by omega)
  rw [Nat.zero_add] at hnetwork hdescriptors
  rw [t.descriptorsLength] at hdescriptors
  rw [Nat.add_zero, t.loopLength] at hloop
  rw [autoconfReadNit]
  dsimp only
  rw [if_neg (not_not.mpr htable), Tracker.alreadySeen_eq, bind_ok,
    if_neg (by simpa using hunread), hstore, bind_ok, if_neg (by rw [hcurrent]; decide), hnetwork,
    bind_ok, hdescriptors, bind_ok, hloop, bind_ok, parseNitTsDescriptor_eq, bind_map_left,
    foundInSection]
  split
  · exact ⟨_, bind_pure_comp _ _⟩
  · exact ⟨_, bind_pure_comp _ _⟩

/-- A section without long descriptors is found as it is. -/
theorem foundInSection_short (henv : ReadsInside env) (h : Applicable s t) (hshort : t.Short) :
    foundInSection env s t = .ok (t.entries s.transportStreamId) := by
  have hstreams := (h.reads henv).right.right.right.left
  rw [Nat.zero_add, t.headerLength, t.middleLength] at hstreams
  exact found_ok hshort s.transportStreamId hstreams (Nat.le_refl _)

end read

theorem plain_readsInside : ReadsInside TableReads.plain := fun _ _ _ => rfl

/-- The number 5 for the service 1. -/
def lcnFive : List UInt8 := [0x83, 0x04, 0x00, 0x01, 0xfc, 0x05]

/-- A descriptor of another kind with a length of 254. -/
def longDescriptor : List UInt8 := 0xfe :: 0xfe :: List.replicate 254 0

theorem lcnFive_isNitDescriptor : IsNitDescriptor lcnFive := ⟨rfl, fun _ => rfl⟩

theorem longDescriptor_isNitDescriptor : IsNitDescriptor longDescriptor :=
  ⟨congrArg (· + 2) List.length_replicate, fun hlcn => absurd hlcn (by decide)⟩

def lcnStream : NitStream where
  head := [0x00, 0x01, 0x00, 0x01, 0xf0, 0x06]
  descriptors := [lcnFive]
  headLength := rfl
  loopLength := rfl
  isDescriptor := List.forall_mem_singleton.mpr lcnFive_isNitDescriptor

theorem late_loopLength : [longDescriptor, lcnFive].flatten.length = 262 := by
  rw [List.flatten_cons, List.length_append, longDescriptor_isNitDescriptor.length]
  rfl

/-- A transport stream in which the numbers come behind a long descriptor. -/
def lateStream : NitStream where
  head := [0x00, 0x01, 0x00, 0x01, 0xf1, 0x06]
  descriptors := [longDescriptor, lcnFive]
  headLength := rfl
  loopLength := late_loopLength.symm
  isDescriptor := List.forall_mem_cons.mpr ⟨longDescriptor_isNitDescriptor,
    List.forall_mem_singleton.mpr lcnFive_isNitDescriptor⟩

def lcnNit : NitSection where
  header := [0x40, 0xb0, 0x19, 0x00, 0x01, 0xc1, 0x00, 0x00, 0xf0, 0x00]
  descriptors := []
  middle := [0xf0, 0x0c]
  streams := [lcnStream]
  crc := [0x8b, 0xe7, 0x88, 0xdf]
  headerLength := rfl
  middleLength := rfl
  crcLength := rfl
  isNit := rfl
  descriptorsLength := rfl
  isDescriptor := List.forall_mem_nil _
  loopLength := rfl
  size := rfl
  atMost := by decide
  crcValid := by decide +kernel

theorem lateStreams_length : ([lateStream].map NitStream.bytes).flatten.length = 268 := by
  rw [List.map_singleton, List.flatten_singleton, NitStream.length_bytes,
    show lateStream.descriptors.flatten.length = 262 from late_loopLength]

theorem lateNit_size (header middle crc : List UInt8) :
    (header ++ (([] : List (List UInt8)).flatten ++
      (middle ++ (([lateStream].map NitStream.bytes).flatten ++ crc)))).length =
        header.length + (middle.length + (268 + crc.length)) := by
  rw [List.flatten_nil, List.nil_append, List.length_append, List.length_append, List.length_append,
    lateStreams_length]

def lateNit : NitSection where
  header := [0x40, 0xb1, 0x19, 0x00, 0x01, 0xc1, 0x00, 0x00, 0xf0, 0x00]
  descriptors := []
  middle := [0xf1, 0x0c]
  streams := [lateStream]
  crc := [0xfe, 0xf0, 0xb9, 0xb3]
  headerLength := rfl
  middleLength := rfl
  crcLength := rfl
  isNit := rfl
  descriptorsLength := rfl
  isDescriptor := List.forall_mem_nil _
  loopLength := lateStreams_length.symm
  size := lateNit_size _ _ _
  atMost := by decide
  crcValid := by decide +kernel

/-- The PAT has been read, and a NIT section has come. -/
def receivedNit (t : NitSection) : AutoP :=
  { TableReads.started with
    nit := { unread (-1) with temp := CatCollection.handedOut t.bytes (t.size ▸ t.atMost) }
    transportStreamId := 1 }

theorem receivedNit_applicable (t : NitSection) (h : currentNextIndicator t.header = 1) :
    Applicable (receivedNit t) t := by
  refine ⟨List.prefix_append _ _, h, fun hskips => ?_⟩
  have hversion : ((versionNumber t.header : Nat) : Int) = -1 := hskips.1
  omega

/-- One channel, of the service 1. -/
def serviceOne : MumuChanP :=
  ⟨[{ unusedChannel with http := { unusedChannel.http with serviceId := 1 } }], by decide⟩

end MuMuDVB.NitNumbers
