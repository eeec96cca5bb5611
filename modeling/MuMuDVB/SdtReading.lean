import MuMuDVB.CatCollection
import MuMuDVB.NitNumbers

/-!
# What the SDT says about the channels

A version of the SDT comes in sections, in any order and again and again. For each
service of a section `autoconf_read_sdt` looks for the channel, and walks through
the descriptors of the service. Its step is an `unsigned char`, so a descriptor of
254 bytes ends the walk and one of 255 bytes leads it astray; and of the channels
with one service id only the last is found.
-/
namespace MuMuDVB.SdtReading

open CheckedMemory MuMuDVB.TsHeader MuMuDVB.Ts MuMuDVB.TsAssembler MuMuDVB.Autoconf
open MuMuDVB.AutoconfPat MuMuDVB.AutoconfTables MuMuDVB.NitNumbers
open MuMuDVB.CatCollection (SeenTable seenTable_fill)

/-- Where the length of the service name stands in a service descriptor. -/
def nameAt (d : List UInt8) : Nat := 4 + (byteAt d 3).toNat

/-- The bytes of the service name. -/
def nameBytes (d : List UInt8) : List UInt8 :=
  (d.drop (nameAt d + 1)).take (byteAt d (nameAt d)).toNat

/-- A descriptor is a tag, a length and as many bytes; the names of a service descriptor are
inside. -/
structure IsSdtDescriptor (d : List UInt8) : Prop where
  length : d.length = (byteAt d 1).toNat + 2
  service : byteAt d 0 = 0x48 → nameAt d + 1 + (byteAt d (nameAt d)).toNat ≤ d.length

/-- The channel with the type and the name of the last service descriptor. -/
def named (convert : List UInt8 → List UInt8) (descriptors : List (List UInt8))
    (chan : AutoChannel) : AutoChannel :=
  match (descriptors.filter fun d => byteAt d 0 = 0x48).getLast? with
  | some d => { chan with
    serviceType := (byteAt d 2).toNat, serviceName := convert (nameBytes d) }
  | none => chan

/-- A service with its descriptors. -/
structure SdtService where
  head : List UInt8
  descriptors : List (List UInt8)
  headLength : head.length = sdtDescrLen
  loopLength : hilo ((byteAt head 3).toNat % 16) (byteAt head 4).toNat = descriptors.flatten.length
  isDescriptor : ∀ d ∈ descriptors, IsSdtDescriptor d

namespace SdtService

variable (v : SdtService)

def bytes : List UInt8 := v.head ++ v.descriptors.flatten

def serviceId : Nat := hilo (byteAt v.head 0).toNat (byteAt v.head 1).toNat

def freeCaMode : Bool := (byteAt v.head 3).toNat / 16 % 2 = 1

/-- The channel as the service describes it. -/
def describe (convert : List UInt8 → List UInt8) (chan : AutoChannel) : AutoChannel :=
  named convert v.descriptors { chan with freeCaMode := v.freeCaMode }

/-- The length of a descriptor and its head fits into an `unsigned char`. -/
def Short : Prop := ∀ d ∈ v.descriptors, (byteAt d 1).toNat < 254

end SdtService

/-- A well-formed SDT section in force. -/
structure SdtSection where
  header : List UInt8
  services : List SdtService
  crc : List UInt8
  headerLength : header.length = sdtLen
  crcLength : crc.length = 4
  isSdt : tableId header = 0x42
  current : currentNextIndicator header = 1
  size : (header ++ ((services.map SdtService.bytes).flatten ++ crc)).length = sectionSize header
  atMost : sectionSize header ≤ maxTsSize
  crcValid : crc32 (header ++ ((services.map SdtService.bytes).flatten ++ crc)) = 0

def SdtSection.bytes (t : SdtSection) : List UInt8 :=
  t.header ++ ((t.services.map SdtService.bytes).flatten ++ t.crc)

/-- One version of the SDT, its sections numbered from 0; each service is listed once. -/
structure SdtTable where
  version : Nat
  sections : List SdtSection
  nonempty : sections ≠ []
  atMost : sections.length ≤ 256
  numbered : ∀ i t, sections[i]? = some t → versionNumber t.header = version ∧
    sectionNumber t.header = i ∧ lastSectionNumber t.header = sections.length - 1
  once : ((sections.flatMap SdtSection.services).map SdtService.serviceId).Nodup

/-- A section of the version arrives: it is what `data_full` holds. -/
structure Arrival (table : SdtTable) where
  index : Nat
  sdt : SdtSection
  found : table.sections[index]? = some sdt
  pkt : MumudvbTsPacket
  lenFull : pkt.lenFull = sdt.bytes.length
  holds : sdt.bytes <+: pkt.dataFull.cells

/-- The autoconfiguration and the channels before the version comes. -/
structure Before (table : SdtTable) where
  autoP : AutoP
  chanP : MumuChanP
  other : autoP.sdt.version ≠ table.version

/-- A set of services describes a channel: a listed one is as its service says, and any other one
is as it was. -/
structure Described (convert : List UInt8 → List UInt8) (services : SdtService → Prop)
    (chan chan' : AutoChannel) : Prop where
  listed : ∀ v, services v → hasService v.serviceId chan = true → chan' = v.describe convert chan
  unlisted : (∀ v, services v → hasService v.serviceId chan = false) → chan' = chan

/-- The version has been read completely. -/
def Completed (table : SdtTable) (s : AutoP) : Prop :=
  s.sdt.version = table.version ∧ s.sdt.allSectionsSeen = true

/-- The service ids of the channels. -/
def serviceIds (chanP : MumuChanP) : List Int := chanP.channels.map fun chan => chan.http.serviceId

/-- A service that a channel has is the service of one channel, and none of its descriptors has a
length of 254 or 255. -/
structure Followed (ids : List Int) (v : SdtService) : Prop where
  sole : ∀ i j : Nat, ids[i]? = some (v.serviceId : Int) → ids[j]? = some (v.serviceId : Int) →
    i = j
  short : (v.serviceId : Int) ∈ ids → v.Short

section arrivals

variable (env : Surroundings) {table : SdtTable}

def readArrival (s : AutoP × MumuChanP) (a : Arrival table) : Checked (AutoP × MumuChanP) :=
  autoconfReadSdt env { s.1 with sdt := { s.1.sdt with temp := a.pkt } } s.2

/-- The sections are read in the order in which they arrive. -/
def readArrivals (s : AutoP × MumuChanP) (arrivals : List (Arrival table)) :
    Checked (AutoP × MumuChanP) :=
  arrivals.foldlM (readArrival env) s

end arrivals

section describe

variable {convert : List UInt8 → List UInt8} {chan chan₁ chan' : AutoChannel} {v w : SdtService}

theorem SdtService.describe_describe (v : SdtService) :
    v.describe convert (v.describe convert chan) = v.describe convert chan := by
  rw [SdtService.describe, SdtService.describe, named, named]
  split <;> rfl

/-- No two services have one id. -/
def Unique (services : SdtService → Prop) : Prop :=
  ∀ v w, services v → services w → v.serviceId = w.serviceId → v = w

theorem eq_of_hasService {m n : Nat} (hm : hasService m chan = true)
    (hn : hasService n chan = true) : m = n := by
  have hm := of_decide_eq_true hm
  have hn := of_decide_eq_true hn
  omega

theorem Described.serviceId {services : SdtService → Prop}
    (h : Described convert services chan chan') : chan'.http.serviceId = chan.http.serviceId := by
  by_cases hlisted : ∃ v, services v ∧ AutoconfPat.hasService v.serviceId chan = true
  · obtain ⟨v, hv, hhas⟩ := hlisted
    rw [h.listed v hv hhas, SdtService.describe, named]
    split <;> rfl
  · rw [h.unlisted fun v hv => by
      rw [← Bool.not_eq_true]
      exact fun hhas => hlisted ⟨v, hv, hhas⟩]

/-- What is described by one set of services after the other is described by both. -/
theorem Described.trans {first second : SdtService → Prop}
    (hunique : Unique fun v => first v ∨ second v) (h : Described convert first chan chan₁)
    (h' : Described convert second chan₁ chan') :
    Described convert (fun v => first v ∨ second v) chan chan' := by
  have hsame : ∀ n, AutoconfPat.hasService n chan₁ = AutoconfPat.hasService n chan := fun n => by
    rw [AutoconfPat.hasService, AutoconfPat.hasService, h.serviceId]
  constructor
  · intro v hv hhas
    by_cases hfirst : first v
    · have hone := h.listed v hfirst hhas
      by_cases hsecond : ∃ w, second w ∧ AutoconfPat.hasService w.serviceId chan₁ = true
      · obtain ⟨w, hw, hwhas⟩ := hsecond
        have heq := hunique v w hv (.inr hw)
          (eq_of_hasService hhas (by rwa [hsame] at hwhas))
        subst heq
        rw [h'.listed v hw hwhas, hone, v.describe_describe]
      · rw [h'.unlisted fun w hw => by
          rw [← Bool.not_eq_true]
          exact fun hwhas => hsecond ⟨w, hw, hwhas⟩, hone]
    · have hsecond := hv.resolve_left hfirst
      have hnone : ∀ w, first w → AutoconfPat.hasService w.serviceId chan = false := by
        intro w hw
        rw [← Bool.not_eq_true]
        intro hwhas
        exact hfirst (hunique v w hv (.inl hw) (eq_of_hasService hhas hwhas) ▸ hw)
      have hkept := h.unlisted hnone
      subst hkept
      exact h'.listed v hsecond hhas
  · intro hnone
    rw [h'.unlisted fun w hw => by rw [hsame]; exact hnone w (.inr hw),
      h.unlisted fun w hw => hnone w (.inl hw)]

theorem Described.congr {first second : SdtService → Prop} (h : Described convert first chan chan')
    (hiff : ∀ v, first v ↔ second v) : Described convert second chan chan' :=
  ⟨fun v hv => h.listed v ((hiff v).mpr hv), fun hnone => h.unlisted fun v hv =>
    hnone v ((hiff v).mp hv)⟩

theorem described_none : Described convert (fun _ => False) chan chan :=
  ⟨fun _ hv => hv.elim, fun _ => rfl⟩

end describe

section walk

variable {read : Nat → Checked UInt8} {convert : List UInt8 → List UInt8} {a : Nat}

theorem readBytes_ok {xs : List UInt8} (h : ReadsAt read a xs) {i len : Nat}
    (hlen : i + len ≤ xs.length) :
    readBytes read (a + i) len = .ok ((xs.drop i).take len) := by
  rw [readBytes, mapM_eq_ok, List.forall₂_iff_get]
  refine ⟨by simp; omega, fun k hk hk' => ?_⟩
  rw [List.length_range] at hk
  have hread := h (i + k) (by omega)
  simp only [List.get_eq_getElem, List.getElem_range, List.getElem_take, List.getElem_drop]
  rw [Nat.add_assoc, hread, byteAt, List.getD_eq_getElem?_getD,
    List.getElem?_eq_getElem (by omega), Option.getD_some]

/-- A service descriptor gives the channel its type and its name. -/
theorem parseServiceDescriptor_ok {d : List UInt8} (hd : IsSdtDescriptor d)
    (htag : byteAt d 0 = 0x48) (h : ReadsAt read a d) (chan : AutoChannel) :
    parseServiceDescriptor read convert a chan = .ok { chan with
      serviceType := (byteAt d 2).toNat, serviceName := convert (nameBytes d) } := by
  have hinside := hd.service htag
  have hat : a + 3 + ((byteAt d 3).toNat + 1) = a + nameAt d := by
    rw [nameAt]
    omega
  have hfour : 4 ≤ nameAt d := Nat.le_add_right _ _
  have hname := readBytes_ok h hinside
  rw [parseServiceDescriptor, h 2 (by omega), bind_ok, h 3 (by omega), bind_ok]
  dsimp only
  rw [hat, h (nameAt d) (by omega), bind_ok, Nat.add_assoc a, hname]
  rfl

theorem named_cons (d : List UInt8) (ds : List (List UInt8)) (chan : AutoChannel) :
    named convert (d :: ds) chan = named convert ds (if byteAt d 0 = 0x48 then { chan with
      serviceType := (byteAt d 2).toNat, serviceName := convert (nameBytes d) } else chan) := by
  rw [named, named]
  by_cases htag : byteAt d 0 = 0x48
  · rw [List.filter_cons_of_pos (by simpa using htag), List.getLast?_cons, if_pos htag]
    cases (ds.filter fun d => decide (byteAt d 0 = 0x48)).getLast? <;> rfl
  · rw [List.filter_cons_of_neg (by simpa using htag), if_neg htag]

/-- The descriptors are read one after the other while none is too long. -/
theorem parseSdtDescriptor_ok {ds : List (List UInt8)} (hds : ∀ d ∈ ds, IsSdtDescriptor d)
    (hshort : ∀ d ∈ ds, (byteAt d 1).toNat < 254) {fuel : Nat} (h : ReadsAt read a ds.flatten)
    (hfuel : ds.flatten.length ≤ fuel) (chan : AutoChannel) :
    parseSdtDescriptor read convert (fuel + 1) a ds.flatten.length chan =
      .ok (named convert ds chan) := by
  induction ds generalizing a fuel chan with
  | nil => rfl
  | cons d ds ih =>
    rw [List.forall_mem_cons] at hds hshort
    have hlen := hds.1.length
    rw [List.flatten_cons] at h hfuel ⊢
    rw [List.length_append] at hfuel ⊢
    obtain ⟨fuel, rfl⟩ : ∃ fuel', fuel = fuel' + 1 := ⟨fuel - 1, by omega⟩
    have hrest := ih hds.2 hshort.2 h.right (show ds.flatten.length ≤ fuel by omega)
    have hstep : (byteAt d 1 + 2).toNat = d.length := by
      rw [UInt8.toNat_add, hlen]
      exact Nat.mod_eq_of_lt (by have := hshort.1; simp only [UInt8.reduceToNat]; omega)
    have htag : read a = .ok (byteAt d 0) := h.left 0 (by omega)
    rw [parseSdtDescriptor, if_pos (by omega), htag, bind_ok, h.left 1 (by omega), bind_ok,
      named_cons]
    dsimp only
    rw [hstep, if_neg (by omega), Nat.add_sub_cancel_left]
    by_cases hservice : byteAt d 0 = 0x48
    · rw [if_pos hservice, if_pos hservice, parseServiceDescriptor_ok hds.1 hservice h.left,
        bind_ok, hrest]
    · rw [if_neg hservice, if_neg hservice, bind_ok, hrest]

end walk

section services

variable {convert : List UInt8 → List UInt8} {services : SdtService → Prop}
  {chanP chanP' : MumuChanP} {v : SdtService}

/-- Each channel is described in its place. -/
def AllDescribed (convert : List UInt8 → List UInt8) (services : SdtService → Prop)
    (chanP chanP' : MumuChanP) : Prop :=
  List.Forall₂ (Described convert services) chanP.channels chanP'.channels

theorem AllDescribed.serviceIds (h : AllDescribed convert services chanP chanP') :
    serviceIds chanP' = serviceIds chanP := by
  have hall : ∀ {xs ys : List AutoChannel}, List.Forall₂ (Described convert services) xs ys →
      ys.map (fun chan => chan.http.serviceId) = xs.map fun chan => chan.http.serviceId := by
    intro xs ys hxs
    induction hxs with
    | nil => rfl
    | @cons chan chan' xs ys hchan _ ih =>
      have hid := hchan.serviceId
      rw [List.map_cons, List.map_cons, ih, hid]
  exact hall h

theorem AllDescribed.trans {second : SdtService → Prop} {chanP₁ : MumuChanP}
    (hunique : Unique fun v => services v ∨ second v)
    (h : AllDescribed convert services chanP chanP₁)
    (h' : AllDescribed convert second chanP₁ chanP') :
    AllDescribed convert (fun v => services v ∨ second v) chanP chanP' := by
  rw [AllDescribed, List.forall₂_iff_get] at h h' ⊢
  refine ⟨h.1.trans h'.1, fun i hi hi' => ?_⟩
  exact (h.2 i hi (h.1 ▸ hi)).trans hunique (h'.2 i (h.1 ▸ hi) hi')

theorem AllDescribed.congr {second : SdtService → Prop}
    (h : AllDescribed convert services chanP chanP') (hiff : ∀ v, services v ↔ second v) :
    AllDescribed convert second chanP chanP' :=
  List.Forall₂.imp (fun _ _ hchan => hchan.congr hiff) h

theorem allDescribed_none : AllDescribed convert (fun _ => False) chanP chanP :=
  List.forall₂_same.mpr fun _ _ => described_none

theorem serviceIds_getElem? {i : Nat} {chan : AutoChannel} (h : chanP.channels[i]? = some chan)
    {serviceId : Nat} (hhas : hasService serviceId chan = true) :
    (serviceIds chanP)[i]? = some (serviceId : Int) := by
  rw [serviceIds, List.getElem?_map, h]
  exact congrArg some (of_decide_eq_true hhas)

/-- The channel that is found for a service is described by it, and the others stay. -/
theorem allDescribed_set (hfollowed : Followed (serviceIds chanP) v) {i : Nat} {chan : AutoChannel}
    (hfound : chanP.channels[i]? = some chan) (hhas : hasService v.serviceId chan = true) :
    AllDescribed convert (fun w => w = v) chanP (chanP.set i (v.describe convert chan)) := by
  rw [AllDescribed, List.forall₂_iff_get]
  refine ⟨by simp [MumuChanP.set], fun j hj hj' => ?_⟩
  simp only [List.get_eq_getElem, MumuChanP.set, List.getElem_set]
  by_cases hij : i = j
  · subst hij
    rw [List.getElem?_eq_getElem hj] at hfound
    cases hfound
    rw [if_pos rfl]
    exact ⟨fun w hw _ => by rw [hw], fun hnone => absurd hhas (by rw [hnone v rfl]; decide)⟩
  · rw [if_neg hij]
    have hother : hasService v.serviceId chanP.channels[j] = false := by
      rw [← Bool.not_eq_true]
      intro hhas'
      exact hij (hfollowed.sole i j (serviceIds_getElem? hfound hhas)
        (serviceIds_getElem? (List.getElem?_eq_getElem hj) hhas'))
    refine ⟨fun w hw hhas' => ?_, fun _ => rfl⟩
    rw [hw, hother] at hhas'
    cases hhas'

/-- A service that no channel has changes nothing. -/
theorem allDescribed_unknown (h : lastIndex (hasService v.serviceId) chanP.channels = none) :
    AllDescribed convert (fun w => w = v) chanP chanP := by
  refine List.forall₂_same.mpr fun chan hchan => ⟨fun w hw hhas => ?_, fun _ => rfl⟩
  rw [hw, lastIndex_eq_none.mp h chan hchan] at hhas
  cases hhas

variable {read : Nat → Checked UInt8} {delta lenFull : Nat}

theorem SdtService.length_bytes (v : SdtService) :
    v.bytes.length = sdtDescrLen + v.descriptors.flatten.length := by
  rw [SdtService.bytes, List.length_append, v.headLength]

/-- The entry of a service is read into its channel. -/
theorem updateService_ok (convert : List UInt8 → List UInt8) (h : ReadsAt read delta v.bytes)
    (hshort : v.Short) (chan : AutoChannel) :
    updateService read convert delta v.descriptors.flatten.length v.freeCaMode chan =
      .ok (v.describe convert chan) := by
  have hdescriptors := h.right
  rw [v.headLength] at hdescriptors
  exact parseSdtDescriptor_ok v.isDescriptor hshort hdescriptors (Nat.le_refl _) _

/-- One service goes into its channel, if there is one. -/
theorem service_described {v : SdtService} (convert : List UInt8 → List UInt8)
    (h : ReadsAt read delta v.bytes) (hfollowed : Followed (serviceIds chanP) v) :
    ∃ chanP₁, (match lastIndex (hasService v.serviceId) chanP.channels with
      | some i => chanP.modify i (updateService read convert delta v.descriptors.flatten.length
          v.freeCaMode)
      | none => .ok chanP) = .ok chanP₁ ∧ AllDescribed convert (fun w => w = v) chanP chanP₁ := by
  cases hlast : lastIndex (hasService v.serviceId) chanP.channels with
  | none => exact ⟨chanP, rfl, allDescribed_unknown hlast⟩
  | some i =>
    obtain ⟨chan, hfound, hhas⟩ := lastIndex_some hlast
    have hknown : (v.serviceId : Int) ∈ serviceIds chanP :=
      List.mem_of_getElem? (serviceIds_getElem? hfound hhas)
    have hupdate := updateService_ok convert h (hfollowed.short hknown) chan
    refine ⟨_, ?_, allDescribed_set hfollowed hfound hhas⟩
    dsimp only
    rw [MumuChanP.modify, hfound]
    dsimp only
    rw [hupdate]
    rfl

/-- The services of a section are read one after the other. -/
theorem sdtLoop_ok {vs : List SdtService} (hunique : Unique (· ∈ vs))
    (hfollowed : ∀ v ∈ vs, Followed (serviceIds chanP) v) {fuel : Nat}
    (h : ReadsAt read delta (vs.map SdtService.bytes).flatten)
    (hlen : lenFull = delta + (vs.map SdtService.bytes).flatten.length + 4)
    (hfuel : (vs.map SdtService.bytes).flatten.length ≤ fuel) :
    ∃ chanP', sdtLoop read convert lenFull (fuel + 1) delta chanP = .ok chanP' ∧
      AllDescribed convert (· ∈ vs) chanP chanP' := by
  induction vs generalizing delta fuel chanP with
  | nil =>
    refine ⟨chanP, ?_, allDescribed_none.congr fun v => by simp⟩
    rw [sdtLoop, if_neg (by rw [hlen, sdtDescrLen]; simp)]
  | cons v vs ih =>
    rw [List.forall_mem_cons] at hfollowed
    rw [List.map_cons, List.flatten_cons] at h hlen hfuel
    have hbytes := v.length_bytes
    have hfive : v.head.length = 5 := v.headLength
    rw [sdtDescrLen] at hbytes
    rw [List.length_append] at hlen hfuel
    obtain ⟨fuel, rfl⟩ : ∃ fuel', fuel = fuel' + 1 := ⟨fuel - 1, by omega⟩
    have hhead := h.left.left
    have hid := hhead.wide (show 0 + 1 < v.head.length by omega)
    rw [Nat.add_zero] at hid
    have hloop := hhead.hilo 16 (show 3 + 1 < v.head.length by omega)
    rw [v.loopLength] at hloop
    have hnext : delta + (v.descriptors.flatten.length + sdtDescrLen) = delta + v.bytes.length := by
      rw [hbytes, sdtDescrLen]
      omega
    obtain ⟨chanP₁, hchanP₁, hfirst⟩ := service_described convert h.left hfollowed.1
    have hrest : ∀ v ∈ vs, Followed (serviceIds chanP₁) v := by
      rw [hfirst.serviceIds]
      exact hfollowed.2
    obtain ⟨chanP', hread, hdescribed⟩ := ih
      (fun v w hv hw => hunique v w (List.mem_cons_of_mem _ hv) (List.mem_cons_of_mem _ hw)) hrest
      h.right (by omega) (show (vs.map SdtService.bytes).flatten.length ≤ fuel by omega)
    refine ⟨chanP', ?_, ?_⟩
    · rw [sdtLoop, if_pos (by rw [sdtDescrLen]; omega), hid, bind_ok,
        hhead 3 (by omega), bind_ok, hloop, bind_ok]
      rw [hnext]
      exact bind_eq_ok.mpr ⟨chanP₁, hchanP₁, hread⟩
    · refine (hfirst.trans ?_ hdescribed).congr fun w => List.mem_cons.symm
      intro w w' hw hw'
      exact hunique w w' (List.mem_cons.mpr hw) (List.mem_cons.mpr hw')

end services

section arrivals

variable {env : Surroundings} {table : SdtTable}

theorem SdtSection.length_bytes (t : SdtSection) :
    t.bytes.length = sdtLen + (t.services.map SdtService.bytes).flatten.length + 4 := by
  simp only [SdtSection.bytes, List.length_append, t.headerLength, t.crcLength]
  omega

theorem Arrival.byteAt (a : Arrival table) {i : Nat} (hi : i < 8) :
    byteAt a.pkt.dataFull.cells i = TsHeader.byteAt a.sdt.header i := by
  obtain ⟨rest, hrest⟩ := a.holds
  have hheader := a.sdt.headerLength
  rw [sdtLen] at hheader
  rw [← hrest, SdtSection.bytes, List.append_assoc, byteAt_append_left (by omega)]

theorem Arrival.reads (henv : ReadsInside env) (a : Arrival table) :
    ReadsAt (env.byte a.pkt) 0 a.sdt.bytes := by
  intro i hi
  have hsize : a.sdt.bytes.length ≤ maxTsSize := a.sdt.size ▸ a.sdt.atMost
  obtain ⟨rest, hrest⟩ := a.holds
  rw [Nat.zero_add, henv _ _ (Nat.lt_of_lt_of_le hi hsize), ← hrest, byteAt_append_left hi]

theorem Arrival.numbers (a : Arrival table) :
    tableId a.pkt.dataFull.cells = 0x42 ∧ versionNumber a.pkt.dataFull.cells = table.version ∧
      sectionNumber a.pkt.dataFull.cells = a.index ∧
      lastSectionNumber a.pkt.dataFull.cells + 1 = table.sections.length ∧
      a.index < table.sections.length := by
  obtain ⟨hversion, hnumber, hlast⟩ := table.numbered a.index a.sdt a.found
  have hindex := (List.getElem?_eq_some_iff.mp a.found).1
  have htable := a.sdt.isSdt
  simp only [tableId, versionNumber, sectionNumber, lastSectionNumber] at *
  rw [a.byteAt (show 0 < 8 by decide), a.byteAt (show 5 < 8 by decide),
    a.byteAt (show 6 < 8 by decide), a.byteAt (show 7 < 8 by decide)]
  exact ⟨htable, hversion, hnumber, by omega, hindex⟩

/-- The services of the sections that have been read. -/
def seenServices (table : SdtTable) (seen : List Nat) (v : SdtService) : Prop :=
  ∃ i ∈ seen, ∃ t, table.sections[i]? = some t ∧ v ∈ t.services

theorem unique_services (table : SdtTable) :
    Unique (· ∈ table.sections.flatMap SdtSection.services) :=
  fun _ _ hv hw => List.inj_on_of_nodup_map table.once hv hw

theorem mem_services {i : Nat} {t : SdtSection} (h : table.sections[i]? = some t) {v : SdtService}
    (hv : v ∈ t.services) : v ∈ table.sections.flatMap SdtSection.services :=
  List.mem_flatMap.mpr ⟨t, List.mem_of_getElem? h, hv⟩

/-- Some sections of the version have been noted. -/
structure Progress (table : SdtTable) (seen : List Nat) (t : Tracker) : Prop where
  version : t.version = table.version
  seenTable : SeenTable seen t.sectionsSeen.cells
  complete : t.allSectionsSeen = true ↔ ∀ i < table.sections.length, i ∈ seen

/-- Where the reading of the version stands. -/
structure Stands (env : Surroundings) (table : SdtTable) (chanP : MumuChanP) (seen : List Nat)
    (s : AutoP × MumuChanP) : Prop where
  tracker : seen = [] ∧ s.1.sdt.version ≠ table.version ∨ seen ≠ [] ∧ Progress table seen s.1.sdt
  described : AllDescribed env.convertEn300468String (seenServices table seen) chanP s.2

/-- A section is skipped exactly when it has been read. -/
theorem Stands.skips_iff {chanP : MumuChanP} {seen : List Nat} {s : AutoP × MumuChanP}
    (h : Stands env table chanP seen s) (a : Arrival table) :
    s.1.sdt.Skips a.pkt.dataFull.cells ↔ a.index ∈ seen := by
  obtain ⟨-, hversion, hnumber, -, hindex⟩ := a.numbers
  have hmost := table.atMost
  rw [Tracker.Skips, hversion, hnumber]
  rcases h.tracker with ⟨rfl, hother⟩ | ⟨-, hprogress⟩
  · exact ⟨fun hskips => absurd hskips.1.symm hother, fun hmem => by cases hmem⟩
  · rw [hprogress.seenTable a.index (by omega), Option.some.injEq, decide_eq_true_iff]
    exact ⟨And.right, fun hmem => ⟨hprogress.version.symm, hmem⟩⟩

/-- A section that has not been read is noted. -/
theorem Stands.store {chanP : MumuChanP} {seen : List Nat} {s : AutoP × MumuChanP}
    (h : Stands env table chanP seen s) (a : Arrival table) (hnew : a.index ∉ seen) :
    ∃ t, (Tracker.renew { s.1.sdt with temp := a.pkt } a.pkt.dataFull.cells).store
        a.pkt.dataFull.cells = .ok t ∧ t.version = table.version ∧
      SeenTable (a.index :: seen) t.sectionsSeen.cells ∧ t.allSectionsSeen = false := by
  obtain ⟨-, hversion, hnumber, -, hindex⟩ := a.numbers
  have hmost := table.atMost
  have hset : ∀ cells : Buffer Bool 256, SeenTable seen cells.cells →
      ∃ cells', cells.write (sectionNumber a.pkt.dataFull.cells) [true] = .ok cells' ∧
        SeenTable (a.index :: seen) cells'.cells := by
    intro cells hcells
    obtain ⟨cells', hwrite, hsplice⟩ := cells.write_ok (sectionNumber a.pkt.dataFull.cells) [true]
      (by rw [hnumber, List.length_singleton]; omega)
    refine ⟨cells', hwrite, ?_⟩
    rw [hsplice, hnumber]
    exact hcells.set cells.length_cells (by omega)
  rw [Tracker.renew]
  rcases h.tracker with ⟨rfl, hother⟩ | ⟨-, hprogress⟩
  · obtain ⟨cells', hwrite, hcells⟩ := hset (Buffer.fill _ false) seenTable_fill
    rw [if_neg (by rw [hversion]; exact Ne.symm hother), Tracker.store, hwrite]
    exact ⟨_, rfl, congrArg Nat.cast hversion, hcells, rfl⟩
  · obtain ⟨cells', hwrite, hcells⟩ := hset s.1.sdt.sectionsSeen hprogress.seenTable
    rw [if_pos (by rw [hversion]; exact hprogress.version.symm), Tracker.store, hwrite]
    refine ⟨_, rfl, hprogress.version, hcells, ?_⟩
    rw [← Bool.not_eq_true]
    exact fun hall => hnew (hprogress.complete.mp hall a.index hindex)

/-- The services of a section that arrives are read into the channels. -/
theorem Arrival.sdtLoop_ok (henv : ReadsInside env) (a : Arrival table) (chanP : MumuChanP)
    (hfollowed : ∀ v ∈ a.sdt.services, Followed (serviceIds chanP) v) :
    ∃ chanP', sdtLoop (env.byte a.pkt) env.convertEn300468String a.pkt.lenFull (a.pkt.lenFull + 1)
        sdtLen chanP = .ok chanP' ∧
      AllDescribed env.convertEn300468String (· ∈ a.sdt.services) chanP chanP' := by
  have hlength := a.sdt.length_bytes
  have hlen := a.lenFull
  have hservices := (a.reads henv).right.left
  rw [Nat.zero_add, a.sdt.headerLength] at hservices
  exact SdtReading.sdtLoop_ok
    (fun v w hv hw => unique_services table v w (mem_services a.found hv) (mem_services a.found hw))
    hfollowed hservices (hlen.trans hlength) (by omega)

theorem seenServices_cons (a : Arrival table) (seen : List Nat) (v : SdtService) :
    seenServices table seen v ∨ v ∈ a.sdt.services ↔ seenServices table (a.index :: seen) v := by
  constructor
  · rintro (⟨i, hi, t, ht, hv⟩ | hv)
    · exact ⟨i, List.mem_cons_of_mem _ hi, t, ht, hv⟩
    · exact ⟨a.index, List.mem_cons_self, a.sdt, a.found, hv⟩
  · rintro ⟨i, hi, t, ht, hv⟩
    rcases List.mem_cons.mp hi with rfl | hi
    · cases a.found.symm.trans ht
      exact .inr hv
    · exact .inl ⟨i, hi, t, ht, hv⟩

/-- A section that arrives is read, unless it has been. -/
theorem Stands.read (henv : ReadsInside env) {chanP : MumuChanP} {seen : List Nat}
    {s : AutoP × MumuChanP} (h : Stands env table chanP seen s) (a : Arrival table)
    (hfollowed : ∀ v ∈ a.sdt.services, Followed (serviceIds chanP) v) :
    ∃ s', readArrival env s a = .ok s' ∧
      Stands env table chanP (if a.index ∈ seen then seen else a.index :: seen) s' := by
  obtain ⟨htable, hversion, hnumber, hlast, hindex⟩ := a.numbers
  have hmost := table.atMost
  have hskips : Tracker.Skips { s.1.sdt with temp := a.pkt } a.pkt.dataFull.cells ↔
      a.index ∈ seen := h.skips_iff a
  rw [readArrival, autoconfReadSdt]
  dsimp only
  rw [if_neg (by rw [htable]; decide), Tracker.alreadySeen_eq, bind_ok]
  by_cases hold : a.index ∈ seen
  · rw [if_pos (decide_eq_true (hskips.mpr hold)), if_pos hold]
    refine ⟨_, rfl, ?_, h.described⟩
    rcases h.tracker with ⟨rfl, -⟩ | ⟨hne, hprogress⟩
    · cases hold
    · exact .inr ⟨hne, hprogress.version, hprogress.seenTable, hprogress.complete⟩
  · obtain ⟨t, hstore, htversion, hseen, hall⟩ := h.store a hold
    have hsame := h.described.serviceIds
    obtain ⟨chanP', hloop, hdescribed⟩ := a.sdtLoop_ok henv s.2 (by rwa [hsame])
    have hheader := (a.reads henv).left
    have heleven : a.sdt.header.length = 11 := a.sdt.headerLength
    have hnetwork := hheader.wide (show 8 + 1 < a.sdt.header.length by omega)
    rw [Nat.zero_add] at hnetwork
    have hunique : Unique fun v => seenServices table seen v ∨ v ∈ a.sdt.services := by
      intro v w hv hw
      refine unique_services table v w ?_ ?_
      · rcases hv with ⟨i, -, t, ht, hv⟩ | hv
        · exact mem_services ht hv
        · exact mem_services a.found hv
      · rcases hw with ⟨i, -, t, ht, hw⟩ | hw
        · exact mem_services ht hw
        · exact mem_services a.found hw
    have hboth := (h.described.trans hunique hdescribed).congr (seenServices_cons a seen)
    have hmissing := hseen.none_missing t.sectionsSeen.length_cells hmost
    rw [if_neg (by rw [decide_eq_true_iff]; exact hskips.not.mpr hold), if_neg hold, hstore,
      bind_ok, hnetwork, bind_ok, hloop, bind_ok, Tracker.sectionsMissing, hlast]
    split
    case isTrue hsome =>
      refine ⟨_, rfl, .inr ⟨List.cons_ne_nil _ _, htversion, hseen, ?_⟩, hboth⟩
      exact ⟨fun hflag => absurd (hall.symm.trans hflag) Bool.false_ne_true,
        fun hevery => absurd (hmissing.mpr hevery) hsome⟩
    case isFalse hnone =>
      refine ⟨_, rfl, .inr ⟨List.cons_ne_nil _ _, htversion, hseen, ?_⟩, hboth⟩
      exact ⟨fun _ => hmissing.mp (Decidable.not_not.mp hnone), fun _ => rfl⟩

theorem Stands.readAll (henv : ReadsInside env) {chanP : MumuChanP} {seen : List Nat}
    {s : AutoP × MumuChanP} (h : Stands env table chanP seen s) {arrivals : List (Arrival table)}
    (hfollowed : ∀ a ∈ arrivals, ∀ v ∈ a.sdt.services, Followed (serviceIds chanP) v) :
    ∃ s' seen', readArrivals env s arrivals = .ok s' ∧ Stands env table chanP seen' s' ∧
      ∀ i, i ∈ seen' ↔ i ∈ seen ∨ ∃ a ∈ arrivals, a.index = i := by
  induction arrivals generalizing s seen with
  | nil => exact ⟨s, seen, rfl, h, fun i => by simp⟩
  | cons a arrivals ih =>
    rw [List.forall_mem_cons] at hfollowed
    obtain ⟨s₁, hread, hstands⟩ := h.read henv a hfollowed.1
    obtain ⟨s', seen', hrest, hstands', hseen⟩ := ih hstands hfollowed.2
    refine ⟨s', seen', ?_, hstands', fun i => ?_⟩
    · rw [readArrivals, List.foldlM_cons, hread]
      exact hrest
    · rw [hseen, List.exists_mem_cons_iff]
      split
      case isTrue hold =>
        constructor
        · exact fun hi => hi.imp_right .inr
        · rintro (hi | rfl | hi)
          · exact .inl hi
          · exact .inl hold
          · exact .inr hi
      case isFalse =>
        rw [List.mem_cons, @eq_comm _ i a.index, or_comm (a := a.index = i), or_assoc]

/-- However the sections arrive, while no known service has two channels or a descriptor of 254 or
255 bytes: the version is complete once all its sections have come, and then the channels are
described by all its services. -/
theorem sdt_described (henv : ReadsInside env) (table : SdtTable) (before : Before table)
    (arrivals : List (Arrival table))
    (hfollowed : ∀ a ∈ arrivals, ∀ v ∈ a.sdt.services, Followed (serviceIds before.chanP) v) :
    ∃ s, readArrivals env (before.autoP, before.chanP) arrivals = .ok s ∧
      (Completed table s.1 ↔
        ∀ i < table.sections.length, ∃ a ∈ arrivals, a.index = i) ∧
      (Completed table s.1 →
        AllDescribed env.convertEn300468String (· ∈ table.sections.flatMap SdtSection.services)
          before.chanP s.2) := by
  have hstart : Stands env table before.chanP [] (before.autoP, before.chanP) :=
    ⟨.inl ⟨rfl, before.other⟩, allDescribed_none.congr fun v =>
      ⟨False.elim, fun ⟨_, hi, _⟩ => absurd hi List.not_mem_nil⟩⟩
  obtain ⟨s, seen, hread, hstands, hseen⟩ := hstart.readAll henv hfollowed
  simp only [List.not_mem_nil, false_or] at hseen
  have hcomplete : Completed table s.1 ↔ ∀ i < table.sections.length, i ∈ seen := by
    rcases hstands.tracker with ⟨rfl, hother⟩ | ⟨-, hprogress⟩
    · refine ⟨fun hdone => absurd hdone.1 hother, fun hall => ?_⟩
      exact absurd (hall 0 (List.length_pos_iff.mpr table.nonempty)) List.not_mem_nil
    · exact ⟨fun hdone => hprogress.complete.mp hdone.2,
        fun hall => ⟨hprogress.version, hprogress.complete.mpr hall⟩⟩
  refine ⟨s, hread, ?_, fun hdone => hstands.described.congr fun v => ?_⟩
  · rw [hcomplete]
    exact forall₂_congr fun i _ => hseen i
  · constructor
    · rintro ⟨i, -, t, ht, hv⟩
      exact mem_services ht hv
    · intro hv
      obtain ⟨t, ht, hv⟩ := List.mem_flatMap.mp hv
      obtain ⟨i, hi⟩ := List.mem_iff_getElem?.mp ht
      exact ⟨i, hcomplete.mp hdone i (List.getElem?_eq_some_iff.mp hi).1, t, hi, hv⟩

end arrivals

/-- The service type 1 and the name "AB". -/
def serviceAb : List UInt8 := [0x48, 0x05, 0x01, 0x00, 0x02, 0x41, 0x42]

theorem serviceAb_isSdtDescriptor : IsSdtDescriptor serviceAb := ⟨rfl, fun _ => by decide⟩

theorem longDescriptor_isSdtDescriptor : IsSdtDescriptor longDescriptor :=
  ⟨congrArg (· + 2) List.length_replicate, fun htag => absurd htag (by decide)⟩

def shortService : SdtService where
  head := [0x00, 0x01, 0xfc, 0x90, 0x07]
  descriptors := [serviceAb]
  headLength := rfl
  loopLength := rfl
  isDescriptor := List.forall_mem_singleton.mpr serviceAb_isSdtDescriptor

theorem late_loopLength : [longDescriptor, serviceAb].flatten.length = 263 := by
  rw [List.flatten_cons, List.length_append, longDescriptor_isSdtDescriptor.length]
  rfl

/-- The service descriptor comes behind a long one. -/
def lateService : SdtService where
  head := [0x00, 0x01, 0xfc, 0x91, 0x07]
  descriptors := [longDescriptor, serviceAb]
  headLength := rfl
  loopLength := late_loopLength.symm
  isDescriptor := List.forall_mem_cons.mpr ⟨longDescriptor_isSdtDescriptor,
    List.forall_mem_singleton.mpr serviceAb_isSdtDescriptor⟩

def shortHeader : List UInt8 :=
  [0x42, 0xf0, 0x18, 0x00, 0x01, 0xc1, 0x00, 0x00, 0x00, 0x01, 0xff]

def shortSdt : SdtSection where
  header := shortHeader
  services := [shortService]
  crc := [0x8e, 0x69, 0x43, 0xf3]
  headerLength := rfl
  crcLength := rfl
  isSdt := rfl
  current := by decide
  size := rfl
  atMost := by decide
  crcValid := by decide +kernel

theorem lateServices_length : ([lateService].map SdtService.bytes).flatten.length = 268 := by
  rw [List.map_singleton, List.flatten_singleton, SdtService.length_bytes,
    show lateService.descriptors.flatten.length = 263 from late_loopLength]

theorem lateSdt_size (header crc : List UInt8) :
    (header ++ (([lateService].map SdtService.bytes).flatten ++ crc)).length =
      header.length + (268 + crc.length) := by
  rw [List.length_append, List.length_append, lateServices_length]

def lateSdt : SdtSection where
  header := [0x42, 0xf1, 0x18, 0x00, 0x01, 0xc1, 0x00, 0x00, 0x00, 0x01, 0xff]
  services := [lateService]
  crc := [0xee, 0x16, 0xf1, 0xb2]
  headerLength := rfl
  crcLength := rfl
  isSdt := rfl
  current := by decide
  size := lateSdt_size _ _
  atMost := by decide
  crcValid := by decide +kernel

theorem oneSection_numbered {t : SdtSection} (h : versionNumber t.header = 0 ∧
    sectionNumber t.header = 0 ∧ lastSectionNumber t.header = 0) (i : Nat) (t' : SdtSection)
    (hfound : [t][i]? = some t') : versionNumber t'.header = 0 ∧ sectionNumber t'.header = i ∧
      lastSectionNumber t'.header = [t].length - 1 := by
  obtain ⟨rfl, rfl⟩ : i = 0 ∧ t = t' := by
    rw [List.getElem?_singleton] at hfound
    split at hfound
    · exact ⟨‹_›, Option.some.inj hfound⟩
    · cases hfound
  exact h

theorem oneSection_atMost (t : SdtSection) : [t].length ≤ 256 := by
  rw [List.length_singleton]
  decide

/-- A version of one section. -/
def tableOf (t : SdtSection) (h : versionNumber t.header = 0 ∧ sectionNumber t.header = 0 ∧
    lastSectionNumber t.header = 0) (once : (([t].flatMap SdtSection.services).map
      SdtService.serviceId).Nodup) : SdtTable where
  version := 0
  sections := [t]
  nonempty := List.cons_ne_nil _ _
  atMost := oneSection_atMost t
  numbered := oneSection_numbered h
  once := once

def shortTable : SdtTable := tableOf shortSdt (by decide) (List.nodup_singleton _)

def lateTable : SdtTable := tableOf lateSdt (by decide) (List.nodup_singleton _)

/-- Its section comes. -/
def arrive (table : SdtTable) (t : SdtSection) (found : table.sections[0]? = some t) :
    Arrival table where
  index := 0
  sdt := t
  found := found
  pkt := CatCollection.handedOut t.bytes (t.size ▸ t.atMost)
  lenFull := rfl
  holds := List.prefix_append _ _

/-- Two channels of the service 1. -/
def serviceTwice : MumuChanP :=
  ⟨serviceOne.channels ++ serviceOne.channels, by decide⟩

def startOf (table : SdtTable) (chanP : MumuChanP) (other : (-1 : Int) ≠ table.version) :
    Before table := ⟨TableReads.started, chanP, other⟩

theorem shortService_followed : ∀ a ∈ [arrive shortTable shortSdt rfl], ∀ v ∈ a.sdt.services,
    Followed (serviceIds (startOf shortTable serviceOne (by decide)).chanP) v := by
  intro a ha v hv
  cases List.mem_singleton.mp ha
  cases List.mem_singleton.mp hv
  refine ⟨fun i j hi hj => ?_, fun _ d hd => ?_⟩
  · have hlt := (List.getElem?_eq_some_iff.mp hi).1
    have hlt' := (List.getElem?_eq_some_iff.mp hj).1
    exact (Nat.lt_one_iff.mp hlt).trans (Nat.lt_one_iff.mp hlt').symm
  · cases List.mem_singleton.mp hd
    decide

theorem sdt_described_short : ∃ s, readArrivals TableReads.plain (TableReads.started, serviceOne)
      [arrive shortTable shortSdt rfl] = .ok s ∧
    (Completed shortTable s.1 ↔ ∀ i < shortTable.sections.length,
      ∃ a ∈ [arrive shortTable shortSdt rfl], a.index = i) ∧
    (Completed shortTable s.1 → AllDescribed id
      (· ∈ shortTable.sections.flatMap SdtSection.services) serviceOne s.2) :=
  sdt_described plain_readsInside shortTable (startOf shortTable serviceOne (by decide)) _
    shortService_followed

/-- Where all channels have one service, they all get its name. -/
theorem AllDescribed.names {convert : List UInt8 → List UInt8} {services : SdtService → Prop}
    {chanP chanP' : MumuChanP} (h : AllDescribed convert services chanP chanP') {v : SdtService}
    (hv : services v) (hall : ∀ chan ∈ chanP.channels, hasService v.serviceId chan = true) :
    chanP'.channels.map AutoChannel.serviceName =
      chanP.channels.map fun chan => (v.describe convert chan).serviceName := by
  have heach : ∀ {xs ys : List AutoChannel}, List.Forall₂ (Described convert services) xs ys →
      (∀ chan ∈ xs, hasService v.serviceId chan = true) →
      ys.map AutoChannel.serviceName =
        xs.map fun chan => (v.describe convert chan).serviceName := by
    intro xs ys hxs
    induction hxs with
    | nil => exact fun _ => rfl
    | @cons chan chan' xs ys hchan _ ih =>
      intro hall
      rw [List.forall_mem_cons] at hall
      rw [List.map_cons, List.map_cons, ih hall.2, hchan.listed v hv hall.1]
  exact heach h hall

/-- What is seen of the tracker and the channels. -/
def view (s : AutoP × MumuChanP) : (Int × Bool) × List (List UInt8) :=
  ((s.1.sdt.version, s.1.sdt.allSectionsSeen), s.2.channels.map AutoChannel.serviceName)

/-- The name behind a descriptor of 254 bytes is not read, and of two channels with the service
only the last has the name. -/
theorem sdt_undescribed :
    (∃ s, readArrivals TableReads.plain (TableReads.started, serviceOne)
        [arrive lateTable lateSdt rfl] = .ok s ∧ Completed lateTable s.1 ∧
      ¬ AllDescribed id (· ∈ lateTable.sections.flatMap SdtSection.services) serviceOne s.2) ∧
    ∃ s, readArrivals TableReads.plain (TableReads.started, serviceTwice)
        [arrive shortTable shortSdt rfl] = .ok s ∧ Completed shortTable s.1 ∧
      ¬ AllDescribed id (· ∈ shortTable.sections.flatMap SdtSection.services) serviceTwice s.2 := by
  constructor
  · have hview : (readArrivals TableReads.plain (TableReads.started, serviceOne)
        [arrive lateTable lateSdt rfl]).map view = .ok ((0, true), [[]]) := by
      decide +kernel
    obtain ⟨s, hread, hview⟩ := map_eq_ok hview
    rw [view, Prod.mk.injEq, Prod.mk.injEq] at hview
    refine ⟨s, hread, hview.1, fun hdescribed => ?_⟩
    have hnames := hdescribed.names (v := lateService) List.mem_cons_self (by decide +kernel)
    rw [hview.2] at hnames
    exact absurd hnames (by decide +kernel)
  · have hview : (readArrivals TableReads.plain (TableReads.started, serviceTwice)
        [arrive shortTable shortSdt rfl]).map view =
          .ok ((0, true), [[], [0x41, 0x42]]) := by decide +kernel
    obtain ⟨s, hread, hview⟩ := map_eq_ok hview
    rw [view, Prod.mk.injEq, Prod.mk.injEq] at hview
    refine ⟨s, hread, hview.1, fun hdescribed => ?_⟩
    have hnames := hdescribed.names (v := shortService) List.mem_cons_self (by decide +kernel)
    rw [hview.2] at hnames
    exact absurd hnames (by decide +kernel)

end MuMuDVB.SdtReading
