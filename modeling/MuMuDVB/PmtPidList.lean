import MuMuDVB.PidLists
import MuMuDVB.PmtReads
import MuMuDVB.RewriteSection

/-!
# The PIDs that a PMT gives a channel

A well-formed PMT is a list of descriptors and a list of streams with theirs.
The PIDs of a channel follow from it: those of the conditional access, those of
the streams that are kept, and the PCR unless it is one of them. The reader
looks for the PCR among as many PIDs as the channel had before.
-/
namespace MuMuDVB.PmtPidList

open CheckedMemory FilledArray MuMuDVB.TsHeader MuMuDVB.Ts MuMuDVB.TsAssembler
open MuMuDVB.Autoconf MuMuDVB.AutoconfPmt MuMuDVB.PmtReads MuMuDVB.PidLists
open MuMuDVB.AutoconfCat (CaSystem maxCaSystems)
open MuMuDVB.RewriteSection (byteAt_append_right)

/-- A descriptor is a tag, a length and as many bytes; one of conditional access has a PID. -/
structure IsPmtDescriptor (d : List UInt8) : Prop where
  length : d.length = (byteAt d 1).toNat + 2
  ca : byteAt d 0 = 0x09 → 6 ≤ d.length

structure PmtStream where
  head : List UInt8
  descriptors : List (List UInt8)
  headLength : head.length = 5
  infoLength : esInfoLength (byteAt head) 0 = descriptors.flatten.length
  isDescriptor : ∀ d ∈ descriptors, IsPmtDescriptor d

def PmtStream.bytes (v : PmtStream) : List UInt8 := v.head ++ v.descriptors.flatten

def PmtStream.pid (v : PmtStream) : Int := elementaryPid (byteAt v.head) 0

def hasTag (tag : UInt8) (ds : List (List UInt8)) : Bool := ds.any fun d => byteAt d 0 = tag

/-- Of private sections only those for applications, of private data what one of the known
descriptors says, of the other types those for video and audio. -/
def PmtStream.isKept (v : PmtStream) : Bool :=
  if byteAt v.head 0 = 0x05 then hasTag 0x6f v.descriptors
  else if byteAt v.head 0 = 0x06 then
    [0x45, 0x46, 0x56, 0x59, 0x6a, 0x7a, 0x7b, 0x7c].any fun tag => hasTag tag v.descriptors
  else (streamPidType (byteAt v.head 0)).isSome

/-- A well-formed PMT section. -/
structure PmtTable where
  header : List UInt8
  descriptors : List (List UInt8)
  streams : List PmtStream
  crc : List UInt8
  headerLength : header.length = 12
  crcLength : crc.length = 4
  isPmt : tableId header = 0x02
  infoLength : programInfoLength (byteAt header) = descriptors.flatten.length
  isDescriptor : ∀ d ∈ descriptors, IsPmtDescriptor d
  size : (header ++
    (descriptors.flatten ++ ((streams.map PmtStream.bytes).flatten ++ crc))).length =
      sectionSize header
  atMost : sectionSize header ≤ 4096
  crcValid : crc32 (header ++
    (descriptors.flatten ++ ((streams.map PmtStream.bytes).flatten ++ crc))) = 0

def PmtTable.bytes (t : PmtTable) : List UInt8 :=
  t.header ++ (t.descriptors.flatten ++ ((t.streams.map PmtStream.bytes).flatten ++ t.crc))

/-- The CA system and the PID in a descriptor of conditional access. -/
def caFields (d : List UInt8) : Nat × Nat := (caType (byteAt d) 0, caPid (byteAt d) 0)

/-- The descriptors of conditional access, of the program and of the streams. -/
def PmtTable.caDescriptors (t : PmtTable) : List (Nat × Nat) :=
  ((t.descriptors ++ t.streams.flatMap PmtStream.descriptors).filter
    fun d => byteAt d 0 = 0x09).map caFields

/-- The ECM PID of a descriptor and the EMM PID of its system, if that is known and not yet
there. -/
def caPidStep (list : Buffer CaSystem maxCaSystems) (pids : List Int) (ca : Nat × Nat) : List Int :=
  let pids := pids ++ [(ca.2 : Int)]
  match autoconfGetCaSystem list ca.1 with
  | some caSystem => if caSystem.emmPid ∈ pids then pids else pids ++ [caSystem.emmPid]
  | none => pids

def PmtTable.pids (t : PmtTable) (list : Buffer CaSystem maxCaSystems) : List Int :=
  t.caDescriptors.foldl (caPidStep list) [] ++
    (t.streams.filter PmtStream.isKept).map PmtStream.pid

def PmtTable.pcr (t : PmtTable) : Int := pcrPid (byteAt t.header)

/-- The PIDs that a channel is to have behind its PMT PID. -/
def PmtTable.expected (t : PmtTable) (list : Buffer CaSystem maxCaSystems) : List Int :=
  t.pids list ++ if t.pcr ∈ t.pids list then [] else [t.pcr]

/-- The section is the one in `data_full`. -/
structure StoredTable (t : PmtTable) (pmt : Pmt) : Prop where
  lenFull : pmt.pkt.lenFull = t.bytes.length
  stored : t.bytes <+: pmt.pkt.dataFull.cells

/-- The search for the PCR goes as far as it has to: if the channel had fewer PIDs, the PCR is not
only behind as many; if it had more, the PCR is not by chance in the array behind those of the
PMT. -/
structure LooksRight (t : PmtTable) (list : Buffer CaSystem maxCaSystems) (before : List PidEntry)
    (numPids : Nat) : Prop where
  shorter : numPids < (t.pids list).length → t.pcr ∈ t.pids list →
    t.pcr ∈ (t.pids list).take numPids
  longer : (t.pids list).length < numPids → t.pcr ∉ t.pids list →
    t.pcr ∉ ((before.drop (t.pids list).length).take
      (numPids - (t.pids list).length)).map PidEntry.pid

section lies

/-- The bytes `xs` are in the memory from `a` on. -/
def LiesAt (byte : Nat → UInt8) (a : Nat) (xs : List UInt8) : Prop :=
  ∀ i < xs.length, byte (a + i) = byteAt xs i

variable {byte : Nat → UInt8} {a : Nat} {xs ys : List UInt8}

theorem LiesAt.left (h : LiesAt byte a (xs ++ ys)) : LiesAt byte a xs := by
  intro i hi
  rw [h i (by rw [List.length_append]; omega), byteAt_append_left hi]

theorem LiesAt.right (h : LiesAt byte a (xs ++ ys)) : LiesAt byte (a + xs.length) ys := by
  intro i hi
  rw [Nat.add_assoc, h _ (by rw [List.length_append]; omega), byteAt_append_right]

theorem descriptorsFrom_lie {ds : List (List UInt8)} (hds : ∀ d ∈ ds, IsPmtDescriptor d)
    {fuel buf : Nat} (hfuel : ds.flatten.length ≤ fuel) (h : LiesAt byte buf ds.flatten) :
    List.Forall₂ (LiesAt byte) (descriptorsFrom byte (buf + ds.flatten.length) fuel buf) ds := by
  induction ds generalizing fuel buf with
  | nil =>
    have hnil : descriptorsFrom byte (buf + 0) fuel buf = [] := by
      cases fuel with
      | zero => rfl
      | succ fuel => rw [descriptorsFrom, if_neg (by omega)]
    rw [List.flatten_nil, List.length_nil, hnil]
    exact .nil
  | cons d ds ih =>
    have hd := (hds d List.mem_cons_self).length
    rw [List.flatten_cons] at h hfuel ⊢
    rw [List.length_append] at hfuel ⊢
    obtain ⟨fuel, rfl⟩ : ∃ fuel', fuel = fuel' + 1 := ⟨fuel - 1, by omega⟩
    have hlen : (byte (buf + 1)).toNat + 2 = d.length := by
      rw [h.left 1 (by omega), hd]
    rw [descriptorsFrom, if_pos (by omega), hlen, ← Nat.add_assoc]
    exact .cons h.left (ih (fun e he => hds e (List.mem_cons_of_mem _ he)) (by omega) h.right)

/-- The descriptors of a loop lie where the walk over it comes to. -/
theorem descriptors_lie {ds : List (List UInt8)} (hds : ∀ d ∈ ds, IsPmtDescriptor d) {buf : Nat}
    (h : LiesAt byte buf ds.flatten) :
    List.Forall₂ (LiesAt byte) (descriptors byte buf ds.flatten.length) ds :=
  descriptorsFrom_lie hds (Nat.le_refl _) h

end lies

section descriptors

variable {byte : Nat → UInt8} {as : List Nat} {ds : List (List UInt8)}

theorem IsPmtDescriptor.two_le {d : List UInt8} (h : IsPmtDescriptor d) : 2 ≤ d.length := by
  rw [h.length]
  omega

/-- A descriptor that lies in memory has its tag there, and its CA fields. -/
theorem tag_lies {a : Nat} {d : List UInt8} (hd : IsPmtDescriptor d) (h : LiesAt byte a d) :
    byte a = byteAt d 0 :=
  h 0 (by have := hd.two_le; omega)

theorem caFields_lie {a : Nat} {d : List UInt8} (hd : IsPmtDescriptor d) (h : LiesAt byte a d)
    (hca : byteAt d 0 = 0x09) : (caType byte a, caPid byte a) = caFields d := by
  have hlen := hd.ca hca
  rw [caFields, caType, caType, caPid, caPid, h 2 (by omega), h 3 (by omega), h 4 (by omega),
    h 5 (by omega)]

/-- The CA descriptors that a walk comes to. -/
theorem filter_lies (hds : ∀ d ∈ ds, IsPmtDescriptor d)
    (h : List.Forall₂ (LiesAt byte) as ds) :
    (as.filter fun a => byte a = 0x09).map (fun a => (caType byte a, caPid byte a)) =
      (ds.filter fun d => byteAt d 0 = 0x09).map caFields := by
  induction h with
  | nil => rfl
  | @cons a d as ds hlies _ ih =>
    have hd := hds d List.mem_cons_self
    have hrest := ih fun e he => hds e (List.mem_cons_of_mem _ he)
    have htag := tag_lies hd hlies
    by_cases hca : byteAt d 0 = 0x09
    · rw [List.filter_cons_of_pos (by simp [htag, hca]), List.filter_cons_of_pos (by simp [hca]),
        List.map_cons, List.map_cons, hrest, caFields_lie hd hlies hca]
    · rw [List.filter_cons_of_neg (by simp [htag, hca]), List.filter_cons_of_neg (by simp [hca]),
        hrest]

theorem find?_lies (hds : ∀ d ∈ ds, IsPmtDescriptor d) (h : List.Forall₂ (LiesAt byte) as ds)
    (tag : UInt8) : (as.find? fun a => byte a = tag).isSome = hasTag tag ds := by
  induction h with
  | nil => rfl
  | @cons a d as ds hlies _ ih =>
    have hrest := ih fun e he => hds e (List.mem_cons_of_mem _ he)
    have htag := tag_lies (hds d List.mem_cons_self) hlies
    rw [hasTag, List.any_cons, ← htag]
    by_cases hfound : byte a = tag
    · rw [List.find?_cons_of_pos (by simp [hfound])]
      simp [hfound]
    · rw [List.find?_cons_of_neg (by simp [hfound]), hrest, hasTag]
      simp [hfound]

end descriptors

section stream

variable {byte : Nat → UInt8} {i : Nat} {v : PmtStream}

theorem head_lies (h : LiesAt byte i v.bytes) {k : Nat} (hk : k < 5) :
    byte (i + k) = byteAt v.head k :=
  h.left k (by rw [v.headLength]; exact hk)

theorem esInfoLength_lies (h : LiesAt byte i v.bytes) :
    esInfoLength byte i = v.descriptors.flatten.length := by
  rw [← v.infoLength, esInfoLength, esInfoLength, head_lies h (by decide), head_lies h (by decide)]

theorem elementaryPid_lies (h : LiesAt byte i v.bytes) : (elementaryPid byte i : Int) = v.pid := by
  rw [PmtStream.pid, elementaryPid, elementaryPid, head_lies h (by decide),
    head_lies h (by decide)]

theorem streamType_lies (h : LiesAt byte i v.bytes) : streamType byte i = byteAt v.head 0 :=
  head_lies h (show 0 < 5 by decide)

theorem streamDescriptors_lie (h : LiesAt byte i v.bytes) :
    List.Forall₂ (LiesAt byte) (streamDescriptors byte i) v.descriptors := by
  have hright := h.right
  rw [v.headLength] at hright
  rw [streamDescriptors, esInfoLength_lies h]
  exact descriptors_lie v.isDescriptor hright

theorem findInStream_lies (h : LiesAt byte i v.bytes) (tag : UInt8) :
    (findInStream byte tag i).isSome = hasTag tag v.descriptors := by
  rw [findInStream_eq, Option.isSome_map, firstInStream,
    find?_lies v.isDescriptor (streamDescriptors_lie h)]

/-- A loop with a descriptor in it is not empty. -/
theorem infoLength_ne_zero (h : LiesAt byte i v.bytes) {tag : UInt8}
    (htag : hasTag tag v.descriptors = true) : esInfoLength byte i ≠ 0 := by
  obtain ⟨d, hd, -⟩ := List.any_eq_true.mp htag
  have hlen := (v.isDescriptor d hd).two_le
  have hle := (List.sublist_flatten_of_mem hd).length_le
  rw [esInfoLength_lies h]
  omega

/-- The streams that the reader keeps. -/
theorem pidType_lies (h : LiesAt byte i v.bytes) : (pidType byte i).isSome = v.isKept := by
  rw [pidType, PmtStream.isKept, streamType_lies h]
  by_cases h5 : byteAt v.head 0 = 0x05
  · rw [if_pos h5, if_pos h5, findInStream_lies h]
    cases htag : hasTag 0x6f v.descriptors with
    | true => rw [if_pos ⟨infoLength_ne_zero h htag, rfl⟩]; rfl
    | false => rw [if_neg (by simp)]; rfl
  · rw [if_neg h5, if_neg h5]
    by_cases h6 : byteAt v.head 0 = 0x06
    · rw [if_pos h6, if_pos h6]
      have hany : (privateTypes.find? fun p => (findInStream byte p.1 i).isSome).isSome =
          (privateTypes.map Prod.fst).any fun tag => hasTag tag v.descriptors := by
        rw [List.isSome_find?, List.any_map]
        simp only [findInStream_lies h, Function.comp_def]
      by_cases hlen : esInfoLength byte i ≠ 0
      · rw [if_pos hlen, Option.isSome_map, hany]
        rfl
      · rw [if_neg hlen, Option.isSome_none, eq_comm, List.any_eq_false]
        exact fun tag _ htag => hlen (infoLength_ne_zero h htag)
    · rw [if_neg h6, if_neg h6]

end stream

section table

variable {byte : Nat → UInt8} {t : PmtTable} {list : Buffer CaSystem maxCaSystems}

theorem caPidStep_lies (entries : List PidEntry) (pos : Nat) :
    (caStep list byte entries pos).map PidEntry.pid =
      caPidStep list (entries.map PidEntry.pid) (caType byte pos, caPid byte pos) := by
  rw [caStep, caPidStep]
  dsimp only
  rw [List.map_append, List.map_singleton]
  cases autoconfGetCaSystem list (caType byte pos) with
  | none => rw [List.map_append, List.map_singleton]
  | some caSystem =>
    dsimp only
    split
    · rw [List.map_append, List.map_singleton]
    · rw [List.map_append, List.map_append, List.map_singleton, List.map_singleton]

theorem streamsFrom_lie {vs : List PmtStream} {crc : List UInt8} (hcrc : crc.length = 4)
    {fuel i n : Nat} (hn : n = i + ((vs.map PmtStream.bytes).flatten ++ crc).length)
    (hfuel : n ≤ i + fuel)
    (h : LiesAt byte i ((vs.map PmtStream.bytes).flatten ++ crc)) :
    List.Forall₂ (fun i v => LiesAt byte i (PmtStream.bytes v)) (streamsFrom byte n fuel i) vs := by
  induction vs generalizing fuel i with
  | nil =>
    have hnil : streamsFrom byte n fuel i = [] := by
      cases fuel with
      | zero => rfl
      | succ fuel =>
        rw [List.map_nil, List.flatten_nil, List.nil_append, hcrc] at hn
        rw [streamsFrom, if_neg (by simp only [pmtInfoLen]; omega)]
    rw [hnil]
    exact .nil
  | cons v vs ih =>
    rw [List.map_cons, List.flatten_cons, List.append_assoc] at h hn
    have hbytes : v.bytes.length = 5 + v.descriptors.flatten.length := by
      rw [PmtStream.bytes, List.length_append, v.headLength]
    have htotal := hn
    rw [List.length_append, List.length_append, hcrc] at htotal
    obtain ⟨fuel, rfl⟩ : ∃ fuel', fuel = fuel' + 1 := ⟨fuel - 1, by omega⟩
    rw [streamsFrom, if_pos (by simp only [pmtInfoLen]; omega), esInfoLength_lies h.left,
      show i + (v.descriptors.flatten.length + pmtInfoLen) = i + v.bytes.length by
        rw [hbytes, pmtInfoLen, Nat.add_comm 5]]
    refine .cons h.left (ih ?_ (by omega) h.right)
    rw [hn, List.length_append, Nat.add_assoc]

theorem PmtTable.length_bytes (t : PmtTable) : t.bytes.length = 12 + (t.descriptors.flatten.length +
    ((t.streams.map PmtStream.bytes).flatten ++ t.crc).length) := by
  rw [PmtTable.bytes, List.length_append, List.length_append, t.headerLength]

variable (h : LiesAt byte 0 t.bytes)

include h

theorem header_lies {k : Nat} (hk : k < 12) : byte k = byteAt t.header k := by
  have hleft := h.left k (by rw [t.headerLength]; exact hk)
  rwa [Nat.zero_add] at hleft

theorem programInfoLength_lies : programInfoLength byte = t.descriptors.flatten.length := by
  rw [← t.infoLength, programInfoLength, programInfoLength, header_lies h (by decide),
    header_lies h (by decide)]

theorem pcrPid_lies : (pcrPid byte : Int) = t.pcr := by
  rw [PmtTable.pcr, pcrPid, pcrPid, header_lies h (by decide), header_lies h (by decide)]

theorem streams_lie :
    List.Forall₂ (fun i v => LiesAt byte i (PmtStream.bytes v)) (streams byte t.bytes.length)
      t.streams := by
  have hright := h.right
  rw [t.headerLength, Nat.zero_add] at hright
  have hstreams := hright.right
  have hstart : programInfoLength byte + pmtLen = 12 + t.descriptors.flatten.length := by
    rw [programInfoLength_lies h, Nat.add_comm]
  rw [streams, hstart]
  refine streamsFrom_lie t.crcLength ?_ (by omega) hstreams
  rw [t.length_bytes, Nat.add_assoc]

/-- `pos_ca_descr` has the CA descriptors of the table. -/
theorem posCaDescr_lies :
    (posCaDescr byte t.bytes.length).map (fun a => (caType byte a, caPid byte a)) =
      t.caDescriptors := by
  have hright := h.right
  rw [t.headerLength, Nat.zero_add] at hright
  have hprogram := descriptors_lie t.isDescriptor hright.left
  have hstreams : ∀ {is : List Nat} {vs : List PmtStream},
      List.Forall₂ (fun i v => LiesAt byte i (PmtStream.bytes v)) is vs →
        List.Forall₂ (LiesAt byte) (is.flatMap (streamDescriptors byte))
          (vs.flatMap PmtStream.descriptors) := by
    intro is vs hall
    induction hall with
    | nil => exact .nil
    | cons hlies _ ih =>
      rw [List.flatMap_cons, List.flatMap_cons]
      exact List.rel_append (streamDescriptors_lie hlies) ih
  have hds : ∀ d ∈ t.descriptors ++ t.streams.flatMap PmtStream.descriptors, IsPmtDescriptor d := by
    intro d hd
    rcases List.mem_append.mp hd with hd | hd
    · exact t.isDescriptor d hd
    · obtain ⟨v, -, hd⟩ := List.mem_flatMap.mp hd
      exact v.isDescriptor d hd
  rw [posCaDescr_eq, allDescriptors, programInfoLength_lies h, PmtTable.caDescriptors]
  exact filter_lies hds (List.rel_append hprogram (hstreams (streams_lie h)))

end table

section read

variable {t : PmtTable} {pmt : Pmt} {list : Buffer CaSystem maxCaSystems}
  {stack : Buffer PidEntry maxPids} {chan : AutoChannel}

theorem StoredTable.lies (h : StoredTable t pmt) : LiesAt pmt.byte 0 t.bytes := by
  intro i hi
  have hsize : t.bytes.length ≤ 4096 := t.size ▸ t.atMost
  obtain ⟨rest, hrest⟩ := h.stored
  rw [Nat.zero_add, pmt.inside i (by simp only [maxTsSize]; omega), ← hrest, byteAt_append_left hi]

/-- The PIDs that the reader collects are those of the table. -/
theorem entries_pids (h : StoredTable t pmt) :
    (pmt.entries list).map PidEntry.pid = t.pids list := by
  have hca : ∀ (positions : List Nat) (xs : List PidEntry),
      (positions.foldl (caStep list pmt.byte) xs).map PidEntry.pid =
        (positions.map fun a => (caType pmt.byte a, caPid pmt.byte a)).foldl (caPidStep list)
          (xs.map PidEntry.pid) := by
    intro positions
    induction positions with
    | nil => exact fun xs => rfl
    | cons pos positions ih =>
      intro xs
      rw [List.foldl_cons, ih, caPidStep_lies, List.map_cons, List.foldl_cons]
  have hstreams : ∀ {is : List Nat} {vs : List PmtStream},
      List.Forall₂ (fun i v => LiesAt pmt.byte i (PmtStream.bytes v)) is vs →
        (is.filterMap (keptStream pmt.byte)).map PidEntry.pid =
          (vs.filter PmtStream.isKept).map PmtStream.pid := by
    intro is vs hall
    induction hall with
    | nil => rfl
    | @cons i v is vs hlies _ ih =>
      have hkept := pidType_lies hlies
      rw [List.filterMap_cons, keptStream]
      cases htype : pidType pmt.byte i with
      | none =>
        rw [htype] at hkept
        rw [List.filter_cons_of_neg (by simp [← hkept])]
        exact ih
      | some type =>
        rw [htype] at hkept
        rw [List.filter_cons_of_pos (by simp [← hkept]), Option.map_some, List.map_cons,
          List.map_cons, ih, elementaryPid_lies hlies]
  rw [Pmt.entries, List.map_append, Pmt.caEntries, Pmt.streamEntries, h.lenFull, hca,
    posCaDescr_lies h.lies, hstreams (streams_lie h.lies)]
  rfl

/-- The places that the search for the PCR looks at. -/
theorem pcrSeen_iff (h : StoredTable t pmt) (hfit : (t.pids list).length < maxPids)
    (numPids : Nat) : pmt.PcrSeen list stack numPids ↔
      t.pcr ∈ (t.pids list ++
        ((pmt.before stack).drop (t.pids list).length).map PidEntry.pid).take numPids := by
  have hlength : (pmt.entries list).length = (t.pids list).length := by
    rw [← entries_pids h, List.length_map]
  rw [Pmt.PcrSeen, pcrPid_lies h.lies, settled, if_pos (by rw [hlength]; exact hfit),
    List.map_take, List.map_append, entries_pids h, hlength]

/-- Where the PIDs fit, the search for the PCR goes right if and only if it finds one that is among
the PIDs of the table. -/
theorem looksRight_iff (h : StoredTable t pmt) (hfit : (t.pids list).length < maxPids)
    (numPids : Nat) : LooksRight t list (pmt.before stack) numPids ↔
      (pmt.PcrSeen list stack numPids ↔ t.pcr ∈ t.pids list) := by
  rw [pcrSeen_iff h hfit]
  by_cases hlt : numPids < (t.pids list).length
  · rw [List.take_append_of_le_length (Nat.le_of_lt hlt)]
    constructor
    · exact fun hright => ⟨List.mem_of_mem_take, hright.shorter hlt⟩
    · exact fun hiff => ⟨fun _ => hiff.mpr, fun hgt => absurd hlt (Nat.lt_asymm hgt)⟩
  · rw [List.take_append, List.take_of_length_le (by omega), List.mem_append, ← List.map_take]
    constructor
    · intro hright
      refine ⟨fun hseen => hseen.elim id fun hstack => ?_, Or.inl⟩
      by_contra hother
      rcases Nat.eq_or_lt_of_le (Nat.le_of_not_lt hlt) with heq | hgt
      · rw [heq, Nat.sub_self, List.take_zero] at hstack
        cases hstack
      · exact hright.longer hgt hother hstack
    · exact fun hiff => ⟨fun hlt' => absurd hlt' hlt,
        fun _ hother hstack => hother (hiff.mp (.inr hstack))⟩

theorem autoconfReadPmt_true (hown : ¬ pmt.IsForeign chan) {r : Bool × AutoChannel}
    (h : autoconfReadPmt list pmt stack chan = .ok r) : r.1 = true := by
  rw [autoconfReadPmt, if_neg hown] at h
  obtain ⟨temp, -, h⟩ := bind_eq_ok.mp h
  dsimp only at h
  split at h
  · obtain ⟨entries, -, h⟩ := bind_eq_ok.mp h
    cases h
    rfl
  · cases h
    rfl

/-- After a well-formed PMT of a channel whose PIDs are not of the user, the PIDs behind the first
one are those of the table and then the PCR, unless it is one of them, exactly when the search for
the PCR goes right. -/
theorem pidList_iff (h : StoredTable t pmt) (hnum : chan.pidI.numPids ≤ maxPids)
    (hown : ¬ pmt.IsForeign chan) (hfree : chan.pidI.pidF ≠ .user)
    (hroom : (t.expected list).length + 1 ≤ maxPids) :
    (∃ chan', autoconfReadPmt list pmt stack chan = .ok (true, chan') ∧
      chan'.pidI.pids.drop 1 = t.expected list) ↔
      LooksRight t list (pmt.before stack) chan.pidI.numPids := by
  have hpids : (t.pids list).length + 1 ≤ maxPids := by
    rw [PmtTable.expected, List.length_append] at hroom
    omega
  have hlength : (pmt.entries list).length = (t.pids list).length := by
    rw [← entries_pids h, List.length_map]
  have hcollected : (pmt.collected list stack chan.pidI.numPids).map PidEntry.pid =
      t.pids list ++ if pmt.PcrSeen list stack chan.pidI.numPids then [] else [t.pcr] := by
    rw [Pmt.collected, List.take_of_length_le (by rw [hlength]; omega), List.map_append,
      entries_pids h]
    split
    · rfl
    · rw [List.map_singleton, pcrEntry, pcrPid_lies h.lies]
  have hresult : ∀ chan', autoconfReadPmt list pmt stack chan = .ok (true, chan') →
      chan'.pidI.pids.drop 1 =
        t.pids list ++ if pmt.PcrSeen list stack chan.pidI.numPids then [] else [t.pcr] := by
    intro chan' hread
    have hone : (chan.pidI.entries.cells.take 1).length = 1 := by
      rw [List.length_take, Buffer.length_cells]
      rfl
    rw [(autoconfReadPmt_ok hown hread).pids, if_neg hfree, ← List.map_drop,
      List.drop_left' hone, hcollected]
  rw [looksRight_iff h hpids]
  constructor
  · rintro ⟨chan', hread, hexpected⟩
    rw [hresult chan' hread, PmtTable.expected, List.append_cancel_left_eq] at hexpected
    split at hexpected
    case isTrue hseen =>
      split at hexpected
      case isTrue hmem => exact iff_of_true hseen hmem
      case isFalse => cases hexpected
    case isFalse hseen =>
      split at hexpected
      case isTrue => cases hexpected
      case isFalse hmem => exact iff_of_false hseen hmem
  · intro hiff
    have hfits : pmt.Fits list stack chan := by
      have hca : (pmt.caEntries list).length ≤ (pmt.entries list).length := by
        rw [Pmt.entries, List.length_append]
        omega
      refine .inl ⟨by omega, .inr ?_⟩
      by_cases hmem : t.pcr ∈ t.pids list
      · exact .inr (hiff.mpr hmem)
      · rw [PmtTable.expected, if_neg hmem, List.length_append, List.length_singleton] at hroom
        exact .inl (by omega)
    obtain ⟨⟨read, chan'⟩, hread⟩ := (autoconfReadPmt_iff hnum hown).mpr hfits
    obtain rfl : read = true := autoconfReadPmt_true hown hread
    refine ⟨chan', hread, ?_⟩
    rw [hresult chan' hread, PmtTable.expected, List.append_cancel_left_eq]
    simp only [hiff]

end read

theorem plainHead_infoLength (type pidLo : UInt8) :
    esInfoLength (byteAt [type, 0xe2, pidLo, 0xf0, 0x00]) 0 = 0 := by
  simp [esInfoLength, byteAt, hilo]

/-- A stream of a type without descriptors. -/
def plainStream (type pidLo : UInt8) : PmtStream where
  head := [type, 0xe2, pidLo, 0xf0, 0x00]
  descriptors := []
  headLength := rfl
  infoLength := plainHead_infoLength type pidLo
  isDescriptor := List.forall_mem_nil _

/-- A video stream with the PCR. -/
def videoTable : PmtTable where
  header := [0x02, 0xb0, 0x12, 0x00, 0x01, 0xc1, 0x00, 0x00, 0xe2, 0x00, 0xf0, 0x00]
  descriptors := []
  streams := [plainStream 0x02 0x00]
  crc := [0xec, 0x3c, 0x72, 0xa2]
  headerLength := rfl
  crcLength := rfl
  isPmt := rfl
  infoLength := rfl
  isDescriptor := List.forall_mem_nil _
  size := rfl
  atMost := by decide
  crcValid := by decide +kernel

/-- An audio stream, and behind it a video stream with the PCR. -/
def audioFirst : PmtTable where
  header := [0x02, 0xb0, 0x17, 0x00, 0x01, 0xc1, 0x00, 0x00, 0xe2, 0x01, 0xf0, 0x00]
  descriptors := []
  streams := [plainStream 0x03 0x00, plainStream 0x02 0x01]
  crc := [0x6d, 0xdc, 0x90, 0x8a]
  headerLength := rfl
  crcLength := rfl
  isPmt := rfl
  infoLength := rfl
  isDescriptor := List.forall_mem_nil _
  size := rfl
  atMost := by decide
  crcValid := by decide +kernel

theorem firstBytes_stored {s : List UInt8} (h : s.length ≤ 4096) :
    s <+: (firstBytes (byteAt s)).cells := by
  rw [List.prefix_iff_eq_take]
  refine List.ext_getElem? fun i => ?_
  by_cases hi : i < s.length
  · rw [List.getElem?_take_of_lt hi, firstBytes, List.getElem?_map,
      List.getElem?_range (by simp only [maxTsSize]; omega), Option.map_some, byteAt,
      List.getD_eq_getElem?_getD, List.getElem?_eq_getElem hi, Option.getD_some]
  · rw [List.getElem?_eq_none (by omega),
      List.getElem?_eq_none (by rw [List.length_take]; omega)]

/-- The PMT that has the section of a table. -/
def PmtTable.received (t : PmtTable) : Pmt :=
  pmtOf (byteAt t.bytes) t.bytes.length (by
    obtain ⟨rest, hrest⟩ := firstBytes_stored (show t.bytes.length ≤ 4096 from t.size ▸ t.atMost)
    rw [← hrest, List.take_left]
    exact .inr t.crcValid)

theorem PmtTable.storedTable (t : PmtTable) : StoredTable t t.received :=
  ⟨rfl, firstBytes_stored (t.size ▸ t.atMost)⟩

/-- A channel that has its PMT PID only. -/
def pmtPidOnly : AutoChannel :=
  { unusedChannel with
    http := { unusedChannel.http with serviceId := 1 }
    pidI := { unusedChannel.pidI with
      entries := Buffer.fill _ ⟨0x100, .pmt, [0x2d, 0x2d, 0x2d]⟩
      numPids := 1 } }

theorem pidList_video :
    (∃ chan', autoconfReadPmt noSystems videoTable.received zeros pmtPidOnly = .ok (true, chan') ∧
      chan'.pidI.pids.drop 1 = videoTable.expected noSystems) ↔
      LooksRight videoTable noSystems (videoTable.received.before zeros) pmtPidOnly.pidI.numPids :=
  pidList_iff videoTable.storedTable (by decide) (by decide) (by decide) (by decide)

/-- The PCR is the second PID, and only the first one is looked at. -/
theorem pidList_audioFirst :
    (autoconfReadPmt noSystems audioFirst.received zeros pmtPidOnly).map
        (fun r => (r.1, r.2.pidI.pids)) = .ok (true, [0x100, 0x200, 0x201, 0x201]) ∧
      audioFirst.expected noSystems = [0x200, 0x201] := by
  decide +kernel

end MuMuDVB.PmtPidList
