import MuMuDVB.SdtReading
import MuMuDVB.ServiceNames

/-!
# The names of a virtual channel

A channel of a VCT has a short name, and it may have a long one in an extended
channel name descriptor. `autoconf_parse_vct_channel` looks for it in the loop over
the descriptors, and it is in this loop that the short name is chosen when there is
no other. What a descriptor says is decoded behind what the one before it has left,
but its end is counted from the start of the array.
-/
namespace MuMuDVB.VctNames

open CheckedMemory CString MuMuDVB.TsHeader MuMuDVB.Ts MuMuDVB.AutoconfTables
open MuMuDVB.NitNumbers MuMuDVB.SdtReading
open MuMuDVB.ServiceNames (Conversion maxNameLen)

@[simp] abbrev multipleStringStructureHeader : Nat := 5
@[simp] abbrev shortNameLen : Nat := 14

/-- What is outside: the conversion that `iconv_open` gives from UTF-16BE to UTF8, whether
`atsc_text_validate` finds no error, and for `atsc_text_segment_decode` what it writes of the
text of a segment into the room that is left, and whether it returns how much that is or -1. -/
structure AtscText where
  iconvOpen : Option Conversion
  validate : List UInt8 → Bool
  decode : List UInt8 → Nat → List UInt8 × Bool
  fits : ∀ segment room, (decode segment room).1.length ≤ room

/-- What `channel_name` points to. -/
inductive NameSource where
  | long | short
  deriving DecidableEq, Repr

/-- The long name as far as it has been read. -/
structure Naming where
  longName : Buffer UInt8 maxNameLen
  destbufpos : Nat
  channelName : Option NameSource

def Naming.start : Naming := ⟨Buffer.fill _ 0, 0, none⟩

/-- "Take the short name if error" -/
def Naming.orShort (naming : Naming) : Naming :=
  { naming with channelName := naming.channelName.or (some .short) }

@[simp] theorem start_destbufpos : Naming.start.destbufpos = 0 := rfl

@[simp] theorem orShort_longName (naming : Naming) : naming.orShort.longName = naming.longName :=
  rfl

@[simp] theorem orShort_destbufpos (naming : Naming) :
    naming.orShort.destbufpos = naming.destbufpos := rfl

section names

variable (text : AtscText)

/-- The conversion of the short name, which may fail. -/
def convertShortName (unconverted : List UInt8) : List UInt8 :=
  match text.iconvOpen with
  | some cd => cd.written unconverted shortNameLen
  | none => []

/-- `utf8_short_name`, over what stood there before. -/
def utf8ShortName (stack : Buffer UInt8 (shortNameLen + 1)) (unconverted : List UInt8) :
    Checked (Buffer UInt8 (shortNameLen + 1)) :=
  stack.write 0 (convertShortName text unconverted ++ [0])

/-- What the decoder makes of a segment when some of the array has been used. -/
def decodedAt (destbufpos : Nat) (segment : List UInt8) : List UInt8 × Bool :=
  text.decode segment (maxNameLen - destbufpos)

/-- A text segment is decoded for the long name. -/
def decodeLongName (naming : Naming) (segment : List UInt8) : Checked Naming := do
  let decoded := decodedAt text naming.destbufpos segment
  let longName ← naming.longName.write naming.destbufpos decoded.1
  let destbufpos := naming.destbufpos + decoded.1.length
  if decoded.2 = true then do
    -- `dest8` is the start of the array
    let longName ← longName.write decoded.1.length [0]
    return ⟨longName, destbufpos, some .long⟩
  else return ⟨longName, destbufpos, naming.channelName⟩

/-- The loop over the descriptors; the report of several strings is left out. -/
def descriptorLoop (dataFull : Buffer UInt8 maxTsSize) (fuel buf remaining : Nat)
    (naming : Naming) : Checked Naming :=
  match fuel with
  | 0 => .error .endless
  | fuel + 1 =>
    if 0 < remaining then do
      let descriptorLen ← dataFull.read (buf + 1)
      let descriptorTag ← dataFull.read buf
      let naming ← (if descriptorTag = 0xa0 then do
          let strings ← readBytes dataFull.read (buf + 2) descriptorLen.toNat
          if text.validate strings = true then
            decodeLongName text naming
              (dataFull.cells.drop (buf + 2 + multipleStringStructureHeader))
          else .ok naming
        else .ok naming)
      descriptorLoop dataFull fuel (buf + (descriptorLen.toNat + 2))
        (remaining - (descriptorLen.toNat + 2)) naming.orShort
    else .ok naming

/-- The string that `channel_name` points to. -/
def channelName (short : Buffer UInt8 (shortNameLen + 1)) (naming : Naming) :
    Checked (List UInt8) :=
  match naming.channelName with
  | some .long => cstring naming.longName.cells
  | some .short => cstring short.cells
  -- a null pointer
  | none => .error .outOfBounds

/-- The copy to `service_name`, with its terminator. -/
def storeServiceName (name : List UInt8) : Checked (List UInt8) := do
  let cells ← (Buffer.fill maxNameLen 0).write 0 (name ++ [0])
  cstring cells.cells

/-- A descriptor is a tag, a length and as many bytes. -/
def IsDescriptor (d : List UInt8) : Prop := d.length = (byteAt d 1).toNat + 2

/-- The segments that are handed to the decoder, each with what stands behind it. -/
def handed (behind : List UInt8) : List (List UInt8) → List (List UInt8)
  | [] => []
  | d :: ds =>
    if byteAt d 0 = 0xa0 ∧ text.validate (d.drop 2) = true then
      (d ++ (ds.flatten ++ behind)).drop (2 + multipleStringStructureHeader) :: handed behind ds
    else handed behind ds

/-- The text of a segment, if it can be decoded. -/
def longName (segment : List UInt8) : Option (List UInt8) :=
  if (decodedAt text 0 segment).2 = true then some (decodedAt text 0 segment).1 else none

/-- The long name if there is one that can be decoded, the short name otherwise. -/
def nameOf (unconverted : List UInt8) (segments : List (List UInt8)) : List UInt8 :=
  (((segments.filterMap (longName text)).getLast?).getD
    (convertShortName text unconverted)).takeWhile fun c => c ≠ 0

/-- Each text that is decoded leaves room for its end. -/
def LeavesRoom : List (List UInt8) → Prop :=
  Throughout
    (fun destbufpos segment => (decodedAt text destbufpos segment).2 = true →
      (decodedAt text destbufpos segment).1.length < maxNameLen)
    (fun destbufpos segment => destbufpos + (decodedAt text destbufpos segment).1.length) 0

end names

section walk

variable {text : AtscText} {naming naming' : Naming} {segment : List UInt8}
  {dataFull : Buffer UInt8 maxTsSize} {a : Nat} {behind : List UInt8} {ds : List (List UInt8)}

theorem orShort_orShort (naming : Naming) : naming.orShort.orShort = naming.orShort := by
  rw [Naming.orShort, Naming.orShort]
  cases naming.channelName <;> rfl

/-- What is decoded does not depend on the name that has been chosen. -/
theorem decodeLongName_orShort (naming : Naming) (segment : List UInt8) :
    decodeLongName text naming.orShort segment =
      Naming.orShort <$> decodeLongName text naming segment := by
  rw [decodeLongName, decodeLongName]
  simp only [orShort_longName, orShort_destbufpos, map_bind]
  refine bind_congr fun longName => ?_
  by_cases hok : (decodedAt text naming.destbufpos segment).2 = true
  · simp only [hok, ↓reduceIte, map_bind]
    rfl
  · simp only [hok, Bool.false_eq_true, ↓reduceIte]
    rfl

theorem foldlM_orShort (segments : List (List UInt8)) (naming : Naming) :
    segments.foldlM (decodeLongName text) naming.orShort =
      Naming.orShort <$> segments.foldlM (decodeLongName text) naming := by
  induction segments generalizing naming with
  | nil => rfl
  | cons segment segments ih =>
    rw [List.foldlM_cons, List.foldlM_cons, decodeLongName_orShort, map_bind, bind_map_left]
    exact bind_congr fun naming => ih naming

/-- The loop decodes the segments one after the other, and where it turns at all it leaves a
name. -/
theorem descriptorLoop_eq (text : AtscText) (hds : ∀ d ∈ ds, IsDescriptor d)
    (h : dataFull.cells.drop a = ds.flatten ++ behind) {fuel : Nat}
    (hfuel : ds.flatten.length ≤ fuel) (naming : Naming) :
    descriptorLoop text dataFull (fuel + 1) a ds.flatten.length naming =
      (if ds = [] then id else Naming.orShort) <$>
        (handed text behind ds).foldlM (decodeLongName text) naming := by
  induction ds generalizing a fuel naming with
  | nil => rfl
  | cons d ds ih =>
    rw [List.forall_mem_cons] at hds
    have hlen : d.length = (byteAt d 1).toNat + 2 := hds.1
    rw [List.flatten_cons] at h hfuel ⊢
    rw [List.append_assoc] at h
    rw [List.length_append] at hfuel ⊢
    obtain ⟨fuel, rfl⟩ : ∃ fuel', fuel = fuel' + 1 := ⟨fuel - 1, by omega⟩
    have hreads := reads_of_drop h
    have hbehind : dataFull.cells.drop (a + d.length) = ds.flatten ++ behind := by
      rw [← List.drop_drop, h, List.drop_left]
    have hnext (naming : Naming) : descriptorLoop text dataFull (fuel + 1) (a + d.length)
        ds.flatten.length naming.orShort =
          Naming.orShort <$> (handed text behind ds).foldlM (decodeLongName text) naming := by
      rw [ih hds.2 hbehind (show ds.flatten.length ≤ fuel by omega), foldlM_orShort]
      split
      · exact id_map _
      · rw [← comp_map]
        simp only [Function.comp_def, orShort_orShort]
    have hstrings := readBytes_ok hreads (show 2 + (byteAt d 1).toNat ≤ d.length by omega)
    rw [List.take_of_length_le (by rw [List.length_drop]; omega)] at hstrings
    have htag : dataFull.read a = .ok (byteAt d 0) := hreads 0 (by omega)
    have hsegment : dataFull.cells.drop (a + 2 + multipleStringStructureHeader) =
        (d ++ (ds.flatten ++ behind)).drop (2 + multipleStringStructureHeader) := by
      rw [← h, List.drop_drop, Nat.add_assoc]
    rw [descriptorLoop, if_pos (by omega), hreads 1 (by omega), bind_ok, htag, bind_ok,
      if_neg (List.cons_ne_nil _ _), handed, hsegment, hstrings, bind_ok, ← hlen,
      Nat.add_sub_cancel_left]
    simp only [hnext]
    by_cases htagged : byteAt d 0 = 0xa0
    · by_cases hvalid : text.validate (d.drop 2) = true
      · rw [if_pos htagged, if_pos hvalid, if_pos ⟨htagged, hvalid⟩, List.foldlM_cons, map_bind]
      · rw [if_pos htagged, if_neg hvalid, if_neg fun hboth => hvalid hboth.2, bind_ok]
    · rw [if_neg htagged, if_neg fun hboth => htagged hboth.1, bind_ok]

/-- The decoding of a segment fails, or it succeeds and the text must leave room for its end. -/
theorem decodeLongName_cases (text : AtscText) (naming : Naming) (segment : List UInt8)
    (hpos : naming.destbufpos ≤ maxNameLen) :
    ∃ longName : Buffer UInt8 maxNameLen,
      longName.cells = splice naming.longName.cells naming.destbufpos
        (decodedAt text naming.destbufpos segment).1 ∧
      (((decodedAt text naming.destbufpos segment).2 = false ∧
          decodeLongName text naming segment = .ok ⟨longName,
            naming.destbufpos + (decodedAt text naming.destbufpos segment).1.length,
            naming.channelName⟩) ∨
        ((decodedAt text naming.destbufpos segment).2 = true ∧
          decodeLongName text naming segment =
            (longName.write (decodedAt text naming.destbufpos segment).1.length [0]).map
              fun ended => ⟨ended,
                naming.destbufpos + (decodedAt text naming.destbufpos segment).1.length,
                some .long⟩)) := by
  have hfits : (decodedAt text naming.destbufpos segment).1.length ≤
      maxNameLen - naming.destbufpos := text.fits _ _
  obtain ⟨longName, hwrite, hcells⟩ := naming.longName.write_ok naming.destbufpos
    (decodedAt text naming.destbufpos segment).1 (by omega)
  refine ⟨longName, hcells, ?_⟩
  rw [decodeLongName]
  dsimp only
  rw [hwrite, bind_ok]
  cases hok : (decodedAt text naming.destbufpos segment).2 with
  | false => exact .inl ⟨rfl, by rw [if_neg Bool.false_ne_true]; rfl⟩
  | true => exact .inr ⟨rfl, by rw [if_pos rfl]; rfl⟩

theorem decodeLongName_ok_iff (hpos : naming.destbufpos ≤ maxNameLen) :
    (∃ naming', decodeLongName text naming segment = .ok naming') ↔
      ((decodedAt text naming.destbufpos segment).2 = true →
        (decodedAt text naming.destbufpos segment).1.length < maxNameLen) := by
  obtain ⟨longName, -, ⟨hfails, heq⟩ | ⟨hok, heq⟩⟩ := decodeLongName_cases text naming segment hpos
  · exact iff_of_true ⟨_, heq⟩ fun hok => absurd (hfails.symm.trans hok) Bool.false_ne_true
  · rw [heq, forall_prop_of_true hok]
    constructor
    · rintro ⟨naming', h⟩
      obtain ⟨ended, hended, -⟩ := map_eq_ok h
      exact (longName.write_ok_iff _ [0]).mp ⟨ended, hended⟩
    · intro hroom
      obtain ⟨ended, hended⟩ := (longName.write_ok_iff _ [0]).mpr hroom
      exact ⟨_, by rw [hended]; rfl⟩

theorem decodeLongName_destbufpos (hpos : naming.destbufpos ≤ maxNameLen)
    (h : decodeLongName text naming segment = .ok naming') : naming'.destbufpos =
      naming.destbufpos + (decodedAt text naming.destbufpos segment).1.length := by
  obtain ⟨longName, -, ⟨-, heq⟩ | ⟨-, heq⟩⟩ := decodeLongName_cases text naming segment hpos
  · rw [heq] at h
    cases h
    rfl
  · rw [heq] at h
    obtain ⟨ended, -, rfl⟩ := map_eq_ok h
    rfl

/-- The descriptors are decoded inside the array exactly while each text leaves room. -/
theorem walk_ok_iff (text : AtscText) (segments : List (List UInt8)) :
    (∃ naming, segments.foldlM (decodeLongName text) Naming.start = .ok naming) ↔
      LeavesRoom text segments := by
  refine foldlM_ok_iff (fun naming => naming.destbufpos ≤ maxNameLen) Naming.destbufpos
    (fun naming hpos segment _ => decodeLongName_ok_iff hpos)
    (fun naming hpos segment _ naming' h => ?_) (Nat.zero_le _)
  have hnext := decodeLongName_destbufpos hpos h
  have hfits : (decodedAt text naming.destbufpos segment).1.length ≤
      maxNameLen - naming.destbufpos := text.fits _ _
  exact ⟨by omega, hnext⟩

/-- A single segment gives the long name, if it can be decoded. -/
theorem decodeLongName_start (h : decodeLongName text Naming.start segment = .ok naming) :
    (∀ name, longName text segment = some name → naming.channelName = some .long ∧
      cstring naming.longName.cells = .ok (name.takeWhile fun c => c ≠ 0)) ∧
    (longName text segment = none → naming.channelName = none) := by
  obtain ⟨long, hcells, hcases⟩ := decodeLongName_cases text Naming.start segment (Nat.zero_le _)
  rw [start_destbufpos] at hcells hcases
  rw [longName]
  rcases hcases with ⟨hfails, heq⟩ | ⟨hok, heq⟩
  · rw [heq] at h
    cases h
    rw [hfails, if_neg Bool.false_ne_true]
    exact ⟨fun _ h => absurd h.symm (Option.some_ne_none _), fun _ => rfl⟩
  · rw [heq] at h
    obtain ⟨ended, hended, rfl⟩ := map_eq_ok h
    have hstart : long.cells.take (decodedAt text 0 segment).1.length =
        (decodedAt text 0 segment).1 := by rw [hcells, take_splice_zero]
    have htext := Buffer.write_eq_ok hended
    rw [splice, hstart, List.append_assoc, List.singleton_append] at htext
    rw [if_pos hok]
    refine ⟨fun name hname => ⟨rfl, ?_⟩, fun h => absurd h (Option.some_ne_none _)⟩
    cases hname
    rw [htext, cstring_takeWhile]

variable {stack short : Buffer UInt8 (shortNameLen + 1)} {unconverted : List UInt8}

theorem convertShortName_fits (text : AtscText) (unconverted : List UInt8) :
    (convertShortName text unconverted).length ≤ shortNameLen := by
  rw [convertShortName]
  split
  · exact Conversion.fits _ _ _
  · exact Nat.zero_le _

theorem utf8ShortName_ok (text : AtscText) (stack : Buffer UInt8 (shortNameLen + 1))
    (unconverted : List UInt8) : ∃ short, utf8ShortName text stack unconverted = .ok short ∧
      cstring short.cells =
        .ok ((convertShortName text unconverted).takeWhile fun c => c ≠ 0) := by
  have hfits := convertShortName_fits text unconverted
  obtain ⟨short, hwrite, hcells⟩ := stack.write_ok 0 (convertShortName text unconverted ++ [0])
    (by rw [List.length_append, List.length_singleton]; omega)
  refine ⟨short, hwrite, ?_⟩
  rw [hcells, splice, List.take_zero, List.nil_append, List.append_assoc, List.singleton_append,
    cstring_takeWhile]

theorem length_handed_le (text : AtscText) (behind : List UInt8) (ds : List (List UInt8)) :
    (handed text behind ds).length ≤ ds.length := by
  induction ds with
  | nil => exact Nat.le_refl 0
  | cons d ds ih =>
    rw [handed, List.length_cons]
    split
    · exact Nat.succ_le_succ ih
    · exact Nat.le_succ_of_le ih

/-- With one segment at most, the name is the long one if it can be decoded and the short one
otherwise. -/
theorem channelName_walk {segments : List (List UInt8)} (hsole : segments.length ≤ 1)
    (hwalk : segments.foldlM (decodeLongName text) Naming.start = .ok naming)
    (hshort : cstring short.cells =
      .ok ((convertShortName text unconverted).takeWhile fun c => c ≠ 0)) :
    channelName short naming.orShort = .ok (nameOf text unconverted segments) := by
  match segments with
  | [] =>
    cases hwalk
    exact hshort
  | [segment] =>
    rw [List.foldlM_cons, bind_eq_ok] at hwalk
    obtain ⟨naming', hdecode, hwalk⟩ := hwalk
    cases hwalk
    obtain ⟨hlong, hnone⟩ := decodeLongName_start hdecode
    rw [nameOf, channelName, Naming.orShort]
    cases hname : longName text segment with
    | none =>
      rw [hnone hname, List.filterMap_cons_none hname]
      exact hshort
    | some name =>
      rw [(hlong name hname).1, List.filterMap_cons_some hname]
      exact (hlong name hname).2
  | _ :: _ :: _ =>
    simp only [List.length_cons] at hsole
    omega

/-- A name that has been read ends in its array, and is stored with its end. -/
theorem storeServiceName_ok {name : List UInt8} (h : channelName short naming = .ok name) :
    storeServiceName name = .ok name := by
  have hinside : 0 ∉ name ∧ name.length < maxNameLen := by
    rw [channelName] at h
    split at h
    · obtain ⟨hzero, rest, hcells⟩ := cstring_eq_ok.mp h
      have hlen := naming.longName.length_cells
      rw [hcells, List.length_append, List.length_cons] at hlen
      exact ⟨hzero, by omega⟩
    · obtain ⟨hzero, rest, hcells⟩ := cstring_eq_ok.mp h
      have hlen := short.length_cells
      rw [hcells, List.length_append, List.length_cons, shortNameLen] at hlen
      exact ⟨hzero, by rw [maxNameLen]; omega⟩
    · cases h
  obtain ⟨cells, hwrite, hcells⟩ := (Buffer.fill maxNameLen (0 : UInt8)).write_ok 0 (name ++ [0])
    (by rw [List.length_append, List.length_singleton]; omega)
  rw [storeServiceName, hwrite, bind_ok, hcells, splice, List.take_zero, List.nil_append,
    List.append_assoc, List.singleton_append, cstring_append hinside.1]

end walk

end MuMuDVB.VctNames
