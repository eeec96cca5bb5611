import MuMuDVB.AutoconfPmt

/-!
# What is read of a PMT

`autoconf_get_pmt_pids` looks for descriptors in the loop of the program and in
those of the streams, by the lengths that stand there. Each byte that it reads
of them is read here from a section of `n` bytes, and the places of the CA
descriptors go into an array of 255.
-/
namespace MuMuDVB.PmtReads

open CheckedMemory MuMuDVB.TsHeader MuMuDVB.Ts MuMuDVB.TsAssembler
open MuMuDVB.Autoconf MuMuDVB.AutoconfPmt

section reads

variable (byte : Nat → UInt8) (n : Nat)

/-- A byte of the section. -/
def readAt (i : Nat) : Checked UInt8 := if i < n then .ok (byte i) else .error .outOfBounds

/-- `pmt_find_descriptor` from position `pos` on: where the descriptor is and how long. -/
def pmtFindDescriptorIn (tag : UInt8) (buf descriptorsLoopLen : Nat) :
    Nat → Nat → Checked (Option (Nat × Nat))
  | 0, _ => .error .endless
  | fuel + 1, pos =>
    if pos < descriptorsLoopLen then do
      let descriptorTag ← readAt byte n (buf + pos)
      let len ← readAt byte n (buf + pos + 1)
      let descriptorLen := len.toNat + 2
      if descriptorTag = tag then return some (pos, descriptorLen)
      else pmtFindDescriptorIn tag buf descriptorsLoopLen fuel (pos + descriptorLen)
    else return none

/-- `pmt_print_descriptor_tags`. -/
def pmtPrintDescriptorTagsIn (buf descriptorsLoopLen : Nat) : Nat → Nat → Checked Unit
  | 0, _ => .error .endless
  | fuel + 1, pos =>
    if pos < descriptorsLoopLen then do
      let _ ← readAt byte n (buf + pos)
      let len ← readAt byte n (buf + pos + 1)
      pmtPrintDescriptorTagsIn buf descriptorsLoopLen fuel (pos + (len.toNat + 2))
    else return ()

/-- One of the loops that fill `pos_ca_descr`. -/
def caDescriptorsIn (buf descriptorsLoopLen : Nat) : Nat → Nat → List Nat → Checked (List Nat)
  | 0, _, _ => .error .endless
  | fuel + 1, pos, posCaDescr => do
    match ← pmtFindDescriptorIn byte n 0x09 buf descriptorsLoopLen (descriptorsLoopLen + 1) pos with
    | some (here, len) =>
      if posCaDescr.length < maxCaDescr then
        caDescriptorsIn buf descriptorsLoopLen fuel (here + len) (posCaDescr ++ [buf + here])
      else .error .outOfBounds
    | none => return posCaDescr

/-- A loop over the streams: the body has the place of the stream and its `ES_info_length`. -/
def forStreams {β : Type} (body : β → Nat → Nat → Checked β) : Nat → Nat → β → Checked β
  | 0, _, _ => .error .endless
  | fuel + 1, i, b =>
    if i + (pmtInfoLen + 4) ≤ n then do
      let hi ← readAt byte n (i + 3)
      let lo ← readAt byte n (i + 4)
      let descrSectionLen := hilo (hi.toNat % 16) lo.toNat
      let b ← body b i descrSectionLen
      forStreams body fuel (i + (descrSectionLen + pmtInfoLen)) b
    else return b

/-- `CA_type` and `CA_PID`. -/
def caFieldsIn (pos : Nat) : Checked (Nat × Nat) := do
  let typeHi ← readAt byte n (pos + 2)
  let typeLo ← readAt byte n (pos + 3)
  let pidHi ← readAt byte n (pos + 4)
  let pidLo ← readAt byte n (pos + 5)
  return (hilo typeHi.toNat typeLo.toNat, hilo (pidHi.toNat % 32) pidLo.toNat)

/-- The three letters of a language descriptor, up to a zero. -/
def languageIn (i pos : Nat) : Checked (List UInt8) := do
  let lng := i + pmtInfoLen + pos + 2
  let a ← readAt byte n lng
  let b ← readAt byte n (lng + 1)
  let c ← readAt byte n (lng + 2)
  return [a, b, c].takeWhile fun letter => letter ≠ 0

def findInStreamIn (tag : UInt8) (i len : Nat) : Checked (Option (Nat × Nat)) :=
  pmtFindDescriptorIn byte n tag (i + pmtInfoLen) len (len + 1) 0

/-- The descriptors of a stream of type 0x06, one after the other; the one of the subtitles has
a language. -/
def privateTypeIn (i len : Nat) :
    List (UInt8 × PidType) → Checked (Option (PidType × Option (List UInt8)))
  | [] => do
    pmtPrintDescriptorTagsIn byte n (i + pmtInfoLen) len (len + 1) 0
    return none
  | (tag, type) :: rest => do
    match ← findInStreamIn byte n tag i len with
    | some (pos, _) =>
      if tag = 0x59 then do
        let language ← languageIn byte n i pos
        return some (type, some language)
      else return some (type, none)
    | none => privateTypeIn i len rest

/-- `pid_type`, for a stream that is not dropped. -/
def pidTypeIn (i len : Nat) (streamType : UInt8) :
    Checked (Option (PidType × Option (List UInt8))) :=
  if streamType = 0x05 then
    if len ≠ 0 then do
      match ← findInStreamIn byte n 0x6f i len with
      | some _ => return some (.extraApplicationSignalling, none)
      | none =>
        pmtPrintDescriptorTagsIn byte n (i + pmtInfoLen) len (len + 1) 0
        return none
    else return none
  else if streamType = 0x06 then
    if len ≠ 0 then privateTypeIn byte n i len privateTypes else return none
  else return (streamPidType streamType).map fun type => (type, none)

/-- The entry for a stream that is kept. -/
def keptStreamIn (i len : Nat) : Checked (Option PidEntry) := do
  let hi ← readAt byte n (i + 1)
  let lo ← readAt byte n (i + 2)
  let streamType ← readAt byte n i
  match ← pidTypeIn byte n i len streamType with
  | none => return none
  | some (type, language) =>
    let language ← (do
      match ← findInStreamIn byte n 0x0a i len with
      | some (pos, _) => languageIn byte n i pos
      | none => return language.getD [0x2d, 0x2d, 0x2d] : Checked (List UInt8))
    return some ⟨hilo (hi.toNat % 32) lo.toNat, type, language⟩

/-- What `autoconf_get_pmt_pids` reads behind the header: the types and PIDs of the CA descriptors,
and the streams that are kept. -/
def autoconfGetPmtPidsIn : Checked (List (Nat × Nat) × List PidEntry) := do
  let main := programInfoLength byte
  let posCaDescr ← (if 0 < main then caDescriptorsIn byte n pmtLen main (main + 1) 0 []
    else return [] : Checked (List Nat))
  let posCaDescr ← forStreams byte n
    (fun posCaDescr i len => caDescriptorsIn byte n (i + pmtInfoLen) len (len + 1) 0 posCaDescr)
    (n + 1) (main + pmtLen) posCaDescr
  let cas ← posCaDescr.mapM (caFieldsIn byte n)
  let kept ← forStreams byte n (fun kept i len => do
    let stream ← keptStreamIn byte n i len
    return kept ++ stream.toList) (n + 1) (main + pmtLen) []
  return (cas, kept)

/-- Where the descriptors begin that lie one behind the other up to `stop`. -/
def descriptorsFrom (stop : Nat) : Nat → Nat → List Nat
  | 0, _ => []
  | fuel + 1, a =>
    if a < stop then a :: descriptorsFrom stop fuel (a + ((byte (a + 1)).toNat + 2)) else []

/-- The descriptors of a loop of `len` bytes at `buf`. -/
def descriptors (buf len : Nat) : List Nat := descriptorsFrom byte (buf + len) len buf

def streamDescriptors (i : Nat) : List Nat :=
  descriptors byte (i + pmtInfoLen) (esInfoLength byte i)

/-- The descriptors of the program, and those of the streams. -/
def allDescriptors : List Nat :=
  descriptors byte pmtLen (programInfoLength byte) ++
    (streams byte n).flatMap (streamDescriptors byte)

/-- The first descriptor of a stream with a tag. -/
def firstInStream (tag : UInt8) (i : Nat) : Option Nat :=
  (streamDescriptors byte i).find? fun a => byte a = tag

/-- The tag and the length of each descriptor lie in the section, and so do the fields of the CA
descriptors, of which there are no more than places, and the languages that are taken. -/
structure ReadsInside : Prop where
  descriptors : ∀ a ∈ allDescriptors byte n, a + 2 ≤ n
  caFields : ∀ a ∈ allDescriptors byte n, byte a = 0x09 → a + 6 ≤ n
  caDescriptors : (allDescriptors byte n).countP (fun a => byte a = 0x09) ≤ maxCaDescr
  subtitles : ∀ i ∈ streams byte n, pidType byte i = some .extraSubtitle →
    ∀ a, firstInStream byte 0x59 i = some a → a + 5 ≤ n
  languages : ∀ i ∈ streams byte n, pidType byte i ≠ none →
    ∀ a, firstInStream byte 0x0a i = some a → a + 5 ≤ n

end reads

variable {byte : Nat → UInt8} {n : Nat}

theorem readAt_ok {i : Nat} (h : i < n) : readAt byte n i = .ok (byte i) := if_pos h

theorem readAt_outside {i : Nat} (h : ¬i < n) : readAt byte n i = .error .outOfBounds := if_neg h

theorem readAt_eq_ok {i : Nat} {b : UInt8} : readAt byte n i = .ok b ↔ i < n ∧ byte i = b := by
  rw [readAt]
  split <;> simp [*]

section walk

variable {tag : UInt8} {buf len stop : Nat}

theorem descriptorsFrom_enough {fuel more a : Nat} (h : stop ≤ a + fuel) (hmore : stop ≤ a + more) :
    descriptorsFrom byte stop fuel a = descriptorsFrom byte stop more a := by
  induction fuel generalizing more a with
  | zero =>
    cases more with
    | zero => rfl
    | succ more => rw [descriptorsFrom, descriptorsFrom, if_neg (by omega)]
  | succ fuel ih =>
    cases more with
    | zero => rw [descriptorsFrom, descriptorsFrom, if_neg (by omega)]
    | succ more =>
      have hrest := @ih more (a + ((byte (a + 1)).toNat + 2))
      rw [descriptorsFrom, descriptorsFrom, hrest (by omega) (by omega)]

theorem mem_descriptorsFrom {fuel a d : Nat} (h : d ∈ descriptorsFrom byte stop fuel a) :
    a ≤ d ∧ d < stop := by
  induction fuel generalizing a with
  | zero => cases h
  | succ fuel ih =>
    rw [descriptorsFrom] at h
    split at h
    · rcases List.mem_cons.mp h with rfl | h
      · omega
      · have := ih h
        omega
    · cases h

/-- The search of the source finds the first descriptor with the tag. -/
theorem pmtFindDescriptor_eq {fuel pos : Nat} (h : len ≤ pos + fuel) :
    pmtFindDescriptor byte tag buf len fuel pos =
      ((descriptorsFrom byte (buf + len) fuel (buf + pos)).find? fun a => byte a = tag).map
        fun a => (a - buf, (byte (a + 1)).toNat + 2) := by
  induction fuel generalizing pos with
  | zero => rfl
  | succ fuel ih =>
    rw [pmtFindDescriptor, descriptorsFrom]
    by_cases hpos : pos < len
    · have hnext : buf + (pos + ((byte (buf + pos + 1)).toNat + 2)) =
          buf + pos + ((byte (buf + pos + 1)).toNat + 2) := by omega
      have hrest := ih (show len ≤ pos + ((byte (buf + pos + 1)).toNat + 2) + fuel by omega)
      rw [if_pos hpos, if_pos (show buf + pos < buf + len by omega)]
      dsimp only
      by_cases htag : byte (buf + pos) = tag
      · rw [if_pos htag, List.find?_cons_of_pos (by simp [htag]), Option.map_some]
        simp
      · rw [if_neg htag, List.find?_cons_of_neg (by simp [htag]), hrest, hnext]
    · rw [if_neg hpos, if_neg (by omega)]
      rfl

/-- Where the descriptors lie in the section, so does all that is read in the search. -/
theorem pmtFindDescriptorIn_ok {fuel pos : Nat} (h : len ≤ pos + fuel)
    (hinside : ∀ a ∈ descriptorsFrom byte (buf + len) fuel (buf + pos), a + 2 ≤ n) :
    pmtFindDescriptorIn byte n tag buf len (fuel + 1) pos =
      .ok (pmtFindDescriptor byte tag buf len fuel pos) := by
  induction fuel generalizing pos with
  | zero => rw [pmtFindDescriptorIn, if_neg (by omega), pmtFindDescriptor, pure_ok]
  | succ fuel ih =>
    rw [pmtFindDescriptorIn, pmtFindDescriptor]
    by_cases hpos : pos < len
    · rw [descriptorsFrom, if_pos (by omega)] at hinside
      have hhere := hinside (buf + pos) List.mem_cons_self
      have hnext : buf + (pos + ((byte (buf + pos + 1)).toNat + 2)) =
          buf + pos + ((byte (buf + pos + 1)).toNat + 2) := by omega
      have hrest := ih (show len ≤ pos + ((byte (buf + pos + 1)).toNat + 2) + fuel by omega)
        (fun a ha => hinside a (List.mem_cons_of_mem _ (hnext ▸ ha)))
      rw [if_pos hpos, if_pos hpos, readAt_ok (by omega), bind_ok, readAt_ok (by omega), bind_ok]
      dsimp only
      rw [hrest]
      split <;> rfl
    · rw [if_neg hpos, if_neg hpos, pure_ok]

theorem pmtPrintDescriptorTagsIn_ok {fuel pos : Nat} (h : len ≤ pos + fuel)
    (hinside : ∀ a ∈ descriptorsFrom byte (buf + len) fuel (buf + pos), a + 2 ≤ n) :
    pmtPrintDescriptorTagsIn byte n buf len (fuel + 1) pos = .ok () := by
  induction fuel generalizing pos with
  | zero => rw [pmtPrintDescriptorTagsIn, if_neg (by omega), pure_ok]
  | succ fuel ih =>
    rw [pmtPrintDescriptorTagsIn]
    by_cases hpos : pos < len
    · rw [descriptorsFrom, if_pos (by omega)] at hinside
      have hhere := hinside (buf + pos) List.mem_cons_self
      have hnext : buf + (pos + ((byte (buf + pos + 1)).toNat + 2)) =
          buf + pos + ((byte (buf + pos + 1)).toNat + 2) := by omega
      rw [if_pos hpos, readAt_ok (by omega), bind_ok, readAt_ok (by omega), bind_ok]
      exact ih (by omega) (fun a ha => hinside a (List.mem_cons_of_mem _ (hnext ▸ ha)))
    · rw [if_neg hpos, pure_ok]

/-- More turns than bytes make no difference. -/
theorem pmtFindDescriptorIn_enough {fuel more pos : Nat} (h : len ≤ pos + fuel)
    (hmore : len ≤ pos + more) :
    pmtFindDescriptorIn byte n tag buf len (fuel + 1) pos =
      pmtFindDescriptorIn byte n tag buf len (more + 1) pos := by
  induction fuel generalizing more pos with
  | zero => rw [pmtFindDescriptorIn, pmtFindDescriptorIn, if_neg (by omega), if_neg (by omega)]
  | succ fuel ih =>
    rw [pmtFindDescriptorIn, pmtFindDescriptorIn]
    by_cases hpos : pos < len
    · obtain ⟨more, rfl⟩ : ∃ more', more = more' + 1 := ⟨more - 1, by omega⟩
      rw [if_pos hpos, if_pos hpos]
      have hrest : ∀ l : UInt8,
          pmtFindDescriptorIn byte n tag buf len (fuel + 1) (pos + (l.toNat + 2)) =
            pmtFindDescriptorIn byte n tag buf len (more + 1) (pos + (l.toNat + 2)) :=
        fun l => ih (by omega) (by omega)
      simp only [hrest]
    · rw [if_neg hpos, if_neg hpos]

/-- A loop that fills `pos_ca_descr`, over the descriptors as a list. -/
def takeCa (byte : Nat → UInt8) (n : Nat) : List Nat → List Nat → Checked (List Nat)
  | [], found => .ok found
  | a :: rest, found => do
    let descriptorTag ← readAt byte n a
    let _ ← readAt byte n (a + 1)
    if descriptorTag = 0x09 then
      if found.length < maxCaDescr then takeCa byte n rest (found ++ [a]) else .error .outOfBounds
    else takeCa byte n rest found

theorem caDescriptorsIn_eq {fuel turns pos : Nat} (found : List Nat) (h : len ≤ pos + fuel)
    (hturns : len ≤ pos + turns) :
    caDescriptorsIn byte n buf len (turns + 1) pos found =
      takeCa byte n (descriptorsFrom byte (buf + len) fuel (buf + pos)) found := by
  induction fuel generalizing turns pos found with
  | zero =>
    rw [caDescriptorsIn, pmtFindDescriptorIn, if_neg (by omega)]
    rfl
  | succ fuel ih =>
    rw [descriptorsFrom]
    by_cases hpos : pos < len
    · obtain ⟨turns, rfl⟩ : ∃ turns', turns = turns' + 1 := ⟨turns - 1, by omega⟩
      have hnext : ∀ l : UInt8, buf + (pos + (l.toNat + 2)) = buf + pos + (l.toNat + 2) :=
        fun l => by omega
      rw [if_pos (by omega), takeCa, caDescriptorsIn, pmtFindDescriptorIn, if_pos hpos]
      by_cases htag : buf + pos < n
      · rw [readAt_ok htag, bind_ok, bind_ok]
        by_cases hlen : buf + pos + 1 < n
        · rw [readAt_ok hlen, bind_ok, bind_ok]
          dsimp only
          by_cases hca : byte (buf + pos) = 0x09
          · rw [if_pos hca, if_pos hca, pure_ok, bind_ok]
            dsimp only
            rw [ih _ (by omega) (by omega), hnext]
          · have hagain := @ih (turns + 1) (pos + ((byte (buf + pos + 1)).toNat + 2)) found
              (by omega) (by omega)
            rw [caDescriptorsIn, @pmtFindDescriptorIn_enough _ _ _ _ _ len (len - 1) _ (by omega)
              (by omega), show len - 1 + 1 = len by omega, hnext] at hagain
            rw [if_neg hca, if_neg hca, hagain]
        · rw [readAt_outside hlen]
          rfl
      · rw [readAt_outside htag]
        rfl
    · rw [if_neg (by omega), caDescriptorsIn, pmtFindDescriptorIn, if_neg hpos]
      rfl

theorem takeCa_append (xs ys found : List Nat) :
    takeCa byte n (xs ++ ys) found = takeCa byte n xs found >>= takeCa byte n ys := by
  induction xs generalizing found with
  | nil => rfl
  | cons a xs ih =>
    rw [List.cons_append, takeCa, takeCa]
    simp only [ih]
    cases readAt byte n a with
    | error e => rfl
    | ok tag =>
      cases readAt byte n (a + 1) with
      | error e => rfl
      | ok l =>
        simp only [bind_ok]
        split
        · split
          · rfl
          · rfl
        · rfl

theorem takeCa_ok_iff {ds found : List Nat} (hfound : found.length ≤ maxCaDescr) :
    (∃ found', takeCa byte n ds found = .ok found') ↔ (∀ a ∈ ds, a + 2 ≤ n) ∧
      found.length + ds.countP (fun a => byte a = 0x09) ≤ maxCaDescr := by
  induction ds generalizing found with
  | nil => exact iff_of_true ⟨found, rfl⟩ ⟨by simp, hfound⟩
  | cons a ds ih =>
    rw [List.forall_mem_cons, takeCa]
    by_cases hinside : a + 2 ≤ n
    · rw [readAt_ok (by omega), bind_ok, readAt_ok (by omega), bind_ok, and_iff_right hinside]
      by_cases hca : byte a = 0x09
      · rw [if_pos hca, List.countP_cons_of_pos (by simp [hca])]
        split
        case isTrue hroom =>
          rw [ih (by simp only [List.length_append, List.length_singleton]; omega),
            List.length_append, List.length_singleton, Nat.add_assoc,
            Nat.add_comm 1 (List.countP _ ds)]
        case isFalse hfull =>
          refine iff_of_false ?_ fun h => ?_
          · rintro ⟨found', h⟩
            cases h
          · omega
      · rw [if_neg hca, List.countP_cons_of_neg (by simp [hca]), ih hfound]
    · refine iff_of_false ?_ fun h => hinside h.1.1
      rintro ⟨found', h⟩
      obtain ⟨tag, htag, h⟩ := bind_eq_ok.mp h
      obtain ⟨l, hl, -⟩ := bind_eq_ok.mp h
      have := (readAt_eq_ok.mp hl).1
      omega

theorem takeCa_eq_ok {ds found found' : List Nat} (h : takeCa byte n ds found = .ok found') :
    found' = found ++ ds.filter fun a => byte a = 0x09 := by
  induction ds generalizing found with
  | nil =>
    cases h
    simp
  | cons a ds ih =>
    obtain ⟨tag, htag, h⟩ := bind_eq_ok.mp h
    obtain ⟨l, -, h⟩ := bind_eq_ok.mp h
    obtain ⟨-, rfl⟩ := readAt_eq_ok.mp htag
    split at h
    case isTrue hca =>
      split at h
      · rw [ih h, List.filter_cons_of_pos (by simp [hca]), List.append_assoc]
        rfl
      · cases h
    case isFalse hca => rw [ih h, List.filter_cons_of_neg (by simp [hca])]

end walk

section streams

/-- A loop over the streams is one over the list of their places. -/
theorem forStreams_eq {β : Type} (body : β → Nat → Nat → Checked β) {fuel i : Nat} (b : β)
    (h : n ≤ i + fuel) :
    forStreams byte n body (fuel + 1) i b =
      (streamsFrom byte n fuel i).foldlM (fun b i => body b i (esInfoLength byte i)) b := by
  induction fuel generalizing i b with
  | zero => rw [forStreams, if_neg (by simp only [pmtInfoLen]; omega), streamsFrom, List.foldlM_nil]
  | succ fuel ih =>
    rw [forStreams, streamsFrom]
    by_cases hmore : i + (pmtInfoLen + 4) ≤ n
    · simp only [pmtInfoLen] at hmore
      rw [if_pos hmore, if_pos hmore, readAt_ok (by omega), bind_ok, readAt_ok (by omega), bind_ok,
        List.foldlM_cons]
      refine congrArg _ (funext fun b' => ?_)
      exact ih b' (by simp only [pmtInfoLen]; omega)
    · rw [if_neg hmore, if_neg hmore, List.foldlM_nil]

theorem mem_streams {i : Nat} (h : i ∈ streams byte n) : i + 9 ≤ n := by
  have hall : ∀ fuel start, i ∈ streamsFrom byte n fuel start → i + 9 ≤ n := by
    intro fuel
    induction fuel with
    | zero => exact fun start hmem => by cases hmem
    | succ fuel ih =>
      intro start hmem
      rw [streamsFrom] at hmem
      split at hmem
      case isTrue hle =>
        rcases List.mem_cons.mp hmem with rfl | hmem
        · exact hle
        · exact ih _ hmem
      case isFalse => cases hmem
  exact hall _ _ h

/-- The two loops that fill `pos_ca_descr` go over all the descriptors. -/
theorem posCaDescr_reads :
    (do
      let main := programInfoLength byte
      let posCaDescr ← (if 0 < main then caDescriptorsIn byte n pmtLen main (main + 1) 0 []
        else return [] : Checked (List Nat))
      forStreams byte n (fun posCaDescr i len =>
        caDescriptorsIn byte n (i + pmtInfoLen) len (len + 1) 0 posCaDescr)
        (n + 1) (main + pmtLen) posCaDescr) = takeCa byte n (allDescriptors byte n) [] := by
  have hmain : (if 0 < programInfoLength byte then
      caDescriptorsIn byte n pmtLen (programInfoLength byte) (programInfoLength byte + 1) 0 []
      else return [] : Checked (List Nat)) =
        takeCa byte n (descriptors byte pmtLen (programInfoLength byte)) [] := by
    split
    · exact caDescriptorsIn_eq [] (Nat.le_add_left _ _) (Nat.le_add_left _ _)
    case isFalse hzero =>
      rw [Nat.eq_zero_of_not_pos hzero]
      rfl
  have hstreams : ∀ (is found : List Nat), is.foldlM (fun posCaDescr i =>
      caDescriptorsIn byte n (i + pmtInfoLen) (esInfoLength byte i) (esInfoLength byte i + 1) 0
        posCaDescr) found = takeCa byte n (is.flatMap (streamDescriptors byte)) found := by
    intro is
    induction is with
    | nil => exact fun found => rfl
    | cons i is ih =>
      intro found
      rw [List.foldlM_cons, List.flatMap_cons, takeCa_append,
        caDescriptorsIn_eq found (Nat.le_add_left _ _) (Nat.le_add_left _ _)]
      exact congrArg _ (funext ih)
  rw [allDescriptors, takeCa_append]
  dsimp only
  rw [hmain]
  refine congrArg _ (funext fun found => ?_)
  rw [forStreams_eq _ _ (Nat.le_add_left _ _)]
  exact hstreams _ _

theorem caFieldsIn_ok {a : Nat} (h : a + 6 ≤ n) :
    caFieldsIn byte n a = .ok (caType byte a, caPid byte a) := by
  rw [caFieldsIn, readAt_ok (by omega), bind_ok, readAt_ok (by omega), bind_ok,
    readAt_ok (by omega), bind_ok, readAt_ok (by omega), bind_ok]
  rfl

theorem caFieldsIn_ok_iff (a : Nat) : (∃ fields, caFieldsIn byte n a = .ok fields) ↔ a + 6 ≤ n := by
  refine ⟨?_, fun h => ⟨_, caFieldsIn_ok h⟩⟩
  rintro ⟨fields, h⟩
  obtain ⟨_, -, h⟩ := bind_eq_ok.mp h
  obtain ⟨_, -, h⟩ := bind_eq_ok.mp h
  obtain ⟨_, -, h⟩ := bind_eq_ok.mp h
  obtain ⟨_, hlast, -⟩ := bind_eq_ok.mp h
  have := (readAt_eq_ok.mp hlast).1
  omega

theorem languageIn_ok_iff {i pos : Nat} :
    (∃ language, languageIn byte n i pos = .ok language) ↔ i + pmtInfoLen + pos + 5 ≤ n := by
  constructor
  · rintro ⟨language, h⟩
    obtain ⟨_, -, h⟩ := bind_eq_ok.mp h
    obtain ⟨_, -, h⟩ := bind_eq_ok.mp h
    obtain ⟨_, hlast, -⟩ := bind_eq_ok.mp h
    have := (readAt_eq_ok.mp hlast).1
    omega
  · intro h
    rw [languageIn, readAt_ok (by omega), bind_ok, readAt_ok (by omega), bind_ok,
      readAt_ok (by omega), bind_ok]
    exact ⟨_, rfl⟩

theorem languageIn_eq_ok {i pos : Nat} {language : List UInt8}
    (h : languageIn byte n i pos = .ok language) : language = languageAt byte i pos := by
  obtain ⟨a, ha, h⟩ := bind_eq_ok.mp h
  obtain ⟨b, hb, h⟩ := bind_eq_ok.mp h
  obtain ⟨c, hc, h⟩ := bind_eq_ok.mp h
  obtain ⟨-, rfl⟩ := readAt_eq_ok.mp ha
  obtain ⟨-, rfl⟩ := readAt_eq_ok.mp hb
  obtain ⟨-, rfl⟩ := readAt_eq_ok.mp hc
  exact (Except.ok.inj h).symm

end streams

section kept

variable {i : Nat}

/-- The languages of the descriptors that a search finds. -/
def LanguageInside (byte : Nat → UInt8) (n i : Nat) (tag : UInt8) : Prop :=
  ∀ a, firstInStream byte tag i = some a → a + 5 ≤ n

theorem findInStream_eq (tag : UInt8) (i : Nat) :
    findInStream byte tag i = (firstInStream byte tag i).map
      fun a => (a - (i + pmtInfoLen), (byte (a + 1)).toNat + 2) :=
  pmtFindDescriptor_eq (Nat.le_add_left _ _)

theorem findInStreamIn_ok (h : ∀ a ∈ streamDescriptors byte i, a + 2 ≤ n) (tag : UInt8) :
    findInStreamIn byte n tag i (esInfoLength byte i) = .ok (findInStream byte tag i) :=
  pmtFindDescriptorIn_ok (Nat.le_add_left _ _) h

theorem printTagsIn_ok (h : ∀ a ∈ streamDescriptors byte i, a + 2 ≤ n) :
    pmtPrintDescriptorTagsIn byte n (i + pmtInfoLen) (esInfoLength byte i)
      (esInfoLength byte i + 1) 0 = .ok () :=
  pmtPrintDescriptorTagsIn_ok (Nat.le_add_left _ _) h

/-- The place that a search gives is that of the descriptor. -/
theorem findInStream_place {tag : UInt8} {pos len : Nat}
    (h : findInStream byte tag i = some (pos, len)) :
    firstInStream byte tag i = some (i + pmtInfoLen + pos) := by
  rw [findInStream_eq, Option.map_eq_some_iff] at h
  obtain ⟨a, ha, heq⟩ := h
  cases heq
  have := (mem_descriptorsFrom (List.mem_of_find?_eq_some ha)).1
  rw [ha]
  congr 1
  omega

/-- The language of a descriptor that a search finds. -/
def foundLanguage (byte : Nat → UInt8) (n : Nat) (tag : UInt8) (i : Nat) :
    Checked (Option (List UInt8)) :=
  match findInStream byte tag i with
  | some (pos, _) => do
    let language ← languageIn byte n i pos
    return some language
  | none => return none

theorem foundLanguage_ok_iff (tag : UInt8) :
    (∃ language, foundLanguage byte n tag i = .ok language) ↔ LanguageInside byte n i tag := by
  rw [foundLanguage]
  cases hfind : findInStream byte tag i with
  | none =>
    refine iff_of_true ⟨none, rfl⟩ fun a ha => ?_
    rw [findInStream_eq, ha] at hfind
    cases hfind
  | some found =>
    obtain ⟨pos, len⟩ := found
    have hplace := findInStream_place hfind
    rw [LanguageInside, hplace]
    dsimp only
    constructor
    · rintro ⟨language, h⟩ a ha
      cases ha
      obtain ⟨l, hl, -⟩ := bind_eq_ok.mp h
      exact languageIn_ok_iff.mp ⟨l, hl⟩
    · intro h
      obtain ⟨l, hl⟩ := languageIn_ok_iff.mpr (h _ rfl)
      exact ⟨some l, by rw [hl]; rfl⟩

theorem foundLanguage_eq_ok {tag : UInt8} {language : Option (List UInt8)}
    (h : foundLanguage byte n tag i = .ok language) :
    language = (findInStream byte tag i).map fun found => languageAt byte i found.1 := by
  rw [foundLanguage] at h
  split at h
  case h_1 pos len hfind =>
    obtain ⟨l, hl, h⟩ := bind_eq_ok.mp h
    cases h
    rw [hfind, languageIn_eq_ok hl]
    rfl
  case h_2 hfind =>
    cases h
    rw [hfind]
    rfl

/-- The language that comes with a type. -/
def typeLanguage (byte : Nat → UInt8) (n i : Nat) (type : PidType) :
    Checked (Option (PidType × Option (List UInt8))) :=
  if type = .extraSubtitle then do
    let language ← foundLanguage byte n 0x59 i
    return some (type, language)
  else return some (type, none)

theorem privateTypeIn_eq (h : ∀ a ∈ streamDescriptors byte i, a + 2 ≤ n)
    {types : List (UInt8 × PidType)}
    (htypes : ∀ p ∈ types, p.1 = 0x59 ↔ p.2 = .extraSubtitle) :
    privateTypeIn byte n i (esInfoLength byte i) types =
      match (types.find? fun p => (findInStream byte p.1 i).isSome).map Prod.snd with
      | none => .ok none
      | some type => typeLanguage byte n i type := by
  induction types with
  | nil =>
    rw [privateTypeIn, printTagsIn_ok h]
    rfl
  | cons p types ih =>
    obtain ⟨tag, type⟩ := p
    have hp := htypes (tag, type) List.mem_cons_self
    rw [privateTypeIn, findInStreamIn_ok h, bind_ok]
    cases hfind : findInStream byte tag i with
    | none =>
      rw [List.find?_cons_of_neg (by simp [hfind])]
      exact ih fun q hq => htypes q (List.mem_cons_of_mem _ hq)
    | some found =>
      obtain ⟨pos, len⟩ := found
      rw [List.find?_cons_of_pos (by simp [hfind])]
      dsimp only [Option.map_some]
      rw [typeLanguage]
      by_cases htag : tag = 0x59
      · rw [if_pos htag, if_pos (hp.mp htag), foundLanguage, ← htag, hfind]
        dsimp only
        cases languageIn byte n i pos <;> rfl
      · rw [if_neg htag, if_neg fun htype => htag (hp.mpr htype)]

theorem streamPidType_ne_subtitle (t : UInt8) : streamPidType t ≠ some .extraSubtitle := by
  unfold streamPidType
  split <;> simp

theorem pidTypeIn_eq (h : ∀ a ∈ streamDescriptors byte i, a + 2 ≤ n) :
    pidTypeIn byte n i (esInfoLength byte i) (streamType byte i) =
      match pidType byte i with
      | none => .ok none
      | some type => typeLanguage byte n i type := by
  rw [pidTypeIn, pidType]
  by_cases h5 : streamType byte i = 0x05
  · rw [if_pos h5, if_pos h5]
    by_cases hlen : esInfoLength byte i ≠ 0
    · rw [if_pos hlen, findInStreamIn_ok h, bind_ok]
      cases hfind : findInStream byte 0x6f i with
      | none =>
        dsimp only
        rw [printTagsIn_ok h, if_neg (by simp)]
        rfl
      | some found =>
        rw [if_pos ⟨hlen, rfl⟩]
        rfl
    · rw [if_neg hlen, if_neg fun hc => hlen hc.1]
      rfl
  · rw [if_neg h5, if_neg h5]
    by_cases h6 : streamType byte i = 0x06
    · rw [if_pos h6, if_pos h6]
      by_cases hlen : esInfoLength byte i ≠ 0
      · rw [if_pos hlen, if_pos hlen]
        exact privateTypeIn_eq h (by decide)
      · rw [if_neg hlen, if_neg hlen]
        rfl
    · rw [if_neg h6, if_neg h6]
      cases htype : streamPidType (streamType byte i) with
      | none => rfl
      | some type =>
        have hother : type ≠ .extraSubtitle := by
          rintro rfl
          exact streamPidType_ne_subtitle _ htype
        dsimp only
        rw [typeLanguage, if_neg hother]
        rfl

/-- The language of a stream that is kept. -/
theorem keptStreamIn_eq (h : ∀ a ∈ streamDescriptors byte i, a + 2 ≤ n) (hi : i + 9 ≤ n) :
    keptStreamIn byte n i (esInfoLength byte i) =
      match pidType byte i with
      | none => .ok none
      | some type => do
        let typed ← typeLanguage byte n i type
        let iso ← foundLanguage byte n 0x0a i
        return typed.map fun typed => ⟨elementaryPid byte i, typed.1,
          iso.getD (typed.2.getD [0x2d, 0x2d, 0x2d])⟩ := by
  have htype := pidTypeIn_eq h
  rw [streamType] at htype
  rw [keptStreamIn, readAt_ok (by omega), bind_ok, readAt_ok (by omega), bind_ok,
    readAt_ok (by omega), bind_ok, htype]
  cases pidType byte i with
  | none => rfl
  | some type =>
    dsimp only
    cases htyped : typeLanguage byte n i type with
    | error e => rfl
    | ok typed =>
      have hsome : typed.isSome := by
        rw [typeLanguage] at htyped
        split at htyped
        · obtain ⟨l, -, htyped⟩ := bind_eq_ok.mp htyped
          cases htyped
          rfl
        · cases htyped
          rfl
      obtain ⟨⟨type', language⟩, rfl⟩ := Option.isSome_iff_exists.mp hsome
      rw [bind_ok, bind_ok, findInStreamIn_ok h, foundLanguage]
      cases findInStream byte 0x0a i with
      | none => rfl
      | some found =>
        obtain ⟨pos, len⟩ := found
        simp only [bind_ok]
        cases languageIn byte n i pos <;> rfl

theorem typeLanguage_ok_iff {type : PidType} :
    (∃ typed, typeLanguage byte n i type = .ok typed) ↔
      (type = .extraSubtitle → LanguageInside byte n i 0x59) := by
  rw [typeLanguage]
  split
  case isTrue hsubtitle =>
    rw [imp_iff_right hsubtitle, ← foundLanguage_ok_iff]
    constructor
    · rintro ⟨typed, h⟩
      obtain ⟨l, hl, -⟩ := bind_eq_ok.mp h
      exact ⟨l, hl⟩
    · rintro ⟨l, hl⟩
      exact ⟨some (type, l), by rw [hl]; rfl⟩
  case isFalse hother => exact iff_of_true ⟨_, rfl⟩ fun h => absurd h hother

theorem keptStreamIn_ok_iff (h : ∀ a ∈ streamDescriptors byte i, a + 2 ≤ n) (hi : i + 9 ≤ n) :
    (∃ kept, keptStreamIn byte n i (esInfoLength byte i) = .ok kept) ↔
      (pidType byte i = some .extraSubtitle → LanguageInside byte n i 0x59) ∧
        (pidType byte i ≠ none → LanguageInside byte n i 0x0a) := by
  rw [keptStreamIn_eq h hi]
  cases pidType byte i with
  | none => exact iff_of_true ⟨none, rfl⟩ ⟨fun h => (by cases h), fun h => absurd rfl h⟩
  | some type =>
    rw [Option.some.injEq, imp_iff_right (show some type ≠ none by simp), ← typeLanguage_ok_iff,
      ← foundLanguage_ok_iff]
    constructor
    · rintro ⟨kept, h⟩
      obtain ⟨typed, htyped, h⟩ := bind_eq_ok.mp h
      obtain ⟨iso, hiso, -⟩ := bind_eq_ok.mp h
      exact ⟨⟨typed, htyped⟩, iso, hiso⟩
    · rintro ⟨⟨typed, htyped⟩, iso, hiso⟩
      exact ⟨_, by dsimp only; rw [htyped, bind_ok, hiso]; rfl⟩

/-- What is kept is what the reader of the PMT keeps. -/
theorem keptStreamIn_eq_ok (h : ∀ a ∈ streamDescriptors byte i, a + 2 ≤ n) (hi : i + 9 ≤ n)
    {kept : Option PidEntry} (hkept : keptStreamIn byte n i (esInfoLength byte i) = .ok kept) :
    kept = keptStream byte i := by
  rw [keptStreamIn_eq h hi] at hkept
  rw [keptStream]
  cases htype : pidType byte i with
  | none =>
    rw [htype] at hkept
    cases hkept
    rfl
  | some type =>
    rw [htype] at hkept
    obtain ⟨typed, htyped, hkept⟩ := bind_eq_ok.mp hkept
    obtain ⟨iso, hiso, hkept⟩ := bind_eq_ok.mp hkept
    obtain rfl := foundLanguage_eq_ok hiso
    rw [typeLanguage] at htyped
    rw [Option.map_some, language]
    split at htyped
    case isTrue hsubtitle =>
      obtain ⟨l, hl, htyped⟩ := bind_eq_ok.mp htyped
      obtain rfl := foundLanguage_eq_ok hl
      cases htyped
      cases hkept
      rw [if_pos hsubtitle]
      cases findInStream byte 0x0a i with
      | some found => rfl
      | none => cases findInStream byte 0x59 i <;> rfl
    case isFalse hother =>
      cases htyped
      cases hkept
      rw [if_neg hother]
      cases findInStream byte 0x0a i <;> rfl

end kept

/-- The second loop over the streams keeps what the reader of the PMT keeps. -/
theorem keptStreams_reads {is : List Nat}
    (hdescr : ∀ i ∈ is, ∀ a ∈ streamDescriptors byte i, a + 2 ≤ n)
    (his : ∀ i ∈ is, i + 9 ≤ n) (kept : List PidEntry) :
    ((∃ kept', is.foldlM (fun kept i => do
        let stream ← keptStreamIn byte n i (esInfoLength byte i)
        return kept ++ stream.toList) kept = (.ok kept' : Checked (List PidEntry))) ↔
      ∀ i ∈ is, (pidType byte i = some .extraSubtitle → LanguageInside byte n i 0x59) ∧
        (pidType byte i ≠ none → LanguageInside byte n i 0x0a)) ∧
    ∀ kept', is.foldlM (fun kept i => do
        let stream ← keptStreamIn byte n i (esInfoLength byte i)
        return kept ++ stream.toList) kept = (.ok kept' : Checked (List PidEntry)) →
      kept' = kept ++ is.filterMap (keptStream byte) := by
  induction is generalizing kept with
  | nil =>
    refine ⟨iff_of_true ⟨kept, rfl⟩ (by simp), fun kept' h => ?_⟩
    cases h
    simp
  | cons i is ih =>
    have hone := @keptStreamIn_ok_iff byte n i (hdescr i List.mem_cons_self)
      (his i List.mem_cons_self)
    have hrest := fun kept => @ih (fun j hj => hdescr j (List.mem_cons_of_mem _ hj))
      (fun j hj => his j (List.mem_cons_of_mem _ hj)) kept
    constructor
    · rw [List.forall_mem_cons, ← hone]
      constructor
      · rintro ⟨kept', h⟩
        rw [List.foldlM_cons] at h
        obtain ⟨kept₁, hfirst, h⟩ := bind_eq_ok.mp h
        obtain ⟨stream, hstream, -⟩ := bind_eq_ok.mp hfirst
        exact ⟨⟨stream, hstream⟩, (hrest kept₁).1.mp ⟨kept', h⟩⟩
      · rintro ⟨⟨stream, hstream⟩, hlater⟩
        obtain ⟨kept', h⟩ := (hrest (kept ++ stream.toList)).1.mpr hlater
        exact ⟨kept', by rw [List.foldlM_cons, hstream, bind_ok, pure_ok, bind_ok, h]⟩
    · intro kept' h
      rw [List.foldlM_cons] at h
      obtain ⟨kept₁, hfirst, h⟩ := bind_eq_ok.mp h
      obtain ⟨stream, hstream, hfirst⟩ := bind_eq_ok.mp hfirst
      cases hfirst
      rw [(hrest _).2 kept' h, keptStreamIn_eq_ok (hdescr i List.mem_cons_self)
        (his i List.mem_cons_self) hstream, List.filterMap_cons]
      cases keptStream byte i <;> simp

/-- The reading, over the descriptors and the streams as lists. -/
theorem autoconfGetPmtPidsIn_eq (byte : Nat → UInt8) (n : Nat) :
    autoconfGetPmtPidsIn byte n = (do
      let posCaDescr ← takeCa byte n (allDescriptors byte n) []
      let cas ← posCaDescr.mapM (caFieldsIn byte n)
      let kept ← (streams byte n).foldlM (fun kept i => do
        let stream ← keptStreamIn byte n i (esInfoLength byte i)
        return kept ++ stream.toList) []
      return (cas, kept)) := by
  have hkept := @forStreams_eq byte n _ (fun kept i len => do
    let stream ← keptStreamIn byte n i len
    return kept ++ stream.toList) n (programInfoLength byte + pmtLen) [] (Nat.le_add_left _ _)
  rw [← posCaDescr_reads, autoconfGetPmtPidsIn]
  simp only [bind_assoc]
  rw [hkept]
  rfl

theorem streamDescriptors_inside (h : ∀ a ∈ allDescriptors byte n, a + 2 ≤ n) :
    ∀ i ∈ streams byte n, ∀ a ∈ streamDescriptors byte i, a + 2 ≤ n :=
  fun i hi a ha => h a (List.mem_append_right _ (List.mem_flatMap.mpr ⟨i, hi, ha⟩))

/-- Reading a PMT ends, stays inside of the section and within `pos_ca_descr` exactly when the
descriptors, the CA fields and the languages lie in the section and there are no more than 255 CA
descriptors. -/
theorem autoconfGetPmtPidsIn_ok_iff (byte : Nat → UInt8) (n : Nat) :
    (∃ r, autoconfGetPmtPidsIn byte n = .ok r) ↔ ReadsInside byte n := by
  have htake := @takeCa_ok_iff byte n (allDescriptors byte n) [] (Nat.zero_le _)
  rw [List.length_nil, Nat.zero_add] at htake
  have hfields : (∃ cas, ((allDescriptors byte n).filter fun a => byte a = 0x09).mapM
      (caFieldsIn byte n) = .ok cas) ↔
        ∀ a ∈ allDescriptors byte n, byte a = 0x09 → a + 6 ≤ n := by
    rw [mapM_ok_iff]
    simp only [caFieldsIn_ok_iff, List.mem_filter, decide_eq_true_eq, and_imp]
  have hstreams := fun h => @keptStreams_reads byte n (streams byte n)
    (streamDescriptors_inside h) (fun i => mem_streams) []
  rw [autoconfGetPmtPidsIn_eq]
  constructor
  · rintro ⟨r, h⟩
    obtain ⟨posCaDescr, hpos, h⟩ := bind_eq_ok.mp h
    obtain ⟨cas, hcas, h⟩ := bind_eq_ok.mp h
    obtain ⟨kept, hkept, -⟩ := bind_eq_ok.mp h
    obtain ⟨hdescr, hcount⟩ := htake.mp ⟨posCaDescr, hpos⟩
    obtain rfl := takeCa_eq_ok hpos
    have hlanguages := (hstreams hdescr).1.mp ⟨kept, hkept⟩
    exact ⟨hdescr, hfields.mp ⟨cas, hcas⟩, hcount, fun i hi => (hlanguages i hi).1,
      fun i hi => (hlanguages i hi).2⟩
  · intro h
    obtain ⟨posCaDescr, hpos⟩ := htake.mpr ⟨h.descriptors, h.caDescriptors⟩
    obtain rfl := takeCa_eq_ok hpos
    obtain ⟨cas, hcas⟩ := hfields.mpr h.caFields
    obtain ⟨kept, hkept⟩ := (hstreams h.descriptors).1.mpr
      fun i hi => ⟨h.subtitles i hi, h.languages i hi⟩
    exact ⟨(cas, kept), by rw [hpos, bind_ok, List.nil_append, hcas, bind_ok, hkept]; rfl⟩

theorem caDescriptorsFrom_eq {buf len fuel turns pos : Nat} (h : len ≤ pos + fuel)
    (hturns : len ≤ pos + turns) :
    caDescriptorsFrom byte buf len turns pos =
      (descriptorsFrom byte (buf + len) fuel (buf + pos)).filter fun a => byte a = 0x09 := by
  induction fuel generalizing turns pos with
  | zero =>
    rw [@caDescriptorsFrom_enough byte _ _ _ 0 _ hturns (by omega)]
    rfl
  | succ fuel ih =>
    rw [descriptorsFrom]
    by_cases hpos : pos < len
    · obtain ⟨turns, rfl⟩ : ∃ turns', turns = turns' + 1 := ⟨turns - 1, by omega⟩
      have hnext : buf + (pos + ((byte (buf + pos + 1)).toNat + 2)) =
          buf + pos + ((byte (buf + pos + 1)).toNat + 2) := (Nat.add_assoc _ _ _).symm
      have hfind := @pmtFindDescriptor_enough byte 0x09 buf len len (fuel + 1) pos (by omega) h
      rw [pmtFindDescriptor, if_pos hpos] at hfind
      dsimp only at hfind
      rw [if_pos (show buf + pos < buf + len by omega), caDescriptorsFrom, hfind]
      by_cases hca : byte (buf + pos) = 0x09
      · rw [if_pos hca, List.filter_cons_of_pos (by simp [hca])]
        dsimp only
        rw [ih (by omega) (by omega), hnext]
      · have hagain := @ih (turns + 1) (pos + ((byte (buf + pos + 1)).toNat + 2)) (by omega)
          (by omega)
        rw [caDescriptorsFrom, @pmtFindDescriptor_enough byte _ _ _ len fuel _ (by omega)
          (by omega), hnext] at hagain
        rw [if_neg hca, List.filter_cons_of_neg (by simp [hca]), ← hagain]
    · rw [if_neg (by omega), @caDescriptorsFrom_enough byte _ _ _ 0 _ hturns (by omega)]
      rfl

/-- `pos_ca_descr` has the places of the CA descriptors. -/
theorem posCaDescr_eq (byte : Nat → UInt8) (n : Nat) :
    posCaDescr byte n = (allDescriptors byte n).filter fun a => byte a = 0x09 := by
  have hloop : ∀ buf len, caDescriptorsFrom byte buf len len 0 =
      (descriptors byte buf len).filter fun a => byte a = 0x09 :=
    fun buf len => caDescriptorsFrom_eq (Nat.le_add_left _ _) (Nat.le_add_left _ _)
  rw [posCaDescr, allDescriptors, List.filter_append, List.filter_flatMap]
  simp only [hloop]
  split
  · rfl
  case isFalse hzero =>
    rw [Nat.eq_zero_of_not_pos hzero]
    rfl

/-- What is read is what the PIDs of the channel are made of. -/
theorem autoconfGetPmtPidsIn_eq_ok {r : List (Nat × Nat) × List PidEntry}
    (h : autoconfGetPmtPidsIn byte n = .ok r) :
    r = ((posCaDescr byte n).map fun a => (caType byte a, caPid byte a),
      (streams byte n).filterMap (keptStream byte)) := by
  have hinside := (autoconfGetPmtPidsIn_ok_iff byte n).mp ⟨r, h⟩
  rw [autoconfGetPmtPidsIn_eq] at h
  obtain ⟨found, hpos, h⟩ := bind_eq_ok.mp h
  obtain ⟨cas, hcas, h⟩ := bind_eq_ok.mp h
  obtain ⟨kept, hkept, h⟩ := bind_eq_ok.mp h
  cases h
  obtain rfl := takeCa_eq_ok hpos
  rw [List.nil_append, ← posCaDescr_eq] at hcas
  have hfields : ∀ a ∈ posCaDescr byte n,
      caFieldsIn byte n a = .ok (caType byte a, caPid byte a) := by
    intro a ha
    rw [posCaDescr_eq, List.mem_filter, decide_eq_true_eq] at ha
    exact caFieldsIn_ok (hinside.caFields a ha.1 ha.2)
  rw [mapM_eq_map hfields] at hcas
  cases hcas
  rw [(keptStreams_reads (streamDescriptors_inside hinside.descriptors)
    (fun i => mem_streams) []).2 kept hkept, List.nil_append]

/-- A PMT whose program descriptors are said to be longer than the section. -/
def longLoopBytes : List UInt8 :=
  [0x02, 0xb0, 0x0d, 0x00, 0x01, 0xc1, 0x00, 0x00, 0xe1, 0x00, 0xff, 0xff, 0x69, 0x85, 0x62, 0xab]

/-- The CRC is right, and the section is read beyond its end. -/
theorem pmtReads_not_inside :
    crc32 longLoopBytes = 0 ∧ sectionSize longLoopBytes = 16 ∧
      (autoconfGetPmtPidsIn (byteAt longLoopBytes) 16).map (fun _ => ()) = .error .outOfBounds := by
  decide +kernel

end MuMuDVB.PmtReads
