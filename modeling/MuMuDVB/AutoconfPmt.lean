import MuMuDVB.Autoconf
import MuMuDVB.FilledArray
import MuMuDVB.TsAssembler

/-!
# Reading the program map table

`autoconf_read_pmt` collects the PIDs of a section in temporary lists and copies
them behind the first PID of the channel. What `data_full` is read of lies in
the memory from there on, wherever the lengths in the section lead.
-/
namespace MuMuDVB.AutoconfPmt

open CheckedMemory FilledArray MuMuDVB.TsHeader MuMuDVB.Ts MuMuDVB.TsAssembler
open MuMuDVB.Autoconf
open MuMuDVB.AutoconfCat (CaSystem maxCaSystems)

/-- Size of the PMT header. -/
@[simp] abbrev pmtLen : Nat := 12
@[simp] abbrev pmtInfoLen : Nat := 5
/-- Size of `pos_ca_descr`. -/
@[simp] abbrev maxCaDescr : Nat := 255

/-- `autoconf_get_ca_system`. -/
def autoconfGetCaSystem (list : Buffer CaSystem maxCaSystems) (caSystemId : Int) :
    Option CaSystem :=
  (list.cells.find? fun ca => ca.id = caSystemId ∨ ca.id = -1).filter fun ca => ca.id = caSystemId

section memory

variable (byte : Nat → UInt8)

def programNumber : Nat := hilo (byte 3).toNat (byte 4).toNat
def pcrPid : Nat := hilo ((byte 8).toNat % 32) (byte 9).toNat
def programInfoLength : Nat := hilo ((byte 10).toNat % 16) (byte 11).toNat

def streamType (i : Nat) : UInt8 := byte i
def elementaryPid (i : Nat) : Nat := hilo ((byte (i + 1)).toNat % 32) (byte (i + 2)).toNat
def esInfoLength (i : Nat) : Nat := hilo ((byte (i + 3)).toNat % 16) (byte (i + 4)).toNat

/-- `pmt_find_descriptor` from position `pos` on: where the descriptor is and how long. -/
def pmtFindDescriptor (tag : UInt8) (buf descriptorsLoopLen : Nat) :
    Nat → Nat → Option (Nat × Nat)
  | 0, _ => none
  | fuel + 1, pos =>
    if pos < descriptorsLoopLen then
      let descriptorLen := (byte (buf + pos + 1)).toNat + 2
      if byte (buf + pos) = tag then some (pos, descriptorLen)
      else pmtFindDescriptor tag buf descriptorsLoopLen fuel (pos + descriptorLen)
    else none

/-- The CA descriptors of one descriptor loop. -/
def caDescriptorsFrom (buf descriptorsLoopLen : Nat) : Nat → Nat → List Nat
  | 0, _ => []
  | fuel + 1, pos =>
    match pmtFindDescriptor byte 0x09 buf descriptorsLoopLen descriptorsLoopLen pos with
    | some (pos, len) => (buf + pos) :: caDescriptorsFrom buf descriptorsLoopLen fuel (pos + len)
    | none => []

/-- Where the loops over the elementary streams pass. -/
def streamsFrom (sectionLen : Nat) : Nat → Nat → List Nat
  | 0, _ => []
  | fuel + 1, i =>
    if i + (pmtInfoLen + 4) ≤ sectionLen then
      i :: streamsFrom sectionLen fuel (i + (esInfoLength byte i + pmtInfoLen))
    else []

def streams (sectionLen : Nat) : List Nat :=
  streamsFrom byte sectionLen sectionLen (programInfoLength byte + pmtLen)

/-- `pos_ca_descr`: the main loop first, then the streams. -/
def posCaDescr (sectionLen : Nat) : List Nat :=
  let main := programInfoLength byte
  (if 0 < main then caDescriptorsFrom byte pmtLen main main 0 else []) ++
    (streams byte sectionLen).flatMap fun i =>
      caDescriptorsFrom byte (i + pmtInfoLen) (esInfoLength byte i) (esInfoLength byte i) 0

def caType (pos : Nat) : Nat := hilo (byte (pos + 2)).toNat (byte (pos + 3)).toNat
def caPid (pos : Nat) : Nat := hilo ((byte (pos + 4)).toNat % 32) (byte (pos + 5)).toNat

/-- The descriptor in the loop of stream `i`. -/
def findInStream (tag : UInt8) (i : Nat) : Option (Nat × Nat) :=
  pmtFindDescriptor byte tag (i + pmtInfoLen) (esInfoLength byte i) (esInfoLength byte i) 0

/-- The three letters of a language descriptor, up to a zero. -/
def languageAt (i pos : Nat) : List UInt8 :=
  let lng := i + pmtInfoLen + pos + 2
  [byte lng, byte (lng + 1), byte (lng + 2)].takeWhile fun letter => letter ≠ 0

def streamPidType : UInt8 → Option PidType
  | 0x01 => some .videoMpeg1
  | 0x02 => some .videoMpeg2
  | 0x10 => some .videoMpeg4Asp
  | 0x1b => some .videoMpeg4Avc
  | 0x24 => some .videoMpeg4Hevc
  | 0x03 => some .audioMpeg1
  | 0x04 => some .audioMpeg2
  | 0x11 => some .audioAacLatm
  | 0x0f => some .audioAacAdts
  | 0x81 => some .audioAtsc
  | _ => none

/-- What a descriptor says about a stream of type 0x06, the first that is there counts. -/
def privateTypes : List (UInt8 × PidType) :=
  [(0x45, .extraVbidata), (0x46, .extraVbiteletext), (0x56, .extraTeletext), (0x59, .extraSubtitle),
    (0x6a, .audioAc3), (0x7a, .audioEac3), (0x7b, .audioDts), (0x7c, .audioAac)]

/-- `pid_type`, for a stream that is not dropped. -/
def pidType (i : Nat) : Option PidType :=
  if streamType byte i = 0x05 then
    if esInfoLength byte i ≠ 0 ∧ (findInStream byte 0x6f i).isSome then
      some .extraApplicationSignalling
    else none
  else if streamType byte i = 0x06 then
    if esInfoLength byte i ≠ 0 then
      (privateTypes.find? fun p => (findInStream byte p.1 i).isSome).map Prod.snd
    else none
  else streamPidType (streamType byte i)

/-- The language of a stream: of the ISO 639 descriptor, else of the subtitles, else "---". -/
def language (i : Nat) (type : PidType) : List UInt8 :=
  match findInStream byte 0x0a i with
  | some (pos, _) => languageAt byte i pos
  | none =>
    match if type = .extraSubtitle then findInStream byte 0x59 i else none with
    | some (pos, _) => languageAt byte i pos
    | none => [0x2d, 0x2d, 0x2d]

/-- The entry for a stream that is kept. -/
def keptStream (i : Nat) : Option PidEntry :=
  (pidType byte i).map fun type => ⟨elementaryPid byte i, type, language byte i type⟩

/-- The body of the loop over the CA descriptors: the ECM PID, and the EMM PID if it is not there
already. -/
def addCaDescr (list : Buffer CaSystem maxCaSystems) (pids : Filled PidEntry maxPids) (pos : Nat) :
    Checked (Filled PidEntry maxPids) := do
  let pids ← pids.push ⟨caPid byte pos, .ecm, []⟩
  match autoconfGetCaSystem list (caType byte pos) with
  | some caSystem =>
    if caSystem.emmPid ∈ pids.list.map PidEntry.pid then return pids
    else pids.push ⟨caSystem.emmPid, .emm, []⟩
  | none => return pids

/-- The same loop notes the CA system, if there is a place. -/
def noteCaSystem (caSysId : Buffer Int 32) (pos : Nat) : Buffer Int 32 :=
  let i := caSysId.cells.findIdx fun id => id = 0 ∨ id = (caType byte pos : Int)
  if caSysId.cells[i]? = some 0 then
    ⟨caSysId.cells.set i (caType byte pos), by rw [List.length_set, caSysId.length_cells]⟩
  else caSysId

/-- The body of the loop over the streams. "Too many PIDs": the last place is used again. -/
def addStream (pids : Filled PidEntry maxPids) (i : Nat) : Checked (Filled PidEntry maxPids) :=
  match keptStream byte i with
  | some entry => pids.pushOver entry
  | none => .ok pids

/-- "*num_pids=0"; the languages are collected in a table of its own, which is zeroed. -/
def emptied (pids : Buffer PidEntry maxPids) : Filled PidEntry maxPids where
  entries := ⟨pids.cells.map fun entry => { entry with language := [] }, by
    rw [List.length_map, pids.length_cells]⟩
  num := 0
  atMost := Nat.zero_le _

/-- `autoconf_get_pmt_pids`, without the CA systems. -/
def autoconfGetPmtPids (list : Buffer CaSystem maxCaSystems) (sectionLen : Nat)
    (pids : Buffer PidEntry maxPids) : Checked (Filled PidEntry maxPids) :=
  if maxCaDescr < (posCaDescr byte sectionLen).length then .error .outOfBounds
  else do
    let pids ← (posCaDescr byte sectionLen).foldlM (addCaDescr byte list) (emptied pids)
    (streams byte sectionLen).foldlM (addStream byte) pids

section fuel

/-! The loops have as many turns as bytes, which is enough: every turn passes some. -/

theorem pmtFindDescriptor_enough {tag : UInt8} {buf len fuel more pos : Nat}
    (h : len ≤ pos + fuel) (hmore : len ≤ pos + more) :
    pmtFindDescriptor byte tag buf len fuel pos = pmtFindDescriptor byte tag buf len more pos := by
  induction fuel generalizing more pos with
  | zero =>
    cases more with
    | zero => rfl
    | succ more => rw [pmtFindDescriptor, pmtFindDescriptor, if_neg (by omega)]
  | succ fuel ih =>
    cases more with
    | zero => rw [pmtFindDescriptor, pmtFindDescriptor, if_neg (by omega)]
    | succ more =>
      have hrest : ∀ next, pos < next → pmtFindDescriptor byte tag buf len fuel next =
          pmtFindDescriptor byte tag buf len more next :=
        fun next hnext => ih (by omega) (by omega)
      rw [pmtFindDescriptor, pmtFindDescriptor]
      dsimp only
      rw [hrest _ (by omega)]

theorem streamsFrom_enough {sectionLen fuel more i : Nat} (h : sectionLen ≤ i + fuel)
    (hmore : sectionLen ≤ i + more) :
    streamsFrom byte sectionLen fuel i = streamsFrom byte sectionLen more i := by
  induction fuel generalizing more i with
  | zero =>
    cases more with
    | zero => rfl
    | succ more => rw [streamsFrom, streamsFrom, if_neg (by omega)]
  | succ fuel ih =>
    cases more with
    | zero => rw [streamsFrom, streamsFrom, if_neg (by omega)]
    | succ more =>
      have hrest : ∀ next, i < next →
          streamsFrom byte sectionLen fuel next = streamsFrom byte sectionLen more next :=
        fun next hnext => ih (by omega) (by omega)
      rw [streamsFrom, streamsFrom, hrest _ (by simp only [pmtInfoLen]; omega)]

theorem pmtFindDescriptor_some {tag : UInt8} {buf len fuel pos here found : Nat}
    (h : pmtFindDescriptor byte tag buf len fuel pos = some (here, found)) :
    pos ≤ here ∧ here < len ∧ 0 < found := by
  induction fuel generalizing pos with
  | zero => cases h
  | succ fuel ih =>
    rw [pmtFindDescriptor] at h
    dsimp only at h
    split at h
    case isFalse => cases h
    case isTrue hlt =>
      split at h
      · cases h
        exact ⟨Nat.le_refl _, hlt, Nat.succ_pos _⟩
      · obtain ⟨hle, hrest⟩ := ih h
        exact ⟨by omega, hrest⟩

theorem caDescriptorsFrom_enough {buf len fuel more pos : Nat} (h : len ≤ pos + fuel)
    (hmore : len ≤ pos + more) :
    caDescriptorsFrom byte buf len fuel pos = caDescriptorsFrom byte buf len more pos := by
  induction fuel generalizing more pos with
  | zero =>
    cases more with
    | zero => rfl
    | succ more =>
      rw [caDescriptorsFrom, caDescriptorsFrom]
      split
      case h_1 here found hfound =>
        obtain ⟨hge, hlt, -⟩ := pmtFindDescriptor_some byte hfound
        omega
      case h_2 => rfl
  | succ fuel ih =>
    rw [caDescriptorsFrom]
    cases hfound : pmtFindDescriptor byte 0x09 buf len len pos with
    | none => cases more <;> simp only [caDescriptorsFrom, hfound]
    | some found =>
      obtain ⟨hge, hlt, hpos⟩ := pmtFindDescriptor_some byte hfound
      cases more with
      | zero => omega
      | succ more =>
        rw [caDescriptorsFrom, hfound]
        dsimp only
        rw [@ih more (found.1 + found.2) (by omega) (by omega)]

end fuel

end memory

/-- A PMT section that passed the CRC check, with the memory from `data_full` on. -/
structure Pmt where
  pkt : MumudvbTsPacket
  byte : Nat → UInt8
  inside : ∀ i < maxTsSize, byte i = byteAt pkt.dataFull.cells i
  accepted : Accepted (pkt.dataFull.cells.take pkt.lenFull)

/-- The PMT is for another service than that of the channel. -/
def Pmt.IsForeign (pmt : Pmt) (chan : AutoChannel) : Prop :=
  chan.http.serviceId ≠ 0 ∧ chan.http.serviceId ≠ programNumber pmt.byte

instance (pmt : Pmt) (chan : AutoChannel) : Decidable (pmt.IsForeign chan) :=
  inferInstanceAs (Decidable (_ ∧ _))

/-- `temp_pids[0]=pmt->pid`, in an array that has some content. -/
def Pmt.start (pmt : Pmt) (stack : Buffer PidEntry maxPids) : Buffer PidEntry maxPids :=
  ⟨stack.cells.modify 0 fun entry => { entry with pid := pmt.pkt.pid }, by
    rw [List.length_modify, stack.length_cells]⟩

def pcrEntry (pmt : Pmt) : PidEntry := ⟨pcrPid pmt.byte, .pcr, [0x2d, 0x2d, 0x2d]⟩

/-- The PIDs of the PMT and of the PCR, which is looked for in as many entries as the channel has
PIDs so far. -/
def tempPids (list : Buffer CaSystem maxCaSystems) (pmt : Pmt) (stack : Buffer PidEntry maxPids)
    (numPids : Nat) : Checked (Filled PidEntry maxPids) := do
  let temp ← autoconfGetPmtPids pmt.byte list pmt.pkt.lenFull (pmt.start stack)
  let looked ← temp.entries.slice 0 numPids
  if (pcrPid pmt.byte : Int) ∈ looked.map PidEntry.pid then return temp
  else temp.push (pcrEntry pmt)

/-- `autoconf_read_pmt`. -/
def autoconfReadPmt (list : Buffer CaSystem maxCaSystems) (pmt : Pmt)
    (stack : Buffer PidEntry maxPids) (chan : AutoChannel) : Checked (Bool × AutoChannel) :=
  if pmt.IsForeign chan then .ok (false, chan)
  else do
    let temp ← tempPids list pmt stack chan.pidI.numPids
    let chan := { chan with
      caSysId := (posCaDescr pmt.byte pmt.pkt.lenFull).foldl (noteCaSystem pmt.byte)
        (Buffer.fill _ 0)
      pidI := { chan.pidI with pcrPid := pcrPid pmt.byte } }
    if chan.pidI.pidF ≠ .user then do
      -- "+1 because PMT is already set"
      let entries ← chan.pidI.entries.write 1 temp.list
      return (true, { chan with
        pidI := { chan.pidI with entries := entries, numPids := temp.num + 1 } })
    else return (true, chan)

section spec

variable {list : Buffer CaSystem maxCaSystems} {byte : Nat → UInt8} {sectionLen numPids : Nat}
  {pmt : Pmt} {stack : Buffer PidEntry maxPids} {chan : AutoChannel}

/-- The ECM PID of a descriptor and the EMM PID of its system, as a list without an end. -/
def caStep (list : Buffer CaSystem maxCaSystems) (byte : Nat → UInt8) (entries : List PidEntry)
    (pos : Nat) : List PidEntry :=
  let entries := entries ++ [⟨caPid byte pos, .ecm, []⟩]
  match autoconfGetCaSystem list (caType byte pos) with
  | some caSystem =>
    if caSystem.emmPid ∈ entries.map PidEntry.pid then entries
    else entries ++ [⟨caSystem.emmPid, .emm, []⟩]
  | none => entries

/-- The ECM and EMM PIDs that a PMT gives. -/
def Pmt.caEntries (pmt : Pmt) (list : Buffer CaSystem maxCaSystems) : List PidEntry :=
  (posCaDescr pmt.byte pmt.pkt.lenFull).foldl (caStep list pmt.byte) []

/-- The elementary streams that a PMT gives and that are kept. -/
def Pmt.streamEntries (pmt : Pmt) : List PidEntry :=
  (streams pmt.byte pmt.pkt.lenFull).filterMap (keptStream pmt.byte)

def Pmt.entries (pmt : Pmt) (list : Buffer CaSystem maxCaSystems) : List PidEntry :=
  pmt.caEntries list ++ pmt.streamEntries

/-- What the temporary lists have before the first PID. -/
def Pmt.before (pmt : Pmt) (stack : Buffer PidEntry maxPids) : List PidEntry :=
  (emptied (pmt.start stack)).entries.cells

/-- The PCR PID is among the entries that are compared: those of the PMT, and behind them whatever
is in the array. -/
def Pmt.PcrSeen (pmt : Pmt) (list : Buffer CaSystem maxCaSystems) (stack : Buffer PidEntry maxPids)
    (numPids : Nat) : Prop :=
  (pcrPid pmt.byte : Int) ∈
    ((settled maxPids (pmt.before stack) (pmt.entries list)).take numPids).map PidEntry.pid

instance : Decidable (pmt.PcrSeen list stack numPids) := inferInstanceAs (Decidable (_ ∈ _))

/-- The temporary lists in the end: the first PIDs of the PMT, and the PCR. -/
def Pmt.collected (pmt : Pmt) (list : Buffer CaSystem maxCaSystems)
    (stack : Buffer PidEntry maxPids) (numPids : Nat) : List PidEntry :=
  (pmt.entries list).take (maxPids - 1) ++
    if pmt.PcrSeen list stack numPids then [] else [pcrEntry pmt]

theorem length_caStep (entries : List PidEntry) (pos : Nat) :
    entries.length + 1 ≤ (caStep list byte entries pos).length := by
  rw [caStep]
  split
  · split <;> simp
  · simp

theorem addCaDescr_gives {before xs : List PidEntry} {t : Filled PidEntry maxPids}
    (h : Holds before t xs) (pos : Nat) :
    Gives before (addCaDescr byte list t pos) (caStep list byte xs pos) := by
  rw [addCaDescr]
  refine (push_gives h _).bind (fun t ht => ?_) ?_
  · rw [caStep]
    split
    case h_1 caSystem hfound =>
      rw [ht.list]
      split
      · exact ht.gives
      · exact push_gives ht _
    case h_2 => exact ht.gives
  · rw [List.length_append]
    exact length_caStep xs pos

/-- Every CA descriptor gives an entry at least. -/
theorem length_caEntries (pmt : Pmt) (list : Buffer CaSystem maxCaSystems) :
    (posCaDescr pmt.byte pmt.pkt.lenFull).length ≤ (pmt.caEntries list).length := by
  have hfold : ∀ (positions : List Nat) (xs : List PidEntry), xs.length + positions.length ≤
      (positions.foldl (caStep list pmt.byte) xs).length := by
    intro positions
    induction positions with
    | nil => exact fun xs => Nat.le_refl _
    | cons pos positions ih =>
      intro xs
      have hstep := @length_caStep list pmt.byte xs pos
      have hrest := ih (caStep list pmt.byte xs pos)
      rw [List.foldl_cons, List.length_cons]
      omega
  have hall := hfold (posCaDescr pmt.byte pmt.pkt.lenFull) []
  rw [List.length_nil, Nat.zero_add] at hall
  exact hall

/-- The streams that are dropped change nothing. -/
theorem foldlM_addStream (is : List Nat) (t : Filled PidEntry maxPids) :
    is.foldlM (addStream byte) t = (is.filterMap (keptStream byte)).foldlM Filled.pushOver t := by
  induction is generalizing t with
  | nil => rfl
  | cons i is ih =>
    rw [List.foldlM_cons, addStream, List.filterMap_cons]
    cases keptStream byte i with
    | none => exact ih t
    | some entry =>
      rw [List.foldlM_cons]
      exact congrArg _ (funext ih)

/-- The two phases of `autoconf_get_pmt_pids`. -/
theorem autoconfGetPmtPids_eq (pmt : Pmt) (list : Buffer CaSystem maxCaSystems)
    (stack : Buffer PidEntry maxPids) : ∃ x, Gives (pmt.before stack) x (pmt.caEntries list) ∧
      autoconfGetPmtPids pmt.byte list pmt.pkt.lenFull (pmt.start stack) =
        x >>= fun t => pmt.streamEntries.foldlM Filled.pushOver t := by
  rw [autoconfGetPmtPids]
  split
  case isTrue hmany =>
    have hlength := length_caEntries pmt list
    refine ⟨.error .outOfBounds, ?_, rfl⟩
    rw [Gives, if_neg]
    simp only [maxCaDescr, maxPids] at hmany ⊢
    omega
  case isFalse =>
    have hstart : Holds (pmt.before stack) (emptied (pmt.start stack)) [] := ⟨rfl, rfl⟩
    refine ⟨_, foldlM_gives (fun t xs pos ht => addCaDescr_gives ht pos)
      (fun xs pos => Nat.le_of_succ_le (length_caStep xs pos)) _ hstart, ?_⟩
    exact congrArg _ (funext fun t => foldlM_addStream _ t)

/-- Fewer CA PIDs than places: the temporary lists have room for the PCR. -/
theorem tempPids_room (hca : (pmt.caEntries list).length < maxPids) (hnum : numPids ≤ maxPids) :
    ∃ t, tempPids list pmt stack numPids = .ok t ∧ t.list = pmt.collected list stack numPids := by
  obtain ⟨x, hgives, heq⟩ := autoconfGetPmtPids_eq pmt list stack
  rw [Gives, if_pos (Nat.le_of_lt hca)] at hgives
  obtain ⟨t, rfl, ht⟩ := hgives
  obtain ⟨t₁, hstreams, ht₁⟩ :=
    foldlM_pushOver_settled (by decide) pmt.streamEntries (ht.settled hca)
  rw [tempPids, heq, bind_ok, hstreams, bind_ok, Buffer.slice_ok _ (by omega), bind_ok,
    List.drop_zero, ht₁.cells, Pmt.collected]
  by_cases hseen : pmt.PcrSeen list stack numPids
  · rw [if_pos hseen, List.append_nil]
    rw [Pmt.PcrSeen, Pmt.entries] at hseen
    rw [if_pos hseen]
    exact ⟨t₁, rfl, ht₁.list⟩
  · rw [if_neg hseen]
    rw [Pmt.PcrSeen, Pmt.entries] at hseen
    rw [if_neg hseen]
    have hlt : t₁.num < maxPids := by
      rw [ht₁.num]
      exact Nat.lt_of_le_of_lt (Nat.min_le_left _ _) (by decide)
    obtain ⟨t', hpush, hlist⟩ := push_list hlt (pcrEntry pmt)
    exact ⟨t', hpush, by rw [hlist, ht₁.list, Pmt.entries]⟩

/-- As many CA PIDs as places. -/
theorem tempPids_full (hca : (pmt.caEntries list).length = maxPids) (hnum : numPids ≤ maxPids) :
    ((∃ t, tempPids list pmt stack numPids = .ok t) ↔
      pmt.streamEntries = [] ∧ pmt.PcrSeen list stack numPids) ∧
    ∀ t, tempPids list pmt stack numPids = .ok t → t.num = maxPids := by
  obtain ⟨x, hgives, heq⟩ := autoconfGetPmtPids_eq pmt list stack
  rw [Gives, if_pos (Nat.le_of_eq hca)] at hgives
  obtain ⟨t, rfl, ht⟩ := hgives
  have hfull : ∀ a, t.push a = .error .outOfBounds := by
    intro a
    rw [Filled.push, dif_neg]
    rw [ht.num, hca]
    exact Nat.lt_irrefl _
  rw [tempPids, heq, bind_ok]
  cases hstreams : pmt.streamEntries with
  | cons entry rest =>
    rw [List.foldlM_cons, Filled.pushOver, hfull, bind_error, bind_error, bind_error]
    refine ⟨⟨?_, ?_⟩, ?_⟩
    · rintro ⟨t', h⟩
      cases h
    · rintro ⟨h, -⟩
      cases h
    · intro t' h
      cases h
  | nil =>
    have hentries : pmt.entries list = pmt.caEntries list := by
      rw [Pmt.entries, hstreams, List.append_nil]
    rw [List.foldlM_nil, pure_ok, bind_ok, Buffer.slice_ok _ (by omega), bind_ok, List.drop_zero,
      ht.cells_full hca (by decide), ← hentries]
    rw [Pmt.PcrSeen]
    split
    case isTrue hseen =>
      refine ⟨iff_of_true ⟨t, rfl⟩ ⟨rfl, hseen⟩, fun t' h => ?_⟩
      cases h
      rw [ht.num, hca]
    case isFalse hseen =>
      rw [hfull]
      refine ⟨iff_of_false ?_ fun h => hseen h.2, fun t' h => by cases h⟩
      rintro ⟨t', h⟩
      cases h

/-- More CA PIDs than places. -/
theorem tempPids_over (hca : maxPids < (pmt.caEntries list).length) :
    tempPids list pmt stack numPids = .error .outOfBounds := by
  obtain ⟨x, hgives, heq⟩ := autoconfGetPmtPids_eq pmt list stack
  rw [Gives, if_neg (Nat.not_le_of_lt hca)] at hgives
  rw [tempPids, heq, hgives]
  rfl

/-- There is room for the PIDs: fewer CA PIDs than places and, where they are copied behind the
first PID of the channel, a place left for the PCR. Where they are not copied the CA PIDs may fill
the lists, if nothing follows. -/
def Pmt.Fits (pmt : Pmt) (list : Buffer CaSystem maxCaSystems) (stack : Buffer PidEntry maxPids)
    (chan : AutoChannel) : Prop :=
  (pmt.caEntries list).length < maxPids ∧
      (chan.pidI.pidF = .user ∨ (pmt.entries list).length < maxPids - 1 ∨
        pmt.PcrSeen list stack chan.pidI.numPids) ∨
    (pmt.caEntries list).length = maxPids ∧ pmt.streamEntries = [] ∧
      pmt.PcrSeen list stack chan.pidI.numPids ∧ chan.pidI.pidF = .user

/-- What reading a PMT does to its channel. -/
structure ReadInto (list : Buffer CaSystem maxCaSystems) (pmt : Pmt)
    (stack : Buffer PidEntry maxPids) (chan chan' : AutoChannel) : Prop where
  server : chan'.toUnicastChannel = chan.toUnicastChannel
  pidF : chan'.pidI.pidF = chan.pidI.pidF
  pmtPidF : chan'.pidI.pmtPidF = chan.pidI.pmtPidF
  numPids : chan'.pidI.numPids ≤ maxPids
  pids : chan'.pidI.pids = if chan.pidI.pidF = .user then chan.pidI.pids else
    (chan.pidI.entries.cells.take 1 ++ pmt.collected list stack chan.pidI.numPids).map PidEntry.pid

theorem length_collected_le (numPids : Nat) :
    (pmt.collected list stack numPids).length + 1 ≤ maxPids ↔
      (pmt.entries list).length < maxPids - 1 ∨ pmt.PcrSeen list stack numPids := by
  rw [Pmt.collected, List.length_append, List.length_take]
  split
  case isTrue hseen =>
    refine iff_of_true ?_ (.inr hseen)
    simp only [maxPids, List.length_nil]
    omega
  case isFalse hseen =>
    rw [or_iff_left hseen]
    simp only [maxPids, List.length_singleton]
    omega

theorem autoconfReadPmt_foreign (h : pmt.IsForeign chan) :
    autoconfReadPmt list pmt stack chan = .ok (false, chan) :=
  if_pos h

/-- A PMT of the channel is read if and only if its PIDs fit. -/
theorem autoconfReadPmt_iff (hnum : chan.pidI.numPids ≤ maxPids) (hown : ¬ pmt.IsForeign chan) :
    (∃ r, autoconfReadPmt list pmt stack chan = .ok r) ↔ pmt.Fits list stack chan := by
  rw [autoconfReadPmt, if_neg hown, Pmt.Fits]
  rcases Nat.lt_trichotomy (pmt.caEntries list).length maxPids with hca | hca | hca
  · rw [and_iff_right hca, or_iff_left fun h => Nat.ne_of_lt hca h.1]
    obtain ⟨t, htemp, hlist⟩ := @tempPids_room list _ pmt stack hca hnum
    rw [htemp, bind_ok]
    dsimp only
    split
    case isTrue hfree =>
      rw [or_iff_right hfree, ← length_collected_le, ← hlist, Nat.add_comm t.list.length,
        ← Buffer.write_ok_iff chan.pidI.entries]
      constructor
      · rintro ⟨r, h⟩
        obtain ⟨entries, hwrite, -⟩ := bind_eq_ok.mp h
        exact ⟨entries, hwrite⟩
      · rintro ⟨entries, hwrite⟩
        rw [hwrite]
        exact ⟨_, rfl⟩
    case isFalse huser => exact iff_of_true ⟨_, rfl⟩ (.inl (not_not.mp huser))
  · obtain ⟨hok, hsize⟩ := @tempPids_full list _ pmt stack hca hnum
    rw [or_iff_right fun h => Nat.ne_of_lt h.1 hca, and_iff_right hca, ← and_assoc, ← hok]
    constructor
    · rintro ⟨r, h⟩
      obtain ⟨t, htemp, h⟩ := bind_eq_ok.mp h
      refine ⟨⟨t, htemp⟩, ?_⟩
      dsimp only at h
      split at h
      case isTrue =>
        obtain ⟨entries, hwrite, -⟩ := bind_eq_ok.mp h
        have hlength := (Buffer.write_ok_iff _ _ _).mp ⟨entries, hwrite⟩
        rw [length_list, hsize t htemp] at hlength
        omega
      case isFalse huser => exact not_not.mp huser
    · rintro ⟨⟨t, htemp⟩, huser⟩
      rw [htemp, bind_ok]
      dsimp only
      rw [if_neg (not_not.mpr huser)]
      exact ⟨_, rfl⟩
  · rw [tempPids_over hca]
    refine iff_of_false ?_ ?_
    · rintro ⟨r, h⟩
      cases h
    · rintro (⟨hlt, -⟩ | ⟨heq, -⟩) <;> omega

/-- As many entries as the channel has PIDs are looked at. -/
theorem numPids_le {t : Filled PidEntry maxPids} (h : tempPids list pmt stack numPids = .ok t) :
    numPids ≤ maxPids := by
  obtain ⟨temp, -, h⟩ := bind_eq_ok.mp h
  obtain ⟨looked, hlooked, -⟩ := bind_eq_ok.mp h
  rw [Buffer.slice] at hlooked
  split at hlooked
  case isTrue hle => exact Nat.zero_add numPids ▸ hle
  case isFalse => cases hlooked

theorem autoconfReadPmt_ok {read : Bool} {chan' : AutoChannel} (hown : ¬ pmt.IsForeign chan)
    (h : autoconfReadPmt list pmt stack chan = .ok (read, chan')) :
    ReadInto list pmt stack chan chan' := by
  have hnum : chan.pidI.numPids ≤ maxPids := by
    rw [autoconfReadPmt, if_neg hown] at h
    obtain ⟨t, htemp, -⟩ := bind_eq_ok.mp h
    exact numPids_le htemp
  have hfits := (autoconfReadPmt_iff hnum hown).mp ⟨_, h⟩
  rw [autoconfReadPmt, if_neg hown] at h
  obtain ⟨t, htemp, h⟩ := bind_eq_ok.mp h
  dsimp only at h
  split at h
  case isFalse huser =>
    cases h
    exact ⟨rfl, rfl, rfl, hnum, (if_pos (not_not.mp huser)).symm⟩
  case isTrue hfree =>
    have hca : (pmt.caEntries list).length < maxPids := by
      rcases hfits with ⟨hca, -⟩ | ⟨-, -, -, huser⟩
      · exact hca
      · exact absurd huser hfree
    obtain ⟨t', htemp', hlist⟩ := @tempPids_room list _ pmt stack hca hnum
    rw [htemp] at htemp'
    cases htemp'
    obtain ⟨entries, hwrite, h⟩ := bind_eq_ok.mp h
    cases h
    have hlength := (Buffer.write_ok_iff _ _ _).mp ⟨entries, hwrite⟩
    rw [length_list] at hlength
    refine ⟨rfl, rfl, rfl, by simp only; omega, ?_⟩
    rw [if_neg hfree, PidI.pids, Buffer.write_eq_ok hwrite, ← hlist]
    dsimp only
    rw [take_splice (by rw [Buffer.length_cells]; decide) (by rw [length_list, Nat.add_comm])]

end spec

end MuMuDVB.AutoconfPmt
