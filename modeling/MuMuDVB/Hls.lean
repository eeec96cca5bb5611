import Mathlib.Logic.Function.Basic
import Mathlib.Data.UInt
import MuMuDVB.RecordedRun
import MuMuDVB.ShiftedArray
import MuMuDVB.TsHeader

/-!
# Chunks for HTTP live streaming

`hls_worker_main` appends the buffers of a channel to a chunk file. Now and then
the entry is rotated: a new chunk is begun, the playlist lists the chunks
completed last, and the oldest file is removed. The array of file names is
shifted at each rotation. One entry is followed from its first buffer on, until
it is destroyed. A call that cannot open a file has no result here.
-/
namespace MuMuDVB.Hls

open RecordedRun ShiftedArray MuMuDVB.TsHeader

/-- The parts of `unicast_parameters_t` and of the program's options that matter here. The option
`hls_rotate_count` is at least one, and the time as well. -/
structure Settings where
  serviceId : Int
  hlsRotateTime : UInt32
  hlsRotateCount : Nat
  hlsRotateCount_pos : 0 < hlsRotateCount
  hlsRotateIframe : Bool
  dontSendScrambled : Bool
  playlistIgnoreScrambledRatio : Nat

/-- `hls_open_fds_t`. The names are without the path, which is the same for all of them, and the
stream is the name of the file it writes to. -/
structure Entry where
  serviceId : Int
  hasTraffic : Bool
  initialized : Bool
  accessTime : UInt32
  rotateTime : UInt32
  sequence : Nat
  needRotate : Bool
  filenames : List String
  filenamesNum : Nat
  stream : String

/-- What was done so far: the buffers written, the chunks opened, and the chunks removed with what
was in them. -/
structure Log where
  buffers : List (List UInt8)
  opened : List String
  removed : List (String × List UInt8)

/-- The entry, the chunk files of the storage directory and the lines of the playlist file. -/
structure State where
  entry : Entry
  disk : String → Option (List UInt8)
  playlist : Option (List String)
  log : Log

/-- A buffer of the channel, with what the channel says about it. -/
structure Arrival where
  buf : List UInt8
  highlyScrambled : Bool
  ratioScrambled : Nat
  hasTraffic : Bool
  curTime : UInt32

/-- Which calls of `fopen` succeed. -/
structure Opens where
  playlist : Bool
  stream : Bool

/-- Scrambled traffic is not stored if the options say so. -/
def Settings.skips (settings : Settings) (arrival : Arrival) : Bool :=
  settings.dontSendScrambled && arrival.highlyScrambled ||
    settings.playlistIgnoreScrambledRatio ≠ 0 &&
      settings.playlistIgnoreScrambledRatio ≤ arrival.ratioScrambled

/-- `"%d_%u.ts"`. -/
def chunkName (serviceId : Int) (accessTime : UInt32) : String :=
  toString serviceId ++ "_" ++ Nat.repr accessTime.toNat ++ ".ts"

/-- The text of a playlist, line by line. -/
def playlistLines (rotateTime : UInt32) (sequence : Nat) (segments : List String) : List String :=
  ["#EXTM3U", "#EXT-X-TARGETDURATION:" ++ Nat.repr rotateTime.toNat, "#EXT-X-VERSION:3",
    "#EXT-X-MEDIA-SEQUENCE:" ++ Nat.repr sequence] ++
  segments.flatMap fun name => ["#EXTINF:" ++ Nat.repr rotateTime.toNat ++ ".0,", name]

section iframe

variable (buf : List UInt8) (pos : Nat)

/-- The flag in the adaptation field, as `af_header_t` places it. -/
def randomAccessIndicator : Bool := (byteAt buf (pos + tsHeaderLen + 1)).toNat / 2 % 2 == 1

/-- The payload starts an I-frame. -/
def startsIframe : Bool :=
  let fragmentType := (byteAt buf (pos + tsHeaderLen)).toNat % 32
  let nalType := (byteAt buf (pos + tsHeaderLen + 1)).toNat % 32
  let startBit := (byteAt buf (pos + tsHeaderLen + 1)).toNat / 128
  (fragmentType == 28 || fragmentType == 29) && nalType == 5 && startBit == 1 || fragmentType == 5

def isIframe : Bool :=
  let control := adaptationFieldControl (buf.drop pos)
  1 < control && randomAccessIndicator buf pos || control == 1 && startsIframe buf pos

/-- The first packet of the buffer that is, or starts, an I-frame. -/
def hlsFindIframe : Option Nat :=
  ((List.range ((buf.length + (tsPacketSize - 1)) / tsPacketSize)).map (tsPacketSize * ·)).find?
    (isIframe buf)

end iframe

namespace State

variable (settings : Settings) (opens : Opens) (s : State)

/-- `fopen` for writing, which begins an empty file. -/
def fopen (name : String) : State :=
  { s with
    entry := { s.entry with stream := name }
    disk := Function.update s.disk name (some [])
    log := { s.log with opened := s.log.opened ++ [name] } }

/-- `fwrite` to the stream. -/
def fwrite (data : List UInt8) : State :=
  { s with
    disk := Function.update s.disk s.entry.stream
      ((s.disk s.entry.stream).map (· ++ data)) }

def remove (name : String) : State :=
  { s with
    disk := Function.update s.disk name none
    log := { s.log with removed := s.log.removed ++ [(name, (s.disk name).getD [])] } }

def hlsEntryInitialize (accessTime : UInt32) : Option State :=
  let filenamesNum := settings.hlsRotateCount + 2
  let name := chunkName settings.serviceId accessTime
  if opens.stream then
    some (({ s with entry := {
      serviceId := settings.serviceId
      hasTraffic := false
      initialized := true
      accessTime
      rotateTime := accessTime
      sequence := 0
      needRotate := false
      filenames := (List.replicate filenamesNum "").set 0 name
      filenamesNum
      stream := "" } }).fopen name)
  else none

/-- The names after `memmove`, with the name of the new chunk at the front. -/
def shiftNames (accessTime : UInt32) : State :=
  { s with entry := { s.entry with
    filenames := (s.entry.filenames.take 1 ++
      s.entry.filenames.take (s.entry.filenamesNum - 1)).set 0
        (chunkName s.entry.serviceId accessTime) } }

/-- The names in the playlist: all but the ones to delete and to write, from the oldest on. -/
def segments : List String :=
  ((s.entry.filenames.take (s.entry.filenamesNum - 1)).drop 1).reverse.filter (· ≠ "")

/-- The playlist is written once all chunks are there. -/
def writePlaylist : Option State :=
  if s.entry.filenamesNum - 3 ≤ s.entry.sequence then
    if opens.playlist then
      some { s with
        playlist := some (playlistLines settings.hlsRotateTime s.entry.sequence s.segments) }
    else none
  else some s

/-- The file at the last position is removed. -/
def deleteOldest : State :=
  let name := s.entry.filenames.getD (s.entry.filenamesNum - 1) ""
  if name = "" then s
  else
    let s := s.remove name
    { s with entry := { s.entry with
      filenames := s.entry.filenames.set (s.entry.filenamesNum - 1) "" } }

def hlsEntryRotate (accessTime : UInt32) : Option State :=
  if s.entry.initialized then
    ((s.shiftNames accessTime).writePlaylist settings opens).bind fun s =>
      if opens.stream then
        let s := (s.fopen (s.entry.filenames.getD 0 "")).deleteOldest
        some { s with entry := { s.entry with
          rotateTime := accessTime
          needRotate := false
          sequence := (s.entry.sequence + 1) % 2 ^ 32 } }
      else none
  else none

/-- If a rotation waits for an I-frame and there is one, what comes before it still goes to the
old chunk. The rest of the buffer is left. -/
def splitAtIframe (curTime : UInt32) (buf : List UInt8) : Option (State × List UInt8) :=
  if s.entry.needRotate then
    match hlsFindIframe buf with
    | some pos =>
      ((s.fwrite (buf.take pos)).hlsEntryRotate settings opens curTime).map fun s =>
        ({ s with entry := { s.entry with needRotate := false } }, buf.drop pos)
    | none => some (s, buf)
  else some (s, buf)

/-- The entry for the channel, which the first buffer initializes. -/
def hlsEntryFind (curTime : UInt32) : Option State :=
  if s.entry.initialized then some s else s.hlsEntryInitialize settings opens curTime

def hlsWorkerMain (arrival : Arrival) : Option State :=
  if settings.skips arrival then some s
  else
    (s.hlsEntryFind settings opens arrival.curTime).bind fun s =>
      let s := { s with entry := { s.entry with
        accessTime := arrival.curTime, hasTraffic := arrival.hasTraffic } }
      (s.splitAtIframe settings opens arrival.curTime arrival.buf).map fun (s, outbuf) =>
        let s := s.fwrite outbuf
        { s with log := { s.log with buffers := s.log.buffers ++ [arrival.buf] } }

/-- The periodic task finds that the entry was not rotated for too long. -/
def tooOld (curTime : UInt32) : Bool :=
  s.entry.initialized && s.entry.rotateTime < curTime - settings.hlsRotateTime

/-- The turn of `hls_periodic_task` for the entry. -/
def hlsPeriodicTask (curTime : UInt32) : Option State :=
  if s.tooOld settings curTime then
    if !s.entry.needRotate && settings.hlsRotateIframe then
      some { s with entry := { s.entry with needRotate := true } }
    else s.hlsEntryRotate settings opens curTime
  else some s

end State

/-- What happens to an entry, with the calls of `fopen` that succeed: the two threads take turns
under `hls_periodic_lock`. -/
inductive Event where
  | worker (opens : Opens) (arrival : Arrival)
  | periodic (opens : Opens) (curTime : UInt32)

def step (settings : Settings) (s : State) : Event → Option State
  | .worker opens arrival => s.hlsWorkerMain settings opens arrival
  | .periodic opens curTime => s.hlsPeriodicTask settings opens curTime

/-- The entry is cleared, and has no files. -/
def start : State where
  entry := ⟨0, false, false, 0, 0, 0, false, [], 0, ""⟩
  disk _ := none
  playlist := none
  log := ⟨[], [], []⟩

def hlsSystem (settings : Settings) : System State Event where
  Initial s := s = start
  Step s e s' := step settings s e = some s'

/-- An event that rotates the entry comes later than the last rotation. -/
def Later (settings : Settings) (s : State) : Event → Prop
  | .worker _ arrival => s.entry.needRotate → (hlsFindIframe arrival.buf).isSome →
      settings.skips arrival = false → s.entry.rotateTime < arrival.curTime
  | .periodic _ curTime => s.tooOld settings curTime →
      (!s.entry.needRotate && settings.hlsRotateIframe) = false → s.entry.rotateTime < curTime

/-- The chunks on disk, the chunks written so far and the playlist, after any number of steps. The
chunk opened last is the one being written, all before it are completed. -/
structure ChunksKept (settings : Settings) (s : State) : Prop where
  disk : ∀ name, (s.disk name).isSome ↔ name ∈ s.entry.filenames ∧ name ≠ ""
  /-- one chunk was opened at the start and one at each rotation -/
  sequence : s.entry.initialized = true → s.log.opened.length = s.entry.sequence + 1
  /-- the chunks removed and the ones on disk are those opened, in the order of the rotations -/
  order : s.log.removed.map Prod.fst ++ s.entry.filenames.reverse.filter (· ≠ "") = s.log.opened
  written : (s.log.removed.map Prod.snd ++ s.entry.filenames.reverse.filterMap s.disk).flatten =
    s.log.buffers.flatten
  playlist : s.playlist =
    if s.log.opened.length ≤ settings.hlsRotateCount then none
    else some (playlistLines settings.hlsRotateTime (s.log.opened.length - 2)
      (kept settings.hlsRotateCount s.log.opened.dropLast))
  listed : settings.hlsRotateCount < s.log.opened.length →
    (kept settings.hlsRotateCount s.log.opened.dropLast).length = settings.hlsRotateCount
  unlisted : ∀ name ∈ kept settings.hlsRotateCount s.log.opened.dropLast,
    name ≠ s.entry.stream ∧ name ∉ s.log.removed.map Prod.fst
  once : (s.log.removed.map Prod.fst).Nodup

theorem chunkName_inj {serviceId : Int} {t t' : UInt32}
    (h : chunkName serviceId t = chunkName serviceId t') : t = t' := by
  have hlist := congrArg String.toList h
  simp only [chunkName, String.toList_append, List.append_assoc] at hlist
  have hrepr : t.toNat.repr.toList = t'.toNat.repr.toList :=
    List.append_cancel_right (List.append_cancel_left (List.append_cancel_left hlist))
  rw [Nat.toList_repr, Nat.toList_repr] at hrepr
  have hnat := congrArg (fun digits => Nat.ofDigitChars 10 digits 0) hrepr
  simp only [Nat.ofDigitChars_ten_toDigits] at hnat
  exact UInt32.toNat_inj.mp hnat

theorem chunkName_ne_empty (serviceId : Int) (t : UInt32) : chunkName serviceId t ≠ "" := by
  intro h
  have hlist := congrArg String.toList h
  simp [chunkName] at hlist

/-- The last `n` chunks are on disk, the ones before them were removed, and all together hold the
bytes written. -/
structure Holding (n : Nat) (bytes : List UInt8) (s : State) : Prop where
  disk : ∀ name, (s.disk name).isSome ↔ name ∈ kept n s.log.opened
  order : s.log.removed.map Prod.fst ++ kept n s.log.opened = s.log.opened
  written : (s.log.removed.map Prod.snd ++ (kept n s.log.opened).filterMap s.disk).flatten = bytes

/-- An initialized entry in the middle of a run, with the bytes written so far. -/
structure Represents (settings : Settings) (bytes : List UInt8) (s : State) : Prop where
  initialized : s.entry.initialized = true
  serviceId : s.entry.serviceId = settings.serviceId
  filenamesNum : s.entry.filenamesNum = settings.hlsRotateCount + 2
  times : ∃ times : List UInt32, s.log.opened = times.map (chunkName settings.serviceId) ∧
    times.Pairwise (· < ·) ∧ times.getLast? = some s.entry.rotateTime
  sequence : s.entry.sequence + 1 = s.log.opened.length
  sequence_le : s.entry.sequence ≤ s.entry.rotateTime.toNat
  filenames : s.entry.filenames = recent (settings.hlsRotateCount + 1) s.log.opened "" ++ [""]
  stream : s.log.opened.getLast? = some s.entry.stream
  holding : Holding (settings.hlsRotateCount + 1) bytes s
  playlist : s.playlist =
    if s.log.opened.length ≤ settings.hlsRotateCount then none
    else some (playlistLines settings.hlsRotateTime (s.log.opened.length - 2)
      (kept settings.hlsRotateCount s.log.opened.dropLast))

section represents

variable {settings : Settings} {opens : Opens} {bytes : List UInt8} {s s' : State}

theorem Represents.nodup (h : Represents settings bytes s) : s.log.opened.Nodup := by
  obtain ⟨times, hopened, hincreasing, -⟩ := h.times
  rw [hopened]
  refine List.Nodup.map (fun t t' => chunkName_inj) (hincreasing.imp fun hlt heq => ?_)
  rw [heq] at hlt
  exact absurd hlt (UInt32.lt_irrefl _)

theorem Represents.ne_empty (h : Represents settings bytes s) {name : String}
    (hname : name ∈ s.log.opened) : name ≠ "" := by
  obtain ⟨times, hopened, -⟩ := h.times
  rw [hopened] at hname
  obtain ⟨t, -, rfl⟩ := List.mem_map.mp hname
  exact chunkName_ne_empty _ _

theorem Represents.opened_eq (h : Represents settings bytes s) :
    s.log.opened = s.log.opened.dropLast ++ [s.entry.stream] :=
  (List.dropLast_append_getLast? _ h.stream).symm

/-- The chunk being written comes last. -/
theorem Represents.kept_eq (h : Represents settings bytes s) :
    kept (settings.hlsRotateCount + 1) s.log.opened =
      kept settings.hlsRotateCount s.log.opened.dropLast ++ [s.entry.stream] := by
  conv_lhs => rw [h.opened_eq]
  exact kept_append

theorem Represents.stream_notMem (h : Represents settings bytes s) :
    s.entry.stream ∉ kept settings.hlsRotateCount s.log.opened.dropLast := by
  have hnodup := h.nodup
  rw [h.opened_eq, List.nodup_append] at hnodup
  exact fun hmem => hnodup.2.2 _ (mem_of_mem_kept hmem) _ (List.mem_singleton_self _) rfl

theorem Represents.reverse_filenames (h : Represents settings bytes s) :
    s.entry.filenames.reverse = "" :: (List.replicate (settings.hlsRotateCount + 1 -
      s.log.opened.length) "" ++ kept (settings.hlsRotateCount + 1) s.log.opened) := by
  rw [h.filenames, List.reverse_append, reverse_recent]
  rfl

theorem Represents.disk_empty (h : Represents settings bytes s) : s.disk "" = none := by
  rw [← Option.not_isSome_iff_eq_none, h.holding.disk]
  exact fun hmem => h.ne_empty (mem_of_mem_kept hmem) rfl

/-- Blanks do not count. -/
theorem filterMap_blank {β : Type} {f : String → Option β} (hf : f "" = none) (n : Nat)
    (names : List String) :
    ("" :: (List.replicate n "" ++ names)).filterMap f = names.filterMap f := by
  rw [List.filterMap_cons_none hf, List.filterMap_append, List.filterMap_replicate_of_none hf,
    List.nil_append]

theorem Represents.chunksKept (h : Represents settings s.log.buffers.flatten s) :
    ChunksKept settings s := by
  have hnames : ∀ name ∈ kept (settings.hlsRotateCount + 1) s.log.opened, name ≠ "" :=
    fun name hname => h.ne_empty (mem_of_mem_kept hname)
  have hfilter : s.entry.filenames.reverse.filter (· ≠ "") =
      kept (settings.hlsRotateCount + 1) s.log.opened := by
    rw [h.reverse_filenames, List.filter_cons_of_neg (by simp), List.filter_append,
      List.filter_replicate_of_neg (by simp), List.nil_append, List.filter_eq_self]
    simpa using hnames
  have hnodup := h.nodup
  rw [← h.holding.order, List.nodup_append] at hnodup
  refine ⟨fun name => ?_, fun _ => h.sequence.symm, ?_, ?_, h.playlist, fun hlt => ?_,
    fun name hname => ⟨?_, ?_⟩, hnodup.1⟩
  · rw [h.holding.disk, ← hfilter, List.mem_filter, List.mem_reverse]
    simp
  · rw [hfilter, h.holding.order]
  · rw [h.reverse_filenames, filterMap_blank h.disk_empty, h.holding.written]
  · rw [length_kept, List.length_dropLast]
    omega
  · rintro rfl
    exact h.stream_notMem hname
  · intro hremoved
    refine hnodup.2.2 name hremoved name ?_ rfl
    rw [h.kept_eq]
    exact List.mem_append_left _ hname

/-- What is written goes to the end of the last chunk. -/
theorem Represents.fwrite (h : Represents settings bytes s) (data : List UInt8) :
    Represents settings (bytes ++ data) (s.fwrite data) := by
  have hmem : s.entry.stream ∈ kept (settings.hlsRotateCount + 1) s.log.opened := by
    rw [h.kept_eq]
    exact List.mem_append_right _ (List.mem_singleton_self _)
  obtain ⟨content, hcontent⟩ :=
    Option.isSome_iff_exists.mp ((h.holding.disk s.entry.stream).mpr hmem)
  refine { h with holding := ⟨fun name => ?_, h.holding.order, ?_⟩ }
  · refine Iff.trans ?_ (h.holding.disk name)
    by_cases heq : name = s.entry.stream
    · subst heq
      simp [State.fwrite]
    · simp [State.fwrite, Function.update_of_ne heq]
  · have hwritten := h.holding.written
    rw [h.kept_eq, List.filterMap_append] at hwritten
    have hold : (kept settings.hlsRotateCount s.log.opened.dropLast).filterMap
        (s.fwrite data).disk =
          (kept settings.hlsRotateCount s.log.opened.dropLast).filterMap s.disk := by
      refine List.filterMap_congr fun name hname => Function.update_of_ne ?_ _ _
      rintro rfl
      exact h.stream_notMem hname
    have hnew : (s.fwrite data).disk s.entry.stream = some (content ++ data) := by
      simp [State.fwrite, hcontent]
    change (s.log.removed.map Prod.snd ++ (kept (settings.hlsRotateCount + 1)
      s.log.opened).filterMap (s.fwrite data).disk).flatten = bytes ++ data
    rw [h.kept_eq, List.filterMap_append, hold, ← hwritten]
    simp [hnew, hcontent]

/-- `memmove` and the new name at the front. -/
theorem set_shifted {α : Type} {names front : List α} (h : names ≠ []) (name : α) :
    (names.take 1 ++ front).set 0 name = name :: front := by
  cases names with
  | nil => exact absurd rfl h
  | cons first names => rfl

theorem Represents.shiftNames (h : Represents settings bytes s) (accessTime : UInt32) :
    (s.shiftNames accessTime).entry.filenames = recent (settings.hlsRotateCount + 2)
      (s.log.opened ++ [chunkName settings.serviceId accessTime]) "" := by
  have hne : s.entry.filenames ≠ [] := by
    rw [h.filenames]
    simp
  have htake : s.entry.filenames.take (settings.hlsRotateCount + 1) =
      recent (settings.hlsRotateCount + 1) s.log.opened "" := by
    rw [h.filenames]
    exact List.take_left' length_recent
  rw [State.shiftNames]
  simp only [h.filenamesNum, h.serviceId, set_shifted hne]
  rw [show settings.hlsRotateCount + 2 - 1 = settings.hlsRotateCount + 1 by omega, htake,
    recent_append]

/-- The playlist lists the chunks completed last. -/
theorem Represents.segments (h : Represents settings bytes s) (accessTime : UInt32) :
    (s.shiftNames accessTime).segments = kept settings.hlsRotateCount s.log.opened := by
  have hnum : (s.shiftNames accessTime).entry.filenamesNum - 1 =
      settings.hlsRotateCount + 1 := by
    change s.entry.filenamesNum - 1 = _
    rw [h.filenamesNum]
    rfl
  have htake :
      (recent (settings.hlsRotateCount + 1) s.log.opened "").take settings.hlsRotateCount =
        recent settings.hlsRotateCount s.log.opened "" := by
    rw [recent_succ]
    exact List.take_left' length_recent
  rw [State.segments, h.shiftNames, hnum, recent_append, List.take_succ_cons, htake,
    List.drop_succ_cons, List.drop_zero, reverse_recent, List.filter_append,
    List.filter_replicate_of_neg (by simp), List.nil_append, List.filter_eq_self]
  simpa using fun name hname => h.ne_empty (mem_of_mem_kept hname)

/-- The playlist after the names are shifted and before the new chunk is opened. -/
theorem Represents.writePlaylist (h : Represents settings bytes s) {accessTime : UInt32}
    (hwrite : (s.shiftNames accessTime).writePlaylist settings opens = some s') :
    s' = { s.shiftNames accessTime with
      playlist :=
        if s.log.opened.length < settings.hlsRotateCount then none
        else some (playlistLines settings.hlsRotateTime (s.log.opened.length - 1)
          (kept settings.hlsRotateCount s.log.opened)) } := by
  have hsequence := h.sequence
  have hpos := settings.hlsRotateCount_pos
  have hcond : (s.shiftNames accessTime).entry.filenamesNum - 3 ≤
      (s.shiftNames accessTime).entry.sequence ↔
        settings.hlsRotateCount ≤ s.log.opened.length := by
    change s.entry.filenamesNum - 3 ≤ s.entry.sequence ↔ _
    rw [h.filenamesNum]
    omega
  rw [State.writePlaylist] at hwrite
  split at hwrite
  case isTrue hle =>
    obtain ⟨-, ⟨⟩⟩ := Option.ite_none_right_eq_some.mp hwrite
    rw [if_neg (Nat.not_lt.mpr (hcond.mp hle)), h.segments, ← hsequence]
    rfl
  case isFalse hlt =>
    cases hwrite
    have hlt := Nat.not_le.mp (hcond.not.mp hlt)
    have hnone := h.playlist
    rw [if_pos (Nat.le_of_lt hlt)] at hnone
    rw [if_pos hlt, ← hnone]
    rfl

/-- A new chunk is empty. -/
theorem Holding.fopen {n : Nat} (h : Holding n bytes s) {name : String}
    (hname : name ∉ s.log.opened) : Holding (n + 1) bytes (s.fopen name) := by
  have hkept : kept (n + 1) (s.fopen name).log.opened = kept n s.log.opened ++ [name] :=
    kept_append
  have hnotMem : name ∉ kept n s.log.opened := fun hmem => hname (mem_of_mem_kept hmem)
  constructor
  · intro other
    rw [hkept, List.mem_append, List.mem_singleton, ← h.disk]
    by_cases heq : other = name
    · subst heq
      simp [State.fopen]
    · simp [State.fopen, heq]
  · rw [hkept, ← List.append_assoc]
    exact congrArg (· ++ [name]) h.order
  · have hold : (kept n s.log.opened).filterMap (s.fopen name).disk =
        (kept n s.log.opened).filterMap s.disk := by
      refine List.filterMap_congr fun other hother => Function.update_of_ne ?_ _ _
      rintro rfl
      exact hnotMem hother
    rw [hkept, List.filterMap_append, hold, ← h.written]
    simp [State.fopen]

/-- The oldest chunk is removed. -/
theorem Holding.remove {n : Nat} (h : Holding (n + 1) bytes s) (hlt : n < s.log.opened.length)
    (hnodup : s.log.opened.Nodup) :
    Holding n bytes (s.remove (s.log.opened.reverse.getD n "")) := by
  have hkept : kept (n + 1) s.log.opened =
      s.log.opened.reverse.getD n "" :: kept n s.log.opened := kept_succ hlt
  generalize s.log.opened.reverse.getD n "" = oldest at hkept ⊢
  have hnotMem : oldest ∉ kept n s.log.opened := by
    have hsub : (kept (n + 1) s.log.opened).Nodup := hnodup.sublist (List.drop_sublist _ _)
    rw [hkept, List.nodup_cons] at hsub
    exact hsub.1
  obtain ⟨content, hcontent⟩ := Option.isSome_iff_exists.mp ((h.disk oldest).mpr (by simp [hkept]))
  constructor
  · intro name
    by_cases heq : name = oldest
    · subst heq
      simp [State.remove, hnotMem]
    · refine Iff.trans ?_ ((h.disk name).trans ?_)
      · simp [State.remove, Function.update_of_ne heq]
      · rw [hkept, List.mem_cons]
        exact or_iff_right heq
  · have horder := h.order
    rw [hkept] at horder
    simpa [State.remove] using horder
  · have hwritten := h.written
    have hold : (kept n s.log.opened).filterMap (s.remove oldest).disk =
        (kept n s.log.opened).filterMap s.disk := by
      refine List.filterMap_congr fun name hname => Function.update_of_ne ?_ _ _
      rintro rfl
      exact hnotMem hname
    rw [hkept, List.filterMap_cons_some hcontent] at hwritten
    change ((s.log.removed ++ [(oldest, (s.disk oldest).getD [])]).map Prod.snd ++
      (kept n s.log.opened).filterMap (s.remove oldest).disk).flatten = bytes
    rw [hold, hcontent, ← hwritten]
    simp

/-- With few chunks nothing is to be removed. -/
theorem Holding.of_length_le {n : Nat} (h : Holding (n + 1) bytes s)
    (hle : s.log.opened.length ≤ n) : Holding n bytes s := by
  have hkept : kept n s.log.opened = kept (n + 1) s.log.opened := by
    rw [kept_of_length_le hle, kept_of_length_le (Nat.le_succ_of_le hle)]
  exact ⟨by rw [hkept]; exact h.disk, by rw [hkept]; exact h.order, by rw [hkept]; exact h.written⟩

/-- The names are those of the last chunks again, and the file behind them is gone. -/
theorem Holding.deleteOldest {n : Nat} (h : Holding (n + 1) bytes s)
    (hnum : s.entry.filenamesNum = n + 1)
    (hnames : s.entry.filenames = recent (n + 1) s.log.opened "")
    (hne : ∀ name ∈ s.log.opened, name ≠ "") (hnodup : s.log.opened.Nodup) :
    Holding n bytes s.deleteOldest ∧
      s.deleteOldest.entry = { s.entry with filenames := recent n s.log.opened "" ++ [""] } ∧
      s.deleteOldest.log.opened = s.log.opened ∧ s.deleteOldest.log.buffers = s.log.buffers ∧
      s.deleteOldest.playlist = s.playlist := by
  have hsplit : s.entry.filenames =
      recent n s.log.opened "" ++ [s.log.opened.reverse.getD n ""] := by
    rw [hnames, recent_succ]
  have hget : s.entry.filenames.getD (s.entry.filenamesNum - 1) "" =
      s.log.opened.reverse.getD n "" := by
    rw [hsplit, hnum, Nat.add_sub_cancel, List.getD_eq_getElem?_getD,
      List.getElem?_append_right (by rw [length_recent]), length_recent, Nat.sub_self]
    rfl
  have hset : s.entry.filenames.set (s.entry.filenamesNum - 1) "" =
      recent n s.log.opened "" ++ [""] := by
    rw [hsplit, hnum, Nat.add_sub_cancel, List.set_append_right _ _ (by rw [length_recent]),
      length_recent, Nat.sub_self]
    rfl
  simp only [State.deleteOldest, hget]
  by_cases hlt : n < s.log.opened.length
  · have hmem : s.log.opened.reverse.getD n "" ∈ s.log.opened := by
      rw [List.getD_eq_getElem?_getD, List.getElem?_eq_getElem (by rwa [List.length_reverse])]
      exact List.mem_reverse.mp (List.getElem_mem _)
    rw [if_neg (hne _ hmem)]
    have hremoved := h.remove hlt hnodup
    exact ⟨⟨hremoved.disk, hremoved.order, hremoved.written⟩,
      congrArg (fun names => { s.entry with filenames := names }) hset, rfl, rfl, rfl⟩
  · have hblank : s.log.opened.reverse.getD n "" = "" := by
      rw [List.getD_eq_getElem?_getD,
        List.getElem?_eq_none (by rw [List.length_reverse]; omega)]
      rfl
    rw [if_pos hblank]
    rw [hblank] at hsplit
    refine ⟨h.of_length_le (by omega), ?_, rfl, rfl, rfl⟩
    rw [← hsplit]

/-- Of increasing times the last one is the latest. -/
theorem le_of_getLast? {times : List UInt32} {last : UInt32} (hincreasing : times.Pairwise (· < ·))
    (hlast : times.getLast? = some last) : ∀ t ∈ times, t ≤ last := by
  intro t ht
  rw [← List.dropLast_append_getLast? _ hlast] at ht hincreasing
  rcases List.mem_append.mp ht with ht | ht
  · exact UInt32.le_of_lt ((List.pairwise_append.mp hincreasing).2.2 t ht _
      (List.mem_singleton_self _))
  · exact UInt32.le_of_eq (List.mem_singleton.mp ht)

theorem Represents.notMem_opened (h : Represents settings bytes s) {accessTime : UInt32}
    (hlater : s.entry.rotateTime < accessTime) :
    chunkName settings.serviceId accessTime ∉ s.log.opened := by
  obtain ⟨times, hopened, hincreasing, hlast⟩ := h.times
  rw [hopened]
  rintro hmem
  obtain ⟨t, ht, hname⟩ := List.mem_map.mp hmem
  have hle := le_of_getLast? hincreasing hlast t ht
  rw [chunkName_inj hname] at hle
  exact absurd hlater (UInt32.not_lt.mpr hle)

/-- A rotation keeps the bytes, the files and the playlist in step. -/
theorem Represents.rotate (h : Represents settings bytes s) {accessTime : UInt32}
    (hlater : s.entry.rotateTime < accessTime)
    (hrotate : s.hlsEntryRotate settings opens accessTime = some s') :
    Represents settings bytes s' ∧ s'.entry.needRotate = false ∧
      s'.log.buffers = s.log.buffers := by
  rw [State.hlsEntryRotate, if_pos h.initialized] at hrotate
  obtain ⟨shifted, hplaylist, hrotate⟩ := Option.bind_eq_some_iff.mp hrotate
  have hshifted := h.writePlaylist hplaylist
  obtain ⟨-, hrotate⟩ := Option.ite_none_right_eq_some.mp hrotate
  have hfilenames : shifted.entry.filenames = recent (settings.hlsRotateCount + 2)
      (s.log.opened ++ [chunkName settings.serviceId accessTime]) "" := by
    rw [hshifted]
    exact h.shiftNames accessTime
  have hfirst : shifted.entry.filenames.getD 0 "" = chunkName settings.serviceId accessTime := by
    rw [hfilenames, recent_append]
    rfl
  have hnew := h.notMem_opened hlater
  have hholding : Holding (settings.hlsRotateCount + 1) bytes shifted := by
    rw [hshifted]
    exact ⟨h.holding.disk, h.holding.order, h.holding.written⟩
  have hlog : shifted.log = s.log := by rw [hshifted]; rfl
  have hnodup : (s.log.opened ++ [chunkName settings.serviceId accessTime]).Nodup := by
    rw [List.nodup_append]
    refine ⟨h.nodup, List.nodup_singleton _, fun name hname name' hname' heq => hnew ?_⟩
    rw [← List.mem_singleton.mp hname', ← heq]
    exact hname
  have hopened : (shifted.fopen (shifted.entry.filenames.getD 0 "")).log.opened =
      s.log.opened ++ [chunkName settings.serviceId accessTime] := by
    rw [hfirst, ← hlog]
    rfl
  have hfopen : Holding (settings.hlsRotateCount + 1 + 1) bytes
      (shifted.fopen (shifted.entry.filenames.getD 0 "")) :=
    hholding.fopen (by rw [hlog, hfirst]; exact hnew)
  obtain ⟨hdeleted, hentry, hdeletedOpened, hbuffers, hdeletedPlaylist⟩ :=
    hfopen.deleteOldest
      (by rw [hshifted]; exact h.filenamesNum) (by rw [hopened]; exact hfilenames)
      (by
        rw [hopened]
        intro name hname
        rcases List.mem_append.mp hname with hname | hname
        · exact h.ne_empty hname
        · exact List.mem_singleton.mp hname ▸ chunkName_ne_empty _ _)
      (by rw [hopened]; exact hnodup)
  rw [hopened] at hentry hdeletedOpened
  generalize (shifted.fopen (shifted.entry.filenames.getD 0 "")).deleteOldest = deleted at *
  cases hrotate
  have hsequence : deleted.entry.sequence = s.entry.sequence := by rw [hentry, hshifted]; rfl
  have hbound := h.sequence_le
  have hlt : s.entry.rotateTime.toNat < accessTime.toNat := UInt32.lt_iff_toNat_lt.mp hlater
  have htime := accessTime.toNat_lt
  have hnext : (deleted.entry.sequence + 1) % 2 ^ 32 = s.entry.sequence + 1 := by
    rw [hsequence, Nat.mod_eq_of_lt (by omega)]
  have hlength : (s.log.opened ++ [chunkName settings.serviceId accessTime]).length =
      s.log.opened.length + 1 := by simp
  refine ⟨⟨?_, ?_, ?_, ?_, ?_, ?_, ?_, ?_, ⟨hdeleted.disk, hdeleted.order, hdeleted.written⟩, ?_⟩,
    rfl, ?_⟩
  · change deleted.entry.initialized = true
    rw [hentry, hshifted]
    exact h.initialized
  · change deleted.entry.serviceId = _
    rw [hentry, hshifted]
    exact h.serviceId
  · change deleted.entry.filenamesNum = _
    rw [hentry, hshifted]
    exact h.filenamesNum
  · obtain ⟨times, htimes, hincreasing, hlast⟩ := h.times
    refine ⟨times ++ [accessTime], ?_, List.pairwise_append.mpr ⟨hincreasing,
      List.pairwise_singleton _ _, fun t ht t' ht' => ?_⟩, by simp⟩
    · rw [hdeletedOpened, htimes]
      simp
    · have hle := le_of_getLast? hincreasing hlast t ht
      rw [List.mem_singleton.mp ht']
      exact UInt32.lt_of_le_of_lt hle hlater
  · change (deleted.entry.sequence + 1) % 2 ^ 32 + 1 = deleted.log.opened.length
    rw [hnext, hdeletedOpened, hlength, h.sequence]
  · change (deleted.entry.sequence + 1) % 2 ^ 32 ≤ accessTime.toNat
    omega
  · change deleted.entry.filenames = _
    rw [hentry, hdeletedOpened]
  · change deleted.log.opened.getLast? = some deleted.entry.stream
    rw [hdeletedOpened, hentry, hfirst, List.getLast?_append]
    rfl
  · change deleted.playlist = _
    rw [hdeletedPlaylist, hdeletedOpened, hlength, List.dropLast_concat, hshifted]
    exact if_congr Nat.lt_iff_add_one_le rfl rfl
  · change deleted.log.buffers = _
    rw [hbuffers]
    change shifted.log.buffers = _
    rw [hlog]

/-- Changes of what the files do not depend on. -/
theorem Represents.congr (h : Represents settings bytes s) {entry : Entry} {log : Log}
    (hinitialized : entry.initialized = s.entry.initialized)
    (hserviceId : entry.serviceId = s.entry.serviceId)
    (hfilenamesNum : entry.filenamesNum = s.entry.filenamesNum)
    (hrotateTime : entry.rotateTime = s.entry.rotateTime)
    (hsequence : entry.sequence = s.entry.sequence)
    (hfilenames : entry.filenames = s.entry.filenames) (hstream : entry.stream = s.entry.stream)
    (hopened : log.opened = s.log.opened) (hremoved : log.removed = s.log.removed) :
    Represents settings bytes { s with entry, log } := by
  refine ⟨hinitialized.trans h.initialized, hserviceId.trans h.serviceId,
    hfilenamesNum.trans h.filenamesNum, ?_, ?_, ?_, ?_, ?_, ⟨?_, ?_, ?_⟩, ?_⟩ <;>
      simp only [hopened, hremoved, hrotateTime, hsequence, hfilenames, hstream]
  · exact h.times
  · exact h.sequence
  · exact h.sequence_le
  · exact h.filenames
  · exact h.stream
  · exact h.holding.disk
  · exact h.holding.order
  · exact h.holding.written
  · exact h.playlist

theorem start_hlsEntryInitialize {accessTime : UInt32}
    (h : start.hlsEntryInitialize settings opens accessTime = some s) :
    Represents settings [] s ∧ s.entry.needRotate = false ∧ s.log.buffers = [] := by
  obtain ⟨-, ⟨⟩⟩ := Option.ite_none_right_eq_some.mp h
  have hpos := settings.hlsRotateCount_pos
  have hkept : kept (settings.hlsRotateCount + 1) [chunkName settings.serviceId accessTime] =
      [chunkName settings.serviceId accessTime] := kept_of_length_le (by simp)
  refine ⟨⟨rfl, rfl, rfl, ⟨[accessTime], rfl, List.pairwise_singleton _ _, rfl⟩, rfl,
    Nat.zero_le _, ?_, rfl, ⟨fun name => ?_, ?_, ?_⟩, ?_⟩, rfl, rfl⟩
  · change (List.replicate (settings.hlsRotateCount + 2) "").set 0 _ =
      recent (settings.hlsRotateCount + 1) ([] ++ [_]) "" ++ [""]
    rw [recent_append, recent_nil, List.replicate_succ, List.set_cons_zero, List.replicate_succ']
    rfl
  · change ((Function.update (fun _ => none) (chunkName settings.serviceId accessTime)
      (some [])) name).isSome ↔ name ∈ kept _ [chunkName settings.serviceId accessTime]
    rw [hkept, List.mem_singleton]
    by_cases heq : name = chunkName settings.serviceId accessTime
    · simp [heq]
    · simp [heq]
  · exact hkept
  · change (([] : List (List UInt8)) ++ (kept _ [chunkName settings.serviceId accessTime]).filterMap
      (Function.update (fun _ => none) (chunkName settings.serviceId accessTime)
        (some []))).flatten = []
    rw [hkept]
    simp
  · exact (if_pos (show [chunkName settings.serviceId accessTime].length ≤ _ from hpos)).symm

/-- What comes before the I-frame is written to the old chunk, and the rest is left. -/
theorem Represents.splitAtIframe (h : Represents settings bytes s) {curTime : UInt32}
    {buf outbuf : List UInt8}
    (hlater : s.entry.needRotate → (hlsFindIframe buf).isSome → s.entry.rotateTime < curTime)
    (hsplit : s.splitAtIframe settings opens curTime buf = some (s', outbuf)) :
    ∃ front, front ++ outbuf = buf ∧ Represents settings (bytes ++ front) s' ∧
      s'.log.buffers = s.log.buffers := by
  rw [State.splitAtIframe] at hsplit
  split at hsplit
  case isTrue hneed =>
    split at hsplit
    case h_1 pos hfound =>
      obtain ⟨rotated, hrotate, hpair⟩ := Option.map_eq_some_iff.mp hsplit
      cases hpair
      obtain ⟨hrep, -, hbuffers⟩ := (h.fwrite (buf.take pos)).rotate
        (hlater hneed (by rw [hfound]; rfl)) hrotate
      exact ⟨buf.take pos, List.take_append_drop _ _,
        hrep.congr rfl rfl rfl rfl rfl rfl rfl rfl rfl, hbuffers⟩
    case h_2 =>
      cases hsplit
      exact ⟨[], rfl, by rwa [List.append_nil], rfl⟩
  case isFalse =>
    cases hsplit
    exact ⟨[], rfl, by rwa [List.append_nil], rfl⟩

/-- The entry is new, or its files hold the buffers written so far. -/
def Invariant (settings : Settings) (s : State) : Prop :=
  s = start ∨ Represents settings s.log.buffers.flatten s

theorem Invariant.hlsEntryFind (h : Invariant settings s) {curTime : UInt32}
    (hfind : s.hlsEntryFind settings opens curTime = some s') :
    Represents settings s'.log.buffers.flatten s' ∧ s'.log.buffers = s.log.buffers ∧
      (s'.entry.needRotate = false ∨ s' = s) := by
  rw [State.hlsEntryFind] at hfind
  rcases h with rfl | h
  · obtain ⟨hrep, hneed, hbuffers⟩ := start_hlsEntryInitialize hfind
    exact ⟨by rwa [hbuffers], hbuffers, .inl hneed⟩
  · rw [if_pos h.initialized] at hfind
    cases hfind
    exact ⟨h, rfl, .inr rfl⟩

theorem Invariant.hlsWorkerMain (h : Invariant settings s) {arrival : Arrival}
    (hlater : Later settings s (.worker opens arrival))
    (hstep : s.hlsWorkerMain settings opens arrival = some s') : Invariant settings s' := by
  rw [State.hlsWorkerMain] at hstep
  split at hstep
  case isTrue =>
    cases hstep
    exact h
  case isFalse hskips =>
    obtain ⟨found, hfind, hstep⟩ := Option.bind_eq_some_iff.mp hstep
    obtain ⟨⟨split, outbuf⟩, hsplit, hstep⟩ := Option.map_eq_some_iff.mp hstep
    cases hstep
    obtain ⟨hrep, hbuffers, hneed⟩ := h.hlsEntryFind hfind
    have hrepTouched : Represents settings found.log.buffers.flatten
        { found with
          entry := { found.entry with
            accessTime := arrival.curTime, hasTraffic := arrival.hasTraffic } } :=
      hrep.congr rfl rfl rfl rfl rfl rfl rfl rfl rfl
    have hlaterSplit : found.entry.needRotate → (hlsFindIframe arrival.buf).isSome →
        found.entry.rotateTime < arrival.curTime := by
      intro hrotate hiframe
      rcases hneed with hneed | rfl
      · rw [hneed] at hrotate
        cases hrotate
      · exact hlater hrotate hiframe (by simpa using hskips)
    obtain ⟨front, hfront, hrepSplit, hbuffersSplit⟩ :=
      hrepTouched.splitAtIframe hlaterSplit hsplit
    right
    have hbytes : (split.log.buffers ++ [arrival.buf]).flatten =
        found.log.buffers.flatten ++ front ++ outbuf := by
      rw [List.append_assoc, hfront, hbuffersSplit, List.flatten_append]
      simp
    change Represents settings (split.log.buffers ++ [arrival.buf]).flatten _
    rw [hbytes]
    exact (hrepSplit.fwrite outbuf).congr rfl rfl rfl rfl rfl rfl rfl rfl rfl

theorem Invariant.hlsPeriodicTask (h : Invariant settings s) {curTime : UInt32}
    (hlater : Later settings s (.periodic opens curTime))
    (hstep : s.hlsPeriodicTask settings opens curTime = some s') : Invariant settings s' := by
  rw [State.hlsPeriodicTask] at hstep
  split at hstep
  case isTrue hold =>
    rcases h with rfl | h
    · cases hold
    · right
      split at hstep
      case isTrue =>
        cases hstep
        exact h.congr rfl rfl rfl rfl rfl rfl rfl rfl rfl
      case isFalse hnow =>
        obtain ⟨hrep, -, hbuffers⟩ := h.rotate (hlater hold (by simpa using hnow)) hstep
        rwa [hbuffers]
  case isFalse =>
    cases hstep
    exact h

theorem Invariant.step (h : Invariant settings s) {e : Event} (hlater : Later settings s e)
    (hstep : step settings s e = some s') : Invariant settings s' := by
  cases e with
  | worker opens arrival => exact h.hlsWorkerMain hlater hstep
  | periodic opens curTime => exact h.hlsPeriodicTask hlater hstep

theorem Invariant.represents (h : Invariant settings s) (hused : s.entry.initialized = true) :
    Represents settings s.log.buffers.flatten s := by
  rcases h with rfl | hrep
  · cases hused
  · exact hrep

theorem Invariant.chunksKept (h : Invariant settings s) : ChunksKept settings s := by
  rcases h with rfl | hrep
  · have hpos := settings.hlsRotateCount_pos
    constructor <;> simp [start, kept]
  · exact hrep.chunksKept

end represents

/-! One packet, a rotation and another packet. -/

def twoChunks : Settings where
  serviceId := 7
  hlsRotateTime := 10
  hlsRotateCount := 1
  hlsRotateCount_pos := Nat.one_pos
  hlsRotateIframe := false
  dontSendScrambled := false
  playlistIgnoreScrambledRatio := 0

def packetAt (curTime : UInt32) : Event :=
  .worker ⟨true, true⟩ ⟨List.replicate 188 0, false, 0, true, curTime⟩

end MuMuDVB.Hls
