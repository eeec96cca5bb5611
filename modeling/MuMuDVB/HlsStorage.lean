import MuMuDVB.HlsMasterRuns

/-!
# The storage directory of HLS

All entries of `hls_fds` write to one directory. The periodic thread rotates and
removes entries and writes the master playlist and the metrics; the main thread
writes the buffers, and at the end it stops: it removes all entries, and it does
not wait for the periodic thread, which may be at any place then. What the master
playlist and the metrics say is not followed here.
-/
namespace MuMuDVB.HlsStorage

open RecordedRun Hls

/-- An entry, with the name of its playlist. -/
structure Stored where
  entry : Entry
  namePlaylist : String

/-- `memset(hls_entry, 0, sizeof(*hls_entry))`. -/
def cleared : Stored := ⟨Hls.start.entry, ""⟩

/-- The files of the directory. -/
abbrev Directory := String → Option (List UInt8)

/-- `remove`, when there is such a file. -/
def removeFile (dir : Directory) (name : String) : Directory := Function.update dir name none

/-- `fopen`, `fwrite` and `fclose`. -/
def writeFile (dir : Directory) (name : String) (text : List UInt8) : Directory :=
  Function.update dir name (some text)

structure Storage where
  fds : List Stored
  dir : Directory
  /-- the entry that the periodic thread has found too old, before it takes the lock -/
  found : Option (Nat × UInt32)
  stopped : Bool

/-- `"%d.m3u8"` -/
def playlistName (serviceId : Int) : String := toString serviceId ++ ".m3u8"

def playlistText (lines : List String) : List UInt8 := lines.flatMap fun line =>
  CString.bytes line ++ [10]

def hlsEntryFind (serviceId : Int) (fds : List Stored) : Option Nat :=
  (fds.findIdx? fun fd => fd.entry.initialized && fd.entry.serviceId == serviceId).or
    (fds.findIdx? fun fd => !fd.entry.initialized)

/-- The entry with the directory, as the functions on one entry take it. -/
def alone (dir : Directory) (fd : Stored) : State := ⟨fd.entry, dir, none, ⟨[], [], []⟩⟩

/-- What a function on one entry has made of it and of the directory. -/
def settle (s : Storage) (i : Nat) (namePlaylist : String) (t : State) : Storage :=
  { s with
    fds := s.fds.set i ⟨t.entry, namePlaylist⟩
    dir := match t.playlist with
      | some lines => writeFile t.disk namePlaylist (playlistText lines)
      | none => t.disk }

section operations

variable (settings : Settings) (s : Storage)

/-- Without an entry that is left the program exits, and without a stream it does not write. -/
def hlsWorkerMain (opens : Opens) (serviceId : Int) (arrival : Arrival) : Option Storage :=
  if settings.skips arrival then some s
  else
    (hlsEntryFind serviceId s.fds).bind fun i =>
      let fd := s.fds.getD i cleared
      ((alone s.dir fd).hlsWorkerMain { settings with serviceId } opens arrival).map
        (settle s i (if fd.entry.initialized then fd.namePlaylist else playlistName serviceId))

/-- The condition of the loop over the entries. -/
def look (i : Nat) (curTime : UInt32) : Storage :=
  let fd := s.fds.getD i cleared
  { s with found :=
      if fd.entry.initialized && fd.entry.rotateTime < curTime - settings.hlsRotateTime
        then some (i, curTime) else none }

/-- The body, under the lock; an entry that is not used any more is not rotated. -/
def turn (opens : Opens) : Option Storage :=
  match s.found with
  | none => some s
  | some (i, curTime) =>
    let s := { s with found := none }
    let fd := s.fds.getD i cleared
    if !fd.entry.needRotate && settings.hlsRotateIframe then
      some { s with fds := s.fds.set i { fd with entry := { fd.entry with needRotate := true } } }
    else if fd.entry.initialized then
      ((alone s.dir fd).hlsEntryRotate settings opens curTime).map (settle s i fd.namePlaylist)
    else some s

end operations

/-- The names that `hls_cleanup_files` removes. -/
def ownNames (fd : Stored) : List String :=
  (fd.entry.filenames ++ [fd.namePlaylist]).filter (· ≠ "")

def hlsCleanupFiles (dir : Directory) (fd : Stored) : Directory :=
  (ownNames fd).foldl removeFile dir

def expired (hlsRotateTime curTime : UInt32) (fd : Stored) : Bool :=
  fd.entry.initialized && fd.entry.accessTime < curTime - hlsRotateTime * 3

/-- `hls_array_cleanup`, with `hls_entry_destroy` for each entry that is too old. -/
def hlsArrayCleanup (s : Storage) (hlsRotateTime curTime : UInt32) : Storage :=
  { s with
    dir := (s.fds.filter (expired hlsRotateTime curTime)).foldl hlsCleanupFiles s.dir
    fds := s.fds.map fun fd => if expired hlsRotateTime curTime fd then cleared else fd }

/-- `~0` -/
def maxTime : UInt32 := 0xffffffff

def metrics : String := "metrics"

def hlsStop (hlsPlaylistName : String) (s : Storage) : Storage :=
  let s := hlsArrayCleanup s 0 maxTime
  { s with
    dir := removeFile (removeFile s.dir hlsPlaylistName) metrics
    stopped := true }

inductive Event where
  /-- a buffer of a channel -/
  | worker (opens : Opens) (serviceId : Int) (arrival : Arrival)
  | look (i : Nat) (curTime : UInt32)
  | turn (opens : Opens)
  | cleanup (curTime : UInt32)
  /-- the master playlist is written, with this text -/
  | master (text : List UInt8)
  | metrics (text : List UInt8)
  | stop

section system

variable (settings : Settings) (hlsPlaylistName : String)

def step (s : Storage) : Event → Option Storage
  | .worker opens serviceId arrival =>
    if s.stopped then none else hlsWorkerMain settings s opens serviceId arrival
  | .look i curTime => some (look settings s i curTime)
  | .turn opens => turn settings s opens
  | .cleanup curTime => some (hlsArrayCleanup s settings.hlsRotateTime curTime)
  | .master text => some { s with dir := writeFile s.dir hlsPlaylistName text }
  | .metrics text => some { s with dir := writeFile s.dir metrics text }
  | .stop => if s.stopped then none else some (hlsStop hlsPlaylistName s)

/-- The directory may have files from before. -/
def start (before : Directory) : Storage :=
  ⟨List.replicate HlsArray.maxChannels cleared, before, none, false⟩

def storageSystem (before : Directory) : System Storage Event where
  Initial s := s = start before
  Step s e s' := step settings hlsPlaylistName s e = some s'

end system

/-! ## One entry -/

/-- The array of the names has its places, and the last one is free. -/
structure Slots (settings : Settings) (entry : Entry) : Prop where
  filenamesNum : entry.filenamesNum = settings.hlsRotateCount + 2
  length : entry.filenames.length = entry.filenamesNum
  last : entry.filenames.getLast? = some ""

/-- The files of the directory are those of others and the ones that the entry names. -/
structure Covers (settings : Settings) (Other : String → Prop) (t : State) : Prop where
  slots : t.entry.initialized = true → Slots settings t.entry
  files : ∀ name, (t.disk name).isSome → Other name ∨
    (t.entry.initialized = true ∧ name ∈ t.entry.filenames ∧ name ≠ "")

section entry

variable {settings settings' : Settings} {Other : String → Prop} {t t' : State} {opens : Opens}
  {accessTime : UInt32} {data : List UInt8}

theorem fwrite_isSome (t : State) (data : List UInt8) (name : String) :
    ((t.fwrite data).disk name).isSome = (t.disk name).isSome := by
  show (Function.update t.disk t.entry.stream _ name).isSome = _
  by_cases hname : name = t.entry.stream
  · rw [hname, Function.update_self, Option.isSome_map]
  · rw [Function.update_of_ne hname]

theorem Covers.fwrite (h : Covers settings Other t) (data : List UInt8) :
    Covers settings Other (t.fwrite data) :=
  ⟨h.slots, fun name hname => h.files name (by rwa [fwrite_isSome] at hname)⟩

theorem deleteOldest_spec {front : List String} {old : String}
    (hnames : t.entry.filenames = front ++ [old]) (hnum : t.entry.filenamesNum = front.length + 1) :
    t.deleteOldest.entry = { t.entry with filenames := front ++ [""] } ∧
      t.deleteOldest.disk = if old = "" then t.disk else Function.update t.disk old none := by
  have hget : t.entry.filenames.getD (t.entry.filenamesNum - 1) "" = old := by
    rw [hnames, hnum, Nat.add_sub_cancel, List.getD_eq_getElem?_getD,
      List.getElem?_concat_length, Option.getD_some]
  rw [State.deleteOldest, hget]
  by_cases hold : old = ""
  · rw [if_pos hold, if_pos hold, ← hold, ← hnames]
    exact ⟨rfl, rfl⟩
  · rw [if_neg hold, if_neg hold]
    refine ⟨?_, rfl⟩
    show ({ t.entry with
      filenames := t.entry.filenames.set (t.entry.filenamesNum - 1) "" } : Entry) = _
    rw [hnames, hnum, Nat.add_sub_cancel, List.set_append_right _ _ (Nat.le_refl _), Nat.sub_self]
    rfl

/-- The names but the last one move on, and the file of the one that gets to the last place goes. -/
theorem hlsEntryRotate_spec (hslots : Slots settings t.entry)
    (hrotate : t.hlsEntryRotate settings' opens accessTime = some t') : ∃ front old,
      t.entry.filenames = front ++ [old, ""] ∧
      t'.entry.filenames = chunkName t.entry.serviceId accessTime :: front ++ [""] ∧
      t'.entry.filenamesNum = t.entry.filenamesNum ∧ t'.entry.initialized = t.entry.initialized ∧
      t'.entry.accessTime = t.entry.accessTime ∧ t'.entry.serviceId = t.entry.serviceId ∧
      t'.disk = if old = "" then
          Function.update t.disk (chunkName t.entry.serviceId accessTime) (some [])
        else Function.update (Function.update t.disk (chunkName t.entry.serviceId accessTime)
          (some [])) old none := by
  have hnum := hslots.filenamesNum
  have hlength := hslots.length
  have hpos := settings.hlsRotateCount_pos
  obtain ⟨firsts, hfirsts⟩ := List.getLast?_eq_some_iff.mp hslots.last
  have hlast : firsts ≠ [] := fun hnil => by
    rw [hfirsts, hnil] at hlength
    simp at hlength
    omega
  obtain ⟨front, old, rfl⟩ : ∃ front old, firsts = front ++ [old] :=
    ⟨_, _, (List.dropLast_append_getLast hlast).symm⟩
  have hnames : t.entry.filenames = front ++ [old, ""] := by simpa using hfirsts
  have hfront : front.length + 2 = t.entry.filenamesNum := by
    rw [← hlength, hnames]
    simp
  have hshift : (t.shiftNames accessTime).entry.filenames =
      chunkName t.entry.serviceId accessTime :: (front ++ [old]) := by
    show (t.entry.filenames.take 1 ++ t.entry.filenames.take (t.entry.filenamesNum - 1)).set 0 _ = _
    have htake : t.entry.filenames.take (t.entry.filenamesNum - 1) = front ++ [old] := by
      rw [hfirsts, List.take_append_of_le_length (by simp; omega),
        List.take_of_length_le (by simp; omega)]
    have hone : ∃ x, t.entry.filenames.take 1 = [x] := by
      cases front <;> simp [hnames]
    obtain ⟨x, hx⟩ := hone
    rw [htake, hx]
    rfl
  refine ⟨front, old, hnames, ?_⟩
  rw [State.hlsEntryRotate] at hrotate
  split at hrotate
  · obtain ⟨t₁, hplaylist, hrotate⟩ := Option.bind_eq_some_iff.mp hrotate
    have hwritten : t₁.entry = (t.shiftNames accessTime).entry ∧ t₁.disk = t.disk := by
      rw [State.writePlaylist] at hplaylist
      split at hplaylist
      · split at hplaylist
        · cases hplaylist
          exact ⟨rfl, rfl⟩
        · cases hplaylist
      · cases hplaylist
        exact ⟨rfl, rfl⟩
    obtain ⟨hentry, hdisk⟩ := hwritten
    split at hrotate
    · cases hrotate
      have hopened : (t₁.fopen (t₁.entry.filenames.getD 0 "")).entry.filenames =
          chunkName t.entry.serviceId accessTime :: front ++ [old] := by
        show t₁.entry.filenames = _
        rw [hentry, hshift]
        rfl
      have hcount : (t₁.fopen (t₁.entry.filenames.getD 0 "")).entry.filenamesNum =
          (chunkName t.entry.serviceId accessTime :: front).length + 1 := by
        show t₁.entry.filenamesNum = _
        rw [hentry, List.length_cons]
        exact hfront.symm
      have hfirst : t₁.entry.filenames.getD 0 "" = chunkName t.entry.serviceId accessTime := by
        rw [hentry, hshift]
        rfl
      obtain ⟨hdeleted, hremoved⟩ := deleteOldest_spec hopened hcount
      refine ⟨?_, ?_, ?_, ?_, ?_, ?_⟩
      · show (State.deleteOldest _).entry.filenames = _
        rw [hdeleted]
      · show (State.deleteOldest _).entry.filenamesNum = _
        rw [hdeleted]
        show t₁.entry.filenamesNum = _
        rw [hentry]
        rfl
      · show (State.deleteOldest _).entry.initialized = _
        rw [hdeleted]
        show t₁.entry.initialized = _
        rw [hentry]
        rfl
      · show (State.deleteOldest _).entry.accessTime = _
        rw [hdeleted]
        show t₁.entry.accessTime = _
        rw [hentry]
        rfl
      · show (State.deleteOldest _).entry.serviceId = _
        rw [hdeleted]
        show t₁.entry.serviceId = _
        rw [hentry]
        rfl
      · show (State.deleteOldest _).disk = _
        rw [hremoved]
        show (if old = "" then Function.update t₁.disk _ _
          else Function.update (Function.update t₁.disk _ _) old none) = _
        rw [hfirst, hdisk]
    · cases hrotate
  · cases hrotate

theorem Covers.congr (h : Covers settings Other t)
    (hinitialized : t'.entry.initialized = t.entry.initialized)
    (hnames : t'.entry.filenames = t.entry.filenames)
    (hnum : t'.entry.filenamesNum = t.entry.filenamesNum) (hdisk : t'.disk = t.disk) :
    Covers settings Other t' := by
  constructor
  · intro hused
    rw [hinitialized] at hused
    have hslots := h.slots hused
    exact ⟨hnum.trans hslots.filenamesNum, by rw [hnames, hnum]; exact hslots.length,
      by rw [hnames]; exact hslots.last⟩
  · rw [hinitialized, hnames, hdisk]
    exact h.files

theorem Covers.rotate (h : Covers settings Other t) (hused : t.entry.initialized = true)
    (hrotate : t.hlsEntryRotate settings' opens accessTime = some t') :
    Covers settings Other t' ∧ t'.entry.initialized = true ∧
      t'.entry.accessTime = t.entry.accessTime ∧ t'.entry.serviceId = t.entry.serviceId := by
  have hslots := h.slots hused
  obtain ⟨front, old, hnames, hnames', hnum, hinitialized, htime, hservice, hdisk⟩ :=
    hlsEntryRotate_spec hslots hrotate
  refine ⟨⟨fun _ => ?_, ?_⟩, hinitialized.trans hused, htime, hservice⟩
  · refine ⟨hnum.trans hslots.filenamesNum, ?_, by rw [hnames']; exact List.getLast?_concat⟩
    rw [hnum, ← hslots.length, hnames, hnames']
    simp
  · intro name hname
    rw [hinitialized, hnames']
    by_cases hnew : name = chunkName t.entry.serviceId accessTime
    · exact Or.inr ⟨hused, by simp [hnew], by rw [hnew]; exact chunkName_ne_empty _ _⟩
    · have hbefore : (t.disk name).isSome ∧ (old ≠ "" → name ≠ old) := by
        rw [hdisk] at hname
        by_cases hold : old = ""
        · rw [if_pos hold, Function.update_of_ne hnew] at hname
          exact ⟨hname, fun hne => absurd hold hne⟩
        · rw [if_neg hold] at hname
          by_cases hremoved : name = old
          · rw [hremoved, Function.update_self] at hname
            cases hname
          · rw [Function.update_of_ne hremoved, Function.update_of_ne hnew] at hname
            exact ⟨hname, fun _ => hremoved⟩
      rcases h.files name hbefore.1 with hother | ⟨-, hmem, hne⟩
      · exact Or.inl hother
      · refine Or.inr ⟨hused, ?_, hne⟩
        rw [hnames] at hmem
        simp only [List.mem_append, List.mem_cons, List.not_mem_nil, or_false] at hmem
        rcases hmem with hmem | hmem | hmem
        · simp [hmem]
        · exact absurd hmem (hbefore.2 fun hold => hne (hmem.trans hold))
        · exact absurd hmem hne

/-- The first chunk of an entry that was not used. -/
theorem Covers.initialize (h : Covers settings Other t) (hunused : t.entry.initialized = false)
    (hcount : settings'.hlsRotateCount = settings.hlsRotateCount)
    (hcreated : t.hlsEntryInitialize settings' opens accessTime = some t') :
    Covers settings Other t' ∧ t'.entry.initialized = true ∧
      t'.entry.serviceId = settings'.serviceId := by
  rw [State.hlsEntryInitialize] at hcreated
  split at hcreated
  · cases hcreated
    refine ⟨⟨fun _ => ⟨by rw [← hcount]; rfl, ?_, ?_⟩, fun name hname => ?_⟩, rfl, rfl⟩
    · show ((List.replicate _ "").set 0 _).length = _
      rw [List.length_set, List.length_replicate]
      rfl
    · show ((List.replicate (settings'.hlsRotateCount + 2) "").set 0 _).getLast? = _
      rw [List.replicate_succ', List.set_append_left _ _ (by simp), List.getLast?_concat]
    · have hdisk : (Function.update t.disk (chunkName settings'.serviceId accessTime) (some [])
          name).isSome := hname
      by_cases hnew : name = chunkName settings'.serviceId accessTime
      · refine Or.inr ⟨rfl, ?_, by rw [hnew]; exact chunkName_ne_empty _ _⟩
        show name ∈ (List.replicate (settings'.hlsRotateCount + 2) "").set 0 _
        rw [List.replicate_succ, List.set_cons_zero, hnew]
        exact List.mem_cons_self
      · rw [Function.update_of_ne hnew] at hdisk
        rcases h.files name hdisk with hother | ⟨hused, -⟩
        · exact Or.inl hother
        · rw [hunused] at hused
          cases hused
  · cases hcreated

theorem Covers.worker (h : Covers settings Other t) {arrival : Arrival}
    (hcount : settings'.hlsRotateCount = settings.hlsRotateCount)
    (hskips : settings'.skips arrival = false)
    (hworker : t.hlsWorkerMain settings' opens arrival = some t') :
    Covers settings Other t' ∧ t'.entry.initialized = true ∧ t'.entry.serviceId =
      if t.entry.initialized then t.entry.serviceId else settings'.serviceId := by
  rw [State.hlsWorkerMain, hskips, if_neg Bool.false_ne_true] at hworker
  obtain ⟨t₁, hfind, hworker⟩ := Option.bind_eq_some_iff.mp hworker
  have hready : Covers settings Other t₁ ∧ t₁.entry.initialized = true ∧ t₁.entry.serviceId =
      if t.entry.initialized then t.entry.serviceId else settings'.serviceId := by
    rw [State.hlsEntryFind] at hfind
    split at hfind
    case isTrue hused =>
      cases hfind
      exact ⟨h, hused, by rw [if_pos hused]⟩
    case isFalse hunused =>
      rw [if_neg hunused]
      exact h.initialize (Bool.eq_false_iff.mpr hunused) hcount hfind
  obtain ⟨⟨t₂, outbuf⟩, hsplit, hworker⟩ := Option.map_eq_some_iff.mp hworker
  subst hworker
  have hcovers : Covers settings Other { t₁ with entry := { t₁.entry with
      accessTime := arrival.curTime, hasTraffic := arrival.hasTraffic } } :=
    hready.1.congr rfl rfl rfl rfl
  have hrotated : Covers settings Other t₂ ∧ t₂.entry.initialized = true ∧
      t₂.entry.serviceId = t₁.entry.serviceId := by
    rw [State.splitAtIframe] at hsplit
    split at hsplit
    · split at hsplit
      · obtain ⟨t₃, hrotate, hsplit⟩ := Option.map_eq_some_iff.mp hsplit
        cases hsplit
        obtain ⟨hafter, hused, -, hservice⟩ := (hcovers.fwrite _).rotate hready.2.1 hrotate
        exact ⟨hafter.congr rfl rfl rfl rfl, hused, hservice⟩
      · cases hsplit
        exact ⟨hcovers, hready.2.1, rfl⟩
    · cases hsplit
      exact ⟨hcovers, hready.2.1, rfl⟩
  exact ⟨(hrotated.1.fwrite outbuf).congr rfl rfl rfl rfl, hrotated.2.1,
    hrotated.2.2.trans hready.2.2⟩

end entry

/-! ## The array -/

/-- The entries that are used. -/
def used (fds : List Stored) : List Stored := fds.filter fun fd => fd.entry.initialized

/-- A file that is not one of an entry. -/
def Foreign (hlsPlaylistName : String) (before : Directory) (name : String) : Prop :=
  (before name).isSome ∨ name = hlsPlaylistName ∨ name = metrics

/-- The files of the directory are named by the entries, but for the two that the periodic thread
writes itself and those from before. After the stop only an entry is left that was written to in
the last second of the clock. -/
structure Kept (settings : Settings) (hlsPlaylistName : String) (before : Directory) (s : Storage) :
    Prop where
  length : s.fds.length = HlsArray.maxChannels
  slots : ∀ fd ∈ s.fds, fd.entry.initialized = true → Slots settings fd.entry
  named : ∀ fd ∈ s.fds, fd.entry.initialized = true → fd.namePlaylist ≠ ""
  files : ∀ name, (s.dir name).isSome → Foreign hlsPlaylistName before name ∨
    ∃ fd ∈ used s.fds, name ∈ ownNames fd
  stopped : s.stopped = true → ∀ fd ∈ used s.fds, fd.entry.accessTime = maxTime

section array

variable {settings : Settings} {hlsPlaylistName : String} {before : Directory} {s s' : Storage}
  {fd : Stored} {i : Nat} {name : String} {t : State} {opens : Opens}

theorem mem_ownNames : name ∈ ownNames fd ↔
    (name ∈ fd.entry.filenames ∨ name = fd.namePlaylist) ∧ name ≠ "" := by
  simp [ownNames, or_and_right]

theorem mem_used {fds : List Stored} :
    fd ∈ used fds ↔ fd ∈ fds ∧ fd.entry.initialized = true := List.mem_filter

theorem playlistName_ne_empty (serviceId : Int) : playlistName serviceId ≠ "" := by
  intro h
  have hlist := congrArg String.toList h
  simp [playlistName] at hlist

/-- A file of the other entries, or the playlist of this one. -/
def Others (hlsPlaylistName : String) (before : Directory) (s : Storage) (i : Nat)
    (namePlaylist name : String) : Prop :=
  Foreign hlsPlaylistName before name ∨ name = namePlaylist ∨
    ∃ j fd, j ≠ i ∧ s.fds[j]? = some fd ∧ fd.entry.initialized = true ∧ name ∈ ownNames fd

theorem Kept.covers (h : Kept settings hlsPlaylistName before s) (hi : s.fds[i]? = some fd)
    {namePlaylist : String} (hsame : fd.entry.initialized = true → fd.namePlaylist = namePlaylist) :
    Covers settings (Others hlsPlaylistName before s i namePlaylist) (alone s.dir fd) := by
  refine ⟨h.slots fd (List.mem_of_getElem? hi), fun name hname => ?_⟩
  rcases h.files name hname with hforeign | ⟨fd', hused, hown⟩
  · exact Or.inl (Or.inl hforeign)
  · obtain ⟨hmem, hinitialized⟩ := mem_used.mp hused
    obtain ⟨j, hj⟩ := List.getElem?_of_mem hmem
    by_cases hji : j = i
    · rw [hji, hi, Option.some.injEq] at hj
      subst hj
      obtain ⟨hfile | hplaylist, hne⟩ := mem_ownNames.mp hown
      · exact Or.inr ⟨hinitialized, hfile, hne⟩
      · exact Or.inl (Or.inr (Or.inl (hplaylist.trans (hsame hinitialized))))
    · exact Or.inl (Or.inr (Or.inr ⟨j, fd', hji, hj, hinitialized, hown⟩))

theorem settle_isSome {namePlaylist : String}
    (hname : ((HlsStorage.settle s i namePlaylist t).dir name).isSome) :
    (t.disk name).isSome ∨ name = namePlaylist := by
  rw [HlsStorage.settle] at hname
  cases hplay : t.playlist with
  | none =>
    rw [hplay] at hname
    exact Or.inl hname
  | some lines =>
    rw [hplay] at hname
    by_cases hplaylist : name = namePlaylist
    · exact Or.inr hplaylist
    · change (Function.update t.disk namePlaylist _ name).isSome = true at hname
      rw [Function.update_of_ne hplaylist] at hname
      exact Or.inl hname

theorem Kept.settle (h : Kept settings hlsPlaylistName before s) (hi : s.fds[i]? = some fd)
    {namePlaylist : String} (hne : namePlaylist ≠ "")
    (hcovers : Covers settings (Others hlsPlaylistName before s i namePlaylist) t)
    (hinitialized : t.entry.initialized = true)
    (hstopped : s.stopped = true → t.entry.accessTime = maxTime) :
    Kept settings hlsPlaylistName before (settle s i namePlaylist t) := by
  have hlt : i < s.fds.length := (List.getElem?_eq_some_iff.mp hi).1
  have hset : ∀ fd ∈ s.fds.set i ⟨t.entry, namePlaylist⟩, fd ∈ s.fds ∨
      fd = ⟨t.entry, namePlaylist⟩ := fun fd hfd => List.mem_or_eq_of_mem_set hfd
  have hself : (⟨t.entry, namePlaylist⟩ : Stored) ∈ used (s.fds.set i ⟨t.entry, namePlaylist⟩) :=
    mem_used.mpr ⟨List.mem_set hlt _, hinitialized⟩
  refine ⟨by rw [← h.length]; exact List.length_set, fun fd hfd hused => ?_, fun fd hfd hused => ?_,
    fun name hname => ?_, fun hstop fd hused => ?_⟩
  · rcases hset fd hfd with hold | rfl
    · exact h.slots fd hold hused
    · exact hcovers.slots hused
  · rcases hset fd hfd with hold | rfl
    · exact h.named fd hold hused
    · exact hne
  · have hdisk := settle_isSome hname
    have hplaylist : name = namePlaylist → ∃ fd ∈ used (s.fds.set i ⟨t.entry, namePlaylist⟩),
        name ∈ ownNames fd := fun heq =>
      ⟨_, hself, mem_ownNames.mpr ⟨Or.inr heq, by rw [heq]; exact hne⟩⟩
    rcases hdisk with hdisk | heq
    · rcases hcovers.files name hdisk with (hforeign | heq | ⟨j, fd', hji, hj, hused, hown⟩) |
        ⟨-, hfile, hfile'⟩
      · exact Or.inl hforeign
      · exact Or.inr (hplaylist heq)
      · refine Or.inr ⟨fd', mem_used.mpr ⟨?_, hused⟩, hown⟩
        refine List.mem_of_getElem? ((List.getElem?_set_ne (Ne.symm hji)).trans hj)
      · exact Or.inr ⟨_, hself, mem_ownNames.mpr ⟨Or.inl hfile, hfile'⟩⟩
    · exact Or.inr (hplaylist heq)
  · obtain ⟨hmem, hinit⟩ := mem_used.mp hused
    rcases hset fd hmem with hold | rfl
    · exact h.stopped hstop fd (mem_used.mpr ⟨hold, hinit⟩)
    · exact hstopped hstop

theorem hlsEntryFind_some {serviceId : Int} {fds : List Stored}
    (h : hlsEntryFind serviceId fds = some i) : ∃ fd, fds[i]? = some fd ∧
      (fd.entry.initialized = true → fd.entry.serviceId = serviceId) ∧
      (fd.entry.initialized = false → ∀ fd' ∈ used fds, fd'.entry.serviceId ≠ serviceId) := by
  rw [hlsEntryFind] at h
  rcases Option.or_eq_some_iff.mp h with h | ⟨hnone, h⟩
  · obtain ⟨hlt, hfound, -⟩ := List.findIdx?_eq_some_iff_getElem.mp h
    rw [Bool.and_eq_true, beq_iff_eq] at hfound
    refine ⟨_, List.getElem?_eq_getElem hlt, fun _ => hfound.2, fun hunused => ?_⟩
    rw [hfound.1] at hunused
    cases hunused
  · obtain ⟨hlt, hunused, -⟩ := List.findIdx?_eq_some_iff_getElem.mp h
    refine ⟨_, List.getElem?_eq_getElem hlt, fun hused => ?_, fun _ fd' hfd' hservice => ?_⟩
    · rw [hused] at hunused
      cases hunused
    · obtain ⟨hmem, hused⟩ := mem_used.mp hfd'
      have hother := List.findIdx?_eq_none_iff.mp hnone fd' hmem
      rw [hused, hservice, beq_self_eq_true] at hother
      cases hother

theorem getD_cleared (hi : s.fds[i]? = some fd) : s.fds.getD i cleared = fd := by
  rw [List.getD_eq_getElem?_getD, hi, Option.getD_some]

/-- A buffer changes nothing, or the entry of its service, or one that was not used while the
service had none. -/
theorem worker_cases {serviceId : Int} {arrival : Arrival}
    (hworker : hlsWorkerMain settings s opens serviceId arrival = some s') : s' = s ∨
    ∃ i fd t, s.fds[i]? = some fd ∧
      (fd.entry.initialized = true → fd.entry.serviceId = serviceId) ∧
      (fd.entry.initialized = false → ∀ fd' ∈ used s.fds, fd'.entry.serviceId ≠ serviceId) ∧
      ({ settings with serviceId } : Settings).skips arrival = false ∧
      (alone s.dir fd).hlsWorkerMain { settings with serviceId } opens arrival = some t ∧
      s' = settle s i
        (if fd.entry.initialized then fd.namePlaylist else playlistName serviceId) t := by
  rw [hlsWorkerMain] at hworker
  split at hworker
  case isTrue =>
    cases hworker
    exact Or.inl rfl
  case isFalse hskips =>
    obtain ⟨i, hfind, hworker⟩ := Option.bind_eq_some_iff.mp hworker
    obtain ⟨t, ht, rfl⟩ := Option.map_eq_some_iff.mp hworker
    obtain ⟨fd, hi, hsame, hnew⟩ := hlsEntryFind_some hfind
    rw [getD_cleared hi] at ht ⊢
    exact Or.inr ⟨i, fd, t, hi, hsame, hnew, Bool.eq_false_iff.mpr hskips, ht, rfl⟩

/-- The turn changes nothing, or marks an entry, or rotates one that is used. -/
theorem turn_cases (hturn : turn settings s opens = some s') : s' = { s with found := none } ∨
    (∃ i fd, s.fds[i]? = some fd ∧ s' = { s with
      found := none
      fds := s.fds.set i { fd with entry := { fd.entry with needRotate := true } } }) ∨
    ∃ i curTime fd t, s.fds[i]? = some fd ∧ fd.entry.initialized = true ∧
      (alone s.dir fd).hlsEntryRotate settings opens curTime = some t ∧
      s' = settle { s with found := none } i fd.namePlaylist t := by
  rw [HlsStorage.turn] at hturn
  cases hfound : s.found with
  | none =>
    rw [hfound] at hturn
    cases hturn
    exact Or.inl (by rw [← hfound])
  | some found =>
    obtain ⟨i, curTime⟩ := found
    rw [hfound] at hturn
    cases hi : s.fds[i]? with
    | none =>
      have hcleared : s.fds.getD i cleared = cleared := by
        rw [List.getD_eq_getElem?_getD, hi, Option.getD_none]
      simp only [hcleared, List.set_eq_of_length_le (List.getElem?_eq_none_iff.mp hi)] at hturn
      split at hturn <;>
      · cases hturn
        exact Or.inl rfl
    | some fd =>
      simp only [getD_cleared hi] at hturn
      split at hturn
      · cases hturn
        exact Or.inr (Or.inl ⟨i, fd, hi, rfl⟩)
      · split at hturn
        case isTrue hinitialized =>
          obtain ⟨t, hrotate, rfl⟩ := Option.map_eq_some_iff.mp hturn
          exact Or.inr (Or.inr ⟨i, curTime, fd, t, hi, hinitialized, hrotate, rfl⟩)
        case isFalse =>
          cases hturn
          exact Or.inl rfl

theorem Kept.worker (h : Kept settings hlsPlaylistName before s) {serviceId : Int}
    {arrival : Arrival} (hrunning : s.stopped = false)
    (hworker : hlsWorkerMain settings s opens serviceId arrival = some s') :
    Kept settings hlsPlaylistName before s' := by
  obtain rfl | ⟨i, fd, t, hi, -, -, hskips, ht, rfl⟩ := worker_cases hworker
  · exact h
  · have hcovers : Covers settings (Others hlsPlaylistName before s i
        (if fd.entry.initialized then fd.namePlaylist else playlistName serviceId))
        (alone s.dir fd) := h.covers hi fun hused => by rw [if_pos hused]
    obtain ⟨hafter, hused, -⟩ := hcovers.worker (by rfl) hskips ht
    refine h.settle hi ?_ hafter hused fun hstop => ?_
    · split
      case isTrue hold => exact h.named fd (List.mem_of_getElem? hi) hold
      case isFalse => exact playlistName_ne_empty serviceId
    · rw [hrunning] at hstop
      cases hstop

theorem Kept.congr (h : Kept settings hlsPlaylistName before s) (hfds : s'.fds = s.fds)
    (hdir : ∀ name, (s'.dir name).isSome → (s.dir name).isSome ∨ name = hlsPlaylistName ∨
      name = metrics) (hstopped : s'.stopped = s.stopped) :
    Kept settings hlsPlaylistName before s' := by
  refine ⟨by rw [hfds, h.length], by rw [hfds]; exact h.slots, by rw [hfds]; exact h.named,
    fun name hname => ?_, by rw [hstopped, hfds]; exact h.stopped⟩
  rcases hdir name hname with hold | hown
  · rw [hfds]
    exact h.files name hold
  · exact Or.inl (Or.inr hown)

theorem mem_set_or {x fd' : Stored} (hi : s.fds[i]? = some fd) (hfd : fd' ∈ s.fds) :
    fd' ∈ s.fds.set i x ∨ fd' = fd := by
  obtain ⟨j, hj⟩ := List.getElem?_of_mem hfd
  by_cases hji : j = i
  · rw [hji, hi, Option.some.injEq] at hj
    exact Or.inr hj.symm
  · exact Or.inl (List.mem_of_getElem? ((List.getElem?_set_ne (Ne.symm hji)).trans hj))

/-- The mark that the next I-frame rotates changes nothing that counts here. -/
theorem Kept.mark (h : Kept settings hlsPlaylistName before s) (hi : s.fds[i]? = some fd) :
    Kept settings hlsPlaylistName before
      { s with fds := s.fds.set i { fd with entry := { fd.entry with needRotate := true } } } := by
  have hmem : fd ∈ s.fds := List.mem_of_getElem? hi
  have hlt : i < s.fds.length := (List.getElem?_eq_some_iff.mp hi).1
  refine ⟨by rw [← h.length]; exact List.length_set, fun fd' hfd hused => ?_,
    fun fd' hfd hused => ?_, fun name hname => ?_, fun hstop fd' hused => ?_⟩
  · rcases List.mem_or_eq_of_mem_set hfd with hold | rfl
    · exact h.slots fd' hold hused
    · have hslots := h.slots fd hmem hused
      exact ⟨hslots.filenamesNum, hslots.length, hslots.last⟩
  · rcases List.mem_or_eq_of_mem_set hfd with hold | rfl
    · exact h.named fd' hold hused
    · exact h.named fd hmem hused
  · rcases h.files name hname with hforeign | ⟨fd', hused, hown⟩
    · exact Or.inl hforeign
    · obtain ⟨hfd', hinitialized⟩ := mem_used.mp hused
      rcases mem_set_or hi hfd' with hstays | rfl
      · exact Or.inr ⟨fd', mem_used.mpr ⟨hstays, hinitialized⟩, hown⟩
      · exact Or.inr ⟨_, mem_used.mpr ⟨List.mem_set hlt _, hinitialized⟩, hown⟩
  · obtain ⟨hfd, hinitialized⟩ := mem_used.mp hused
    rcases List.mem_or_eq_of_mem_set hfd with hold | rfl
    · exact h.stopped hstop fd' (mem_used.mpr ⟨hold, hinitialized⟩)
    · exact h.stopped hstop fd (mem_used.mpr ⟨hmem, hinitialized⟩)

theorem Kept.turn (h : Kept settings hlsPlaylistName before s)
    (hturn : turn settings s opens = some s') : Kept settings hlsPlaylistName before s' := by
  have hnow : Kept settings hlsPlaylistName before { s with found := none } :=
    h.congr rfl (fun name hname => Or.inl hname) rfl
  obtain rfl | ⟨i, fd, hi, rfl⟩ | ⟨i, curTime, fd, t, hi, hinitialized, hrotate, rfl⟩ :=
    turn_cases hturn
  · exact hnow
  · exact hnow.mark hi
  · have hmem : fd ∈ s.fds := List.mem_of_getElem? hi
    obtain ⟨hcovers, hused, htime, -⟩ := (hnow.covers hi fun _ => rfl).rotate hinitialized hrotate
    exact hnow.settle hi (h.named fd hmem hinitialized) hcovers hused fun hstop =>
      htime.trans (h.stopped hstop fd (mem_used.mpr ⟨hmem, hinitialized⟩))

theorem removed_isSome {dir : Directory} (names : List String)
    (h : (names.foldl removeFile dir name).isSome) : (dir name).isSome ∧ name ∉ names := by
  induction names generalizing dir with
  | nil => exact ⟨h, List.not_mem_nil⟩
  | cons first names ih =>
    obtain ⟨hremoved, hnames⟩ := ih h
    by_cases heq : name = first
    · rw [heq, removeFile, Function.update_self] at hremoved
      cases hremoved
    · rw [removeFile, Function.update_of_ne heq] at hremoved
      exact ⟨hremoved, fun hmem => (List.mem_cons.mp hmem).elim heq hnames⟩

theorem cleaned_isSome {dir : Directory} (fds : List Stored)
    (h : (fds.foldl hlsCleanupFiles dir name).isSome) :
    (dir name).isSome ∧ ∀ fd ∈ fds, name ∉ ownNames fd := by
  induction fds generalizing dir with
  | nil => exact ⟨h, fun fd hfd => absurd hfd List.not_mem_nil⟩
  | cons first fds ih =>
    obtain ⟨hcleaned, hfds⟩ := ih h
    obtain ⟨hdir, hfirst⟩ := removed_isSome _ hcleaned
    refine ⟨hdir, fun fd hfd => ?_⟩
    rcases List.mem_cons.mp hfd with rfl | hfd
    · exact hfirst
    · exact hfds fd hfd

/-- What is used after a cleanup was used before, and is not too old. -/
theorem mem_used_cleanup {hlsRotateTime curTime : UInt32} :
    fd ∈ used (hlsArrayCleanup s hlsRotateTime curTime).fds ↔
      fd ∈ used s.fds ∧ expired hlsRotateTime curTime fd = false := by
  rw [mem_used, mem_used, hlsArrayCleanup, List.mem_map]
  constructor
  · rintro ⟨⟨fd', hfd', rfl⟩, hused⟩
    cases hold : expired hlsRotateTime curTime fd' with
    | true =>
      rw [hold, if_pos rfl] at hused
      cases hused
    | false =>
      rw [hold, if_neg Bool.false_ne_true] at hused
      rw [if_neg Bool.false_ne_true]
      exact ⟨⟨hfd', hused⟩, hold⟩
  · rintro ⟨⟨hfd, hused⟩, hnew⟩
    exact ⟨⟨fd, hfd, by rw [hnew, if_neg Bool.false_ne_true]⟩, hused⟩

theorem Kept.cleanup (h : Kept settings hlsPlaylistName before s) (hlsRotateTime curTime : UInt32) :
    Kept settings hlsPlaylistName before (hlsArrayCleanup s hlsRotateTime curTime) := by
  have hstays : ∀ fd ∈ (hlsArrayCleanup s hlsRotateTime curTime).fds,
      fd.entry.initialized = true → fd ∈ s.fds := fun fd hfd hused =>
    (mem_used.mp (mem_used_cleanup.mp (mem_used.mpr ⟨hfd, hused⟩)).1).1
  refine ⟨(List.length_map _).trans h.length,
    fun fd hfd hused => h.slots fd (hstays fd hfd hused) hused,
    fun fd hfd hused => h.named fd (hstays fd hfd hused) hused, fun name hname => ?_,
    fun hstop fd hused => h.stopped hstop fd (mem_used_cleanup.mp hused).1⟩
  obtain ⟨hdir, hremoved⟩ := cleaned_isSome _ hname
  rcases h.files name hdir with hforeign | ⟨fd, hused, hown⟩
  · exact Or.inl hforeign
  · refine Or.inr ⟨fd, mem_used_cleanup.mpr ⟨hused, Bool.eq_false_iff.mpr fun hold => ?_⟩, hown⟩
    exact hremoved fd (List.mem_filter.mpr ⟨(mem_used.mp hused).1, hold⟩) hown

/-- At the stop all entries are too old but for those of the last second. -/
theorem accessTime_of_not_expired (hused : fd.entry.initialized = true)
    (h : expired 0 maxTime fd = false) : fd.entry.accessTime = maxTime := by
  rw [expired, hused, Bool.true_and, decide_eq_false_iff_not] at h
  have hle : maxTime ≤ fd.entry.accessTime := UInt32.not_lt.mp h
  refine UInt32.toNat_inj.mp (le_antisymm ?_ (UInt32.le_iff_toNat_le.mp hle))
  have hlt := fd.entry.accessTime.toNat_lt
  show _ ≤ 4294967295
  omega

theorem Kept.stop (h : Kept settings hlsPlaylistName before s) :
    Kept settings hlsPlaylistName before (hlsStop hlsPlaylistName s) := by
  have hcleaned := h.cleanup 0 maxTime
  refine ⟨hcleaned.length, hcleaned.slots, hcleaned.named, fun name hname => ?_,
    fun _ fd hused => ?_⟩
  · exact hcleaned.files name (removed_isSome [hlsPlaylistName, metrics] hname).1
  · obtain ⟨hbefore, hnew⟩ := mem_used_cleanup.mp hused
    exact accessTime_of_not_expired (mem_used.mp hbefore).2 hnew

theorem start_kept : Kept settings hlsPlaylistName before (start before) := by
  have hfds : ∀ fd ∈ (start before).fds, fd = cleared := fun fd hfd => List.eq_of_mem_replicate hfd
  refine ⟨List.length_replicate, fun fd hfd hused => ?_, fun fd hfd hused => ?_,
    fun name hname => Or.inl (Or.inl hname), fun hstop => ?_⟩
  · rw [hfds fd hfd] at hused
    cases hused
  · rw [hfds fd hfd] at hused
    cases hused
  · cases hstop

theorem step_kept (h : Kept settings hlsPlaylistName before s) {e : Event}
    (hstep : step settings hlsPlaylistName s e = some s') :
    Kept settings hlsPlaylistName before s' := by
  have hwrite : ∀ own text name, (writeFile s.dir own text name).isSome →
      (s.dir name).isSome ∨ name = own := fun own text name hname => by
    by_cases heq : name = own
    · exact Or.inr heq
    · rw [writeFile, Function.update_of_ne heq] at hname
      exact Or.inl hname
  cases e with
  | worker opens serviceId arrival =>
    rw [step] at hstep
    split at hstep
    · cases hstep
    · exact h.worker (Bool.eq_false_iff.mpr ‹_›) hstep
  | look i curTime =>
    cases hstep
    exact h.congr rfl (fun name hname => Or.inl hname) rfl
  | turn opens => exact h.turn hstep
  | cleanup curTime =>
    cases hstep
    exact h.cleanup _ curTime
  | master text =>
    cases hstep
    exact h.congr rfl (fun name hname => (hwrite _ text name hname).imp_right Or.inl) rfl
  | metrics text =>
    cases hstep
    exact h.congr rfl (fun name hname => (hwrite _ text name hname).imp_right Or.inr) rfl
  | stop =>
    rw [step] at hstep
    split at hstep
    · cases hstep
    · cases hstep
      exact h.stop

/-! ## One entry for a service -/

/-- The service of a buffer. -/
def Event.service : Event → Option Int
  | .worker _ serviceId _ => some serviceId
  | _ => none

/-- No two entries are used for one service, and each is used for one that sent a buffer. -/
structure Served (past : List Event) (s : Storage) : Prop where
  distinct : ∀ (i j : Nat) (fd fd' : Stored), s.fds[i]? = some fd → s.fds[j]? = some fd' →
    fd.entry.initialized = true → fd'.entry.initialized = true →
    fd.entry.serviceId = fd'.entry.serviceId → i = j
  written : ∀ (i : Nat) (fd : Stored), s.fds[i]? = some fd → fd.entry.initialized = true →
    some fd.entry.serviceId ∈ past.map Event.service

theorem Served.sub {past past' : List Event} (h : Served past s) (hpast : past ⊆ past')
    (hfds : ∀ (i : Nat) (fd : Stored), s'.fds[i]? = some fd → fd.entry.initialized = true →
      s.fds[i]? = some fd) :
    Served past' s' :=
  ⟨fun i j fd fd' hi hj hused hused' =>
    h.distinct i j fd fd' (hfds i fd hi hused) (hfds j fd' hj hused') hused hused',
  fun i fd hi hused => List.map_subset _ hpast (h.written i fd (hfds i fd hi hused) hused)⟩

theorem Served.set {past past' : List Event} {x : Stored} (h : Served past s)
    (hpast : past ⊆ past') (hfds : s'.fds = s.fds.set i x)
    (hothers : x.entry.initialized = true → ∀ (j : Nat) (fd : Stored), j ≠ i → s.fds[j]? = some fd →
      fd.entry.initialized = true → fd.entry.serviceId ≠ x.entry.serviceId)
    (hwritten : x.entry.initialized = true →
      some x.entry.serviceId ∈ past'.map Event.service) : Served past' s' := by
  have hcases : ∀ (j : Nat) (fd : Stored), s'.fds[j]? = some fd →
      j = i ∧ fd = x ∨ j ≠ i ∧ s.fds[j]? = some fd := by
    intro j fd hj
    rw [hfds] at hj
    by_cases hji : j = i
    · rw [hji] at hj
      obtain ⟨hlt, hself⟩ := List.getElem?_eq_some_iff.mp hj
      rw [List.getElem_set_self] at hself
      exact Or.inl ⟨hji, hself.symm⟩
    · exact Or.inr ⟨hji, (List.getElem?_set_ne (Ne.symm hji)).symm.trans hj⟩
  refine ⟨fun j k fd fd' hj hk hused hused' hsame => ?_, fun j fd hj hused => ?_⟩
  · rcases hcases j fd hj with ⟨rfl, rfl⟩ | ⟨hji, hj⟩ <;>
      rcases hcases k fd' hk with ⟨rfl, rfl⟩ | ⟨hki, hk⟩
    · rfl
    · exact absurd hsame.symm (hothers hused k fd' hki hk hused')
    · exact absurd hsame (hothers hused' j fd hji hj hused)
    · exact h.distinct j k fd fd' hj hk hused hused' hsame
  · rcases hcases j fd hj with ⟨-, rfl⟩ | ⟨-, hj⟩
    · exact hwritten hused
    · exact List.map_subset _ hpast (h.written j fd hj hused)

theorem worker_served {past : List Event} (hkept : Kept settings hlsPlaylistName before s)
    (h : Served past s) {serviceId : Int} {arrival : Arrival}
    (hworker : hlsWorkerMain settings s opens serviceId arrival = some s') :
    Served (.worker opens serviceId arrival :: past) s' := by
  have hsub : past ⊆ .worker opens serviceId arrival :: past := List.subset_cons_self _ _
  obtain rfl | ⟨i, fd, t, hi, hsame, hnew, hskips, ht, rfl⟩ := worker_cases hworker
  · exact h.sub hsub fun i fd hi _ => hi
  · obtain ⟨-, -, hservice⟩ := (hkept.covers hi fun _ => rfl).worker (by rfl) hskips ht
    have hid : t.entry.serviceId = serviceId := by
      rw [hservice]
      split
      case isTrue hused => exact hsame hused
      case isFalse => rfl
    refine h.set hsub rfl (fun _ j fd' hji hj hused => ?_) fun _ => ?_
    · show fd'.entry.serviceId ≠ t.entry.serviceId
      rw [hid]
      intro hsame'
      cases hfd : fd.entry.initialized with
      | true => exact hji (h.distinct j i fd' fd hj hi hused hfd (hsame'.trans (hsame hfd).symm))
      | false => exact hnew hfd fd' (mem_used.mpr ⟨List.mem_of_getElem? hj, hused⟩) hsame'
    · show some t.entry.serviceId ∈ _
      rw [hid]
      exact List.mem_cons_self

/-- An entry that stands for the same service as before may be changed. -/
theorem Served.same {past past' : List Event} {x : Stored} (h : Served past s)
    (hpast : past ⊆ past') (hi : s.fds[i]? = some fd) (hfds : s'.fds = s.fds.set i x)
    (hinitialized : x.entry.initialized = fd.entry.initialized)
    (hservice : x.entry.serviceId = fd.entry.serviceId) : Served past' s' := by
  refine h.set hpast hfds (fun hused j fd' hji hj hused' hsame => ?_) fun hused => ?_
  · rw [hinitialized] at hused
    exact hji (h.distinct j i fd' fd hj hi hused' hused (hsame.trans hservice))
  · rw [hinitialized] at hused
    rw [hservice]
    exact List.map_subset _ hpast (h.written i fd hi hused)

theorem turn_served {past : List Event} (hkept : Kept settings hlsPlaylistName before s)
    (h : Served past s) (hturn : turn settings s opens = some s') :
    Served (.turn opens :: past) s' := by
  have hsub : past ⊆ .turn opens :: past := List.subset_cons_self _ _
  obtain rfl | ⟨i, fd, hi, rfl⟩ | ⟨i, curTime, fd, t, hi, hinitialized, hrotate, rfl⟩ :=
    turn_cases hturn
  · exact h.sub hsub fun i fd hi _ => hi
  · exact h.same hsub hi rfl rfl rfl
  · obtain ⟨-, hused, -, hservice⟩ := (hkept.covers hi fun _ => rfl).rotate hinitialized hrotate
    exact h.same hsub hi rfl (hused.trans hinitialized.symm) hservice

/-- An entry that is used after a cleanup has stayed as it was. -/
theorem cleanup_getElem {hlsRotateTime curTime : UInt32}
    (hi : (hlsArrayCleanup s hlsRotateTime curTime).fds[i]? = some fd)
    (hused : fd.entry.initialized = true) : s.fds[i]? = some fd := by
  rw [hlsArrayCleanup, List.getElem?_map] at hi
  obtain ⟨fd', hfd', rfl⟩ := Option.map_eq_some_iff.mp hi
  split at hused
  · cases hused
  · rw [if_neg ‹_›]
    exact hfd'

theorem step_served {past : List Event} (hkept : Kept settings hlsPlaylistName before s)
    (h : Served past s) {e : Event} (hstep : step settings hlsPlaylistName s e = some s') :
    Served (e :: past) s' := by
  have hsub : past ⊆ e :: past := List.subset_cons_self _ _
  cases e with
  | worker opens serviceId arrival =>
    rw [step] at hstep
    split at hstep
    · cases hstep
    · exact worker_served hkept h hstep
  | turn opens => exact turn_served hkept h hstep
  | stop =>
    rw [step] at hstep
    split at hstep
    · cases hstep
    · cases hstep
      exact h.sub hsub fun i fd hi hused => cleanup_getElem hi hused
  | cleanup curTime =>
    cases hstep
    exact h.sub hsub fun i fd hi hused => cleanup_getElem hi hused
  | look i curTime =>
    cases hstep
    exact h.sub hsub fun i fd hi _ => hi
  | master text =>
    cases hstep
    exact h.sub hsub fun i fd hi _ => hi
  | metrics text =>
    cases hstep
    exact h.sub hsub fun i fd hi _ => hi

theorem start_served : Served [] (start before) := by
  have hfds : ∀ (i : Nat) (fd : Stored), (start before).fds[i]? = some fd → fd = cleared :=
    fun i fd hi => List.eq_of_mem_replicate (List.mem_of_getElem? hi)
  refine ⟨fun i j fd fd' hi hj hused => ?_, fun i fd hi hused => ?_⟩ <;>
  · rw [hfds i fd hi] at hused
    cases hused

theorem run_kept {events : List Event}
    (hrun : Run (storageSystem settings hlsPlaylistName before) events s) :
    Kept settings hlsPlaylistName before s ∧ Served events s := by
  refine hrun.invariant (P := fun past s => Kept settings hlsPlaylistName before s ∧ Served past s)
    (fun s hstart => ?_) fun past s e s' hs hstep =>
      ⟨step_kept hs.1 hstep, step_served hs.1 hs.2 hstep⟩
  rw [show s = start before from hstart]
  exact ⟨start_kept, start_served⟩

/-! ## The files -/

theorem ownNames_length_le (h : Slots settings fd.entry) :
    (ownNames fd).length ≤ settings.hlsRotateCount + 2 := by
  obtain ⟨firsts, hfirsts⟩ := List.getLast?_eq_some_iff.mp h.last
  have hlength : firsts.length = settings.hlsRotateCount + 1 := by
    have := h.length
    rw [h.filenamesNum, hfirsts, List.length_append, List.length_singleton] at this
    omega
  have hdrop : ownNames fd = (firsts ++ [fd.namePlaylist]).filter (· ≠ "") := by
    rw [ownNames, hfirsts, List.filter_append, List.filter_append, List.filter_append]
    simp
  calc (ownNames fd).length ≤ (firsts ++ [fd.namePlaylist]).length := by
        rw [hdrop]
        exact List.length_filter_le _ _
    _ = settings.hlsRotateCount + 2 := by
        rw [List.length_append, hlength]
        rfl

theorem flatMap_length_le {n : Nat} {fds : List Stored} (h : ∀ fd ∈ fds, (ownNames fd).length ≤ n) :
    (fds.flatMap ownNames).length ≤ fds.length * n := by
  induction fds with
  | nil => exact Nat.zero_le _
  | cons fd fds ih =>
    rw [List.flatMap_cons, List.length_append, List.length_cons, Nat.succ_mul, Nat.add_comm]
    exact Nat.add_le_add (ih fun fd' hfd' => h fd' (List.mem_cons_of_mem _ hfd'))
      (h fd List.mem_cons_self)

/-- There are not more entries used than services that sent a buffer. -/
theorem Served.used_le {past : List Event} (h : Served past s) {services : List Int}
    (hservices : ∀ serviceId, some serviceId ∈ past.map Event.service → serviceId ∈ services) :
    (used s.fds).length ≤ services.length := by
  have hpairwise : s.fds.Pairwise fun fd fd' => fd.entry.initialized = true →
      fd'.entry.initialized = true → fd.entry.serviceId ≠ fd'.entry.serviceId := by
    rw [List.pairwise_iff_getElem]
    intro i j hi hj hij hused hused' hsame
    have hij' := h.distinct i j _ _ (List.getElem?_eq_getElem hi) (List.getElem?_eq_getElem hj)
      hused hused' hsame
    omega
  have hnodup : ((used s.fds).map fun fd => fd.entry.serviceId).Nodup := by
    rw [List.Nodup, List.pairwise_map]
    exact (hpairwise.sublist List.filter_sublist).imp_of_mem fun hfd hfd' hdistinct =>
      hdistinct (mem_used.mp hfd).2 (mem_used.mp hfd').2
  have hsubset : ((used s.fds).map fun fd => fd.entry.serviceId) ⊆ services := by
    intro serviceId hmem
    obtain ⟨fd, hfd, rfl⟩ := List.mem_map.mp hmem
    obtain ⟨hmem, hused⟩ := mem_used.mp hfd
    obtain ⟨i, hi⟩ := List.getElem?_of_mem hmem
    exact hservices _ (h.written i fd hi hused)
  have hle := (hnodup.subperm hsubset).length_le
  rwa [List.length_map] at hle

def usual : Settings where
  serviceId := 0
  hlsRotateTime := 5
  hlsRotateCount := 3
  hlsRotateCount_pos := by decide
  hlsRotateIframe := false
  dontSendScrambled := false
  playlistIgnoreScrambledRatio := 0

def firstBuffer : Arrival := ⟨[0x47], false, 0, true, 1000⟩

end array

end MuMuDVB.HlsStorage
