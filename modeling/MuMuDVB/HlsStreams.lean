import MuMuDVB.CheckedMemory
import MuMuDVB.Hls

/-!
# The streams of the HLS entries when a file cannot be opened

An entry is followed with the pointer that `fopen` gave it. `hls_entry_rotate`
closes the stream and shifts the names before it opens the playlist and the next
chunk; if one of the two cannot be opened it returns at once, and nobody looks at
what it returns. A write or `fclose` without an open stream is a fault.
-/
namespace MuMuDVB.HlsStreams

open CheckedMemory Hls RecordedRun

/-- What the pointer `stream` of an entry points to. -/
inductive Handle where
  | null | opened | closed
  deriving DecidableEq

/-- The entry and its files, with the pointer. -/
structure Streams where
  state : State
  handle : Handle

namespace Streams

variable (settings : Settings) (opens : Opens) (s : Streams)

def fwrite (data : List UInt8) : Checked Streams :=
  match s.handle with
  | .opened => .ok { s with state := s.state.fwrite data }
  | _ => .error .released

/-- A pointer that is not zero is closed, and it stays. -/
def fclose : Checked Streams :=
  match s.handle with
  | .null => .ok s
  | .opened => .ok { s with handle := .closed }
  | .closed => .error .released

/-- If the stream cannot be opened, the entry has names but is not initialized. -/
def hlsEntryInitialize (accessTime : UInt32) : Streams :=
  match s.state.hlsEntryInitialize settings opens accessTime with
  | some state => ⟨state, .opened⟩
  | none =>
    let filenamesNum := settings.hlsRotateCount + 2
    let name := chunkName settings.serviceId accessTime
    let entry := { start.entry with
      filenames := (List.replicate filenamesNum "").set 0 name, filenamesNum }
    ⟨{ s.state with entry }, .null⟩

def hlsEntryRotate (accessTime : UInt32) : Checked Streams :=
  if s.state.entry.initialized then do
    let s ← s.fclose
    let shifted := s.state.shiftNames accessTime
    match shifted.writePlaylist settings opens with
    | none => return { s with state := shifted }
    | some state =>
      if opens.stream then
        let state := (state.fopen (state.entry.filenames.getD 0 "")).deleteOldest
        return ⟨{ state with entry := { state.entry with
          rotateTime := accessTime
          needRotate := false
          sequence := (state.entry.sequence + 1) % 2 ^ 32 } }, .opened⟩
      else return ⟨state, .null⟩
  else return s

def splitAtIframe (curTime : UInt32) (buf : List UInt8) : Checked (Streams × List UInt8) :=
  if s.state.entry.needRotate then
    match hlsFindIframe buf with
    | some pos => do
      let s ← s.fwrite (buf.take pos)
      let s ← s.hlsEntryRotate settings opens curTime
      let entry := { s.state.entry with needRotate := false }
      return ({ s with state := { s.state with entry } }, buf.drop pos)
    | none => .ok (s, buf)
  else .ok (s, buf)

def hlsEntryFind (curTime : UInt32) : Streams :=
  if s.state.entry.initialized then s else s.hlsEntryInitialize settings opens curTime

def hlsWorkerMain (arrival : Arrival) : Checked Streams :=
  if settings.skips arrival then .ok s
  else do
    let s := s.hlsEntryFind settings opens arrival.curTime
    let entry := { s.state.entry with
      accessTime := arrival.curTime, hasTraffic := arrival.hasTraffic }
    let s := { s with state := { s.state with entry } }
    let (s, outbuf) ← s.splitAtIframe settings opens arrival.curTime arrival.buf
    let s ← s.fwrite outbuf
    let log := { s.state.log with buffers := s.state.log.buffers ++ [arrival.buf] }
    return { s with state := { s.state with log } }

def hlsPeriodicTask (curTime : UInt32) : Checked Streams :=
  if s.state.tooOld settings curTime then
    if !s.state.entry.needRotate && settings.hlsRotateIframe then
      .ok { s with state := { s.state with entry := { s.state.entry with needRotate := true } } }
    else s.hlsEntryRotate settings opens curTime
  else .ok s

end Streams

def step (settings : Settings) (s : Streams) : Event → Checked Streams
  | .worker opens arrival => s.hlsWorkerMain settings opens arrival
  | .periodic opens curTime => s.hlsPeriodicTask settings opens curTime

/-- The cleared entry, and after a fault nothing. -/
def streamSystem (settings : Settings) : System (Checked Streams) Event where
  Initial s := s = .ok ⟨start, .null⟩
  Step s e s' := s' = s >>= (step settings · e)

/-- A rotation comes later than the one before. -/
def LaterSteps (settings : Settings) (s : Checked Streams) (e : Event) : Prop :=
  ∀ t, s = .ok t → Later settings t.state e

/-- The files that a rotation opens. -/
def RotateOpens (opens : Opens) (s : State) : Prop :=
  (s.entry.filenamesNum - 3 ≤ s.entry.sequence → opens.playlist = true) ∧ opens.stream = true

/-- Every file that the step opens can be opened. -/
def AllOpen (settings : Settings) (s : State) : Event → Prop
  | .worker opens arrival => settings.skips arrival = false →
    (s.entry.initialized = false → opens.stream = true) ∧
    (s.entry.initialized = true → s.entry.needRotate = true →
      (hlsFindIframe arrival.buf).isSome = true → RotateOpens opens s)
  | .periodic opens curTime => s.tooOld settings curTime = true →
    (!s.entry.needRotate && settings.hlsRotateIframe) = false → RotateOpens opens s

def OpenSteps (settings : Settings) (s : Checked Streams) (e : Event) : Prop :=
  ∀ t, s = .ok t → AllOpen settings t.state e

/-- There was no fault, and the names, the chunk files and the playlist agree. -/
def Agrees (settings : Settings) (s : Checked Streams) : Prop :=
  ∃ t, s = .ok t ∧ ChunksKept settings t.state

section steps

variable {settings : Settings} {opens : Opens} {s : Streams} {s' : State}

theorem fwrite_ok (h : s.handle = .opened) (data : List UInt8) :
    s.fwrite data = .ok ⟨s.state.fwrite data, .opened⟩ := by
  rw [Streams.fwrite, h]

theorem fwrite_error (h : s.handle ≠ .opened) (data : List UInt8) :
    s.fwrite data = .error .released := by
  rw [Streams.fwrite]
  cases hhandle : s.handle with
  | opened => exact absurd hhandle h
  | null | closed => rfl

/-- Only the playlist file is written. -/
theorem writePlaylist_some {t : State} (h : t.writePlaylist settings opens = some s') :
    s'.disk = t.disk ∧ s'.entry = t.entry := by
  rw [State.writePlaylist] at h
  split at h
  · obtain ⟨-, h⟩ := Option.ite_none_right_eq_some.mp h
    cases h
    exact ⟨rfl, rfl⟩
  · cases h
    exact ⟨rfl, rfl⟩

theorem writePlaylist_isSome (settings : Settings) (opens : Opens) (t : State) :
    (t.writePlaylist settings opens).isSome = true ↔
      (t.entry.filenamesNum - 3 ≤ t.entry.sequence → opens.playlist = true) := by
  rw [State.writePlaylist]
  split
  case isTrue hfull =>
    cases opens.playlist <;> simp [hfull]
  case isFalse hfull => simp [hfull]

theorem hlsEntryRotate_isSome {t : State} (h : t.entry.initialized = true) (accessTime : UInt32) :
    (t.hlsEntryRotate settings opens accessTime).isSome = true ↔ RotateOpens opens t := by
  have hplaylist := writePlaylist_isSome settings opens (t.shiftNames accessTime)
  rw [State.hlsEntryRotate, if_pos h, RotateOpens]
  change _ ↔ ((t.shiftNames accessTime).entry.filenamesNum - 3 ≤
    (t.shiftNames accessTime).entry.sequence → opens.playlist = true) ∧ _
  rw [← hplaylist]
  cases (t.shiftNames accessTime).writePlaylist settings opens with
  | none => simp
  | some written => cases opens.stream <;> simp

/-- With all files opened the pointer is open again. -/
theorem hlsEntryRotate_some (h : s.handle = .opened) {accessTime : UInt32}
    (hrotate : s.state.hlsEntryRotate settings opens accessTime = some s') :
    s.hlsEntryRotate settings opens accessTime = .ok ⟨s', .opened⟩ := by
  obtain ⟨hused, hrotate⟩ := Option.ite_none_right_eq_some.mp hrotate
  obtain ⟨written, hwritten, hrotate⟩ := Option.bind_eq_some_iff.mp hrotate
  obtain ⟨hstream, hrotate⟩ := Option.ite_none_right_eq_some.mp hrotate
  have hclose : s.fclose = .ok { s with handle := .closed } := by rw [Streams.fclose, h]
  rw [Streams.hlsEntryRotate, if_pos hused, hclose, bind_ok]
  dsimp only
  rw [hwritten]
  dsimp only
  rw [if_pos hstream, ← Option.some.inj hrotate]
  rfl

/-- After a file that was not opened the names are shifted and the disk is as it was. -/
theorem hlsEntryRotate_none (h : s.handle = .opened) (hused : s.state.entry.initialized = true)
    {accessTime : UInt32} (hrotate : s.state.hlsEntryRotate settings opens accessTime = none) :
    ∃ t, s.hlsEntryRotate settings opens accessTime = .ok t ∧ t.handle ≠ .opened ∧
      t.state.disk = s.state.disk ∧ t.state.entry = (s.state.shiftNames accessTime).entry := by
  have hclose : s.fclose = .ok { s with handle := .closed } := by rw [Streams.fclose, h]
  rw [Streams.hlsEntryRotate, if_pos hused, hclose, bind_ok]
  dsimp only
  rw [State.hlsEntryRotate, if_pos hused] at hrotate
  cases hwritten : (s.state.shiftNames accessTime).writePlaylist settings opens with
  | none => exact ⟨_, rfl, by simp, rfl, rfl⟩
  | some written =>
    obtain ⟨hdisk, hentry⟩ := writePlaylist_some hwritten
    rw [hwritten] at hrotate
    dsimp only
    split
    case isTrue hstream =>
      rw [Option.bind_some, if_pos hstream] at hrotate
      cases hrotate
    case isFalse => exact ⟨_, rfl, by simp, hdisk, hentry⟩

/-- An entry that is in use has its stream open. -/
def Ready (s : Streams) : Prop := s.state.entry.initialized = true → s.handle = .opened

theorem hlsEntryFind_some (h : Ready s) {curTime : UInt32} {found : State}
    (hfind : s.state.hlsEntryFind settings opens curTime = some found) :
    s.hlsEntryFind settings opens curTime = ⟨found, .opened⟩ := by
  rw [State.hlsEntryFind] at hfind
  rw [Streams.hlsEntryFind]
  split at hfind
  case isTrue hused =>
    cases hfind
    rw [if_pos hused, ← h hused]
  case isFalse hused => rw [if_neg hused, Streams.hlsEntryInitialize, hfind]

theorem splitAtIframe_some (h : s.handle = .opened) {curTime : UInt32} {buf outbuf : List UInt8}
    (hsplit : s.state.splitAtIframe settings opens curTime buf = some (s', outbuf)) :
    s.splitAtIframe settings opens curTime buf = .ok (⟨s', .opened⟩, outbuf) := by
  rw [State.splitAtIframe] at hsplit
  rw [Streams.splitAtIframe]
  split at hsplit
  case isTrue hneed =>
    rw [if_pos hneed]
    cases hfound : hlsFindIframe buf with
    | some pos =>
      rw [hfound] at hsplit
      obtain ⟨rotated, hrotate, hpair⟩ := Option.map_eq_some_iff.mp hsplit
      cases hpair
      have hstep : Streams.hlsEntryRotate settings opens
          ⟨s.state.fwrite (buf.take pos), .opened⟩ curTime = .ok ⟨rotated, .opened⟩ :=
        hlsEntryRotate_some rfl hrotate
      dsimp only
      rw [fwrite_ok h, bind_ok, hstep]
      rfl
    | none =>
      rw [hfound] at hsplit
      cases hsplit
      rw [← h]
  case isFalse hneed =>
    cases hsplit
    rw [if_neg hneed, ← h]

/-- With all files opened the worker does what it does to the files alone. -/
theorem hlsWorkerMain_some (h : Ready s) {arrival : Arrival}
    (hstep : s.state.hlsWorkerMain settings opens arrival = some s') :
    ∃ t, s.hlsWorkerMain settings opens arrival = .ok t ∧ t.state = s' ∧ Ready t := by
  rw [State.hlsWorkerMain] at hstep
  rw [Streams.hlsWorkerMain]
  split at hstep
  case isTrue hskips =>
    cases hstep
    exact ⟨s, if_pos hskips, rfl, h⟩
  case isFalse hskips =>
    obtain ⟨found, hfind, hstep⟩ := Option.bind_eq_some_iff.mp hstep
    obtain ⟨⟨written, outbuf⟩, hsplit, hstep⟩ := Option.map_eq_some_iff.mp hstep
    cases hstep
    have hcall : Streams.splitAtIframe settings opens
        ⟨{ found with entry := { found.entry with
          accessTime := arrival.curTime, hasTraffic := arrival.hasTraffic } }, .opened⟩
        arrival.curTime arrival.buf = .ok (⟨written, .opened⟩, outbuf) :=
      splitAtIframe_some rfl hsplit
    refine ⟨⟨_, .opened⟩, ?_, rfl, fun _ => rfl⟩
    rw [if_neg hskips, hlsEntryFind_some h hfind]
    dsimp only
    rw [hcall]
    rfl

theorem splitAtIframe_none (h : s.handle = .opened) (hused : s.state.entry.initialized = true)
    {curTime : UInt32} {buf : List UInt8}
    (hsplit : s.state.splitAtIframe settings opens curTime buf = none) :
    ∃ t outbuf, s.splitAtIframe settings opens curTime buf = .ok (t, outbuf) ∧
      t.handle ≠ .opened := by
  rw [State.splitAtIframe] at hsplit
  rw [Streams.splitAtIframe]
  split at hsplit
  case isTrue hneed =>
    rw [if_pos hneed]
    cases hfound : hlsFindIframe buf with
    | some pos =>
      rw [hfound] at hsplit
      obtain ⟨t, hrotate, hhandle, -⟩ := hlsEntryRotate_none
        (s := ⟨s.state.fwrite (buf.take pos), .opened⟩) rfl hused
        (Option.map_eq_none_iff.mp hsplit)
      dsimp only
      rw [fwrite_ok h, bind_ok, hrotate]
      exact ⟨_, _, rfl, hhandle⟩
    | none =>
      rw [hfound] at hsplit
      cases hsplit
  case isFalse => cases hsplit

/-- If a file cannot be opened, the worker writes to a stream that is not open. -/
theorem hlsWorkerMain_none (h : Ready s) {arrival : Arrival}
    (hstep : s.state.hlsWorkerMain settings opens arrival = none) :
    s.hlsWorkerMain settings opens arrival = .error .released := by
  rw [State.hlsWorkerMain] at hstep
  rw [Streams.hlsWorkerMain]
  split at hstep
  case isTrue => cases hstep
  case isFalse hskips =>
    rw [if_neg hskips]
    cases hfind : s.state.hlsEntryFind settings opens arrival.curTime with
    | none =>
      -- the entry is not initialized, so no rotation waits and the buffer is written whole
      rw [State.hlsEntryFind] at hfind
      split at hfind
      case isTrue => cases hfind
      case isFalse hused =>
        rw [Streams.hlsEntryFind, if_neg hused, Streams.hlsEntryInitialize, hfind]
        rfl
    | some found =>
      have hused : found.entry.initialized = true := by
        rw [State.hlsEntryFind] at hfind
        split at hfind
        case isTrue hused =>
          cases hfind
          exact hused
        case isFalse =>
          obtain ⟨-, hfind⟩ := Option.ite_none_right_eq_some.mp hfind
          cases hfind
          rfl
      rw [hfind, Option.bind_some] at hstep
      obtain ⟨t, outbuf, hsplit, hhandle⟩ := splitAtIframe_none
        (s := ⟨{ found with entry := { found.entry with
          accessTime := arrival.curTime, hasTraffic := arrival.hasTraffic } }, .opened⟩)
        rfl hused (Option.map_eq_none_iff.mp hstep)
      rw [hlsEntryFind_some h hfind]
      dsimp only
      rw [hsplit, bind_ok, fwrite_error hhandle]
      rfl

end steps

section runs

variable {settings : Settings} {t t' : Streams} {s' : State}

theorem hlsPeriodicTask_some {opens : Opens} (h : Ready t) {curTime : UInt32}
    (hstep : t.state.hlsPeriodicTask settings opens curTime = some s') :
    ∃ t', t.hlsPeriodicTask settings opens curTime = .ok t' ∧ t'.state = s' ∧ Ready t' := by
  rw [State.hlsPeriodicTask] at hstep
  rw [Streams.hlsPeriodicTask]
  split at hstep
  case isTrue hold =>
    rw [if_pos hold]
    split at hstep
    case isTrue hwaits =>
      cases hstep
      exact ⟨_, if_pos hwaits, rfl, h⟩
    case isFalse hwaits =>
      have hused := (Bool.and_eq_true_iff.mp hold).1
      exact ⟨_, (if_neg hwaits).trans (hlsEntryRotate_some (h hused) hstep), rfl, fun _ => rfl⟩
  case isFalse hold =>
    cases hstep
    exact ⟨t, if_neg hold, rfl, h⟩

/-- The step on the files alone is what happens when all files are opened. -/
theorem step_some (h : Ready t) {e : Event} (hstep : Hls.step settings t.state e = some s') :
    ∃ t', step settings t e = .ok t' ∧ t'.state = s' ∧ Ready t' := by
  cases e with
  | worker opens arrival => exact hlsWorkerMain_some h hstep
  | periodic opens curTime => exact hlsPeriodicTask_some h hstep

theorem hlsEntryFind_isSome (settings : Settings) {opens : Opens} {s : State} (curTime : UInt32) :
    (s.hlsEntryFind settings opens curTime).isSome = true ↔
      (s.entry.initialized = false → opens.stream = true) := by
  rw [State.hlsEntryFind]
  split
  case isTrue hused => simp [hused]
  case isFalse hused =>
    rw [State.hlsEntryInitialize]
    cases opens.stream <;> simp [hused]

theorem splitAtIframe_isSome (settings : Settings) (opens : Opens) {s : State}
    (hused : s.entry.initialized = true)
    (curTime : UInt32) (buf : List UInt8) :
    (s.splitAtIframe settings opens curTime buf).isSome = true ↔
      (s.entry.needRotate = true → (hlsFindIframe buf).isSome = true → RotateOpens opens s) := by
  rw [State.splitAtIframe]
  split
  case isTrue hneed =>
    cases hfound : hlsFindIframe buf with
    | none => simp
    | some pos =>
      have hrotate : ((s.fwrite (buf.take pos)).hlsEntryRotate settings opens curTime).isSome =
          true ↔ RotateOpens opens s :=
        hlsEntryRotate_isSome (t := s.fwrite (buf.take pos)) hused curTime
      simp [hneed, hrotate]
  case isFalse hneed => simp [hneed]

/-- The step on the files alone has a result exactly when all files are opened. -/
theorem step_isSome (s : State) (e : Event) :
    (Hls.step settings s e).isSome = true ↔ AllOpen settings s e := by
  cases e with
  | worker opens arrival =>
    change (s.hlsWorkerMain settings opens arrival).isSome = true ↔ _
    rw [State.hlsWorkerMain, AllOpen, ← hlsEntryFind_isSome settings arrival.curTime]
    split
    case isTrue hskips => simp [hskips]
    case isFalse hskips =>
      cases hused : s.entry.initialized with
      | true =>
        rw [State.hlsEntryFind, if_pos hused]
        have hsplit := splitAtIframe_isSome settings opens
          (s := { s with entry := { s.entry with
            accessTime := arrival.curTime, hasTraffic := arrival.hasTraffic } }) hused
          arrival.curTime arrival.buf
        simp [hskips, hsplit]
        rfl
      | false =>
        rw [State.hlsEntryFind, if_neg (by simp [hused]), State.hlsEntryInitialize]
        cases opens.stream <;> simp [hskips, State.splitAtIframe, State.fopen]
  | periodic opens curTime =>
    change (s.hlsPeriodicTask settings opens curTime).isSome = true ↔ _
    rw [State.hlsPeriodicTask, AllOpen]
    split
    case isTrue hold =>
      have hused := (Bool.and_eq_true_iff.mp hold).1
      split
      case isTrue hwaits => simp [hwaits]
      case isFalse hwaits =>
        rw [hlsEntryRotate_isSome hused]
        simp [hold, hwaits]
    case isFalse hold => simp [hold]

/-- A name that was shifted in without its file is not on the disk. -/
theorem not_chunksKept_of_shifted {s : State} (h : Represents settings s.log.buffers.flatten s)
    {curTime : UInt32} (hlater : s.entry.rotateTime < curTime) (hdisk : s'.disk = s.disk)
    (hentry : s'.entry = (s.shiftNames curTime).entry) : ¬ ChunksKept settings s' := by
  intro hkept
  have hname : chunkName settings.serviceId curTime ∈ s'.entry.filenames := by
    rw [hentry, h.shiftNames, ShiftedArray.recent_append]
    exact List.mem_cons_self
  have hsome := (hkept.disk _).mpr ⟨hname, chunkName_ne_empty _ _⟩
  rw [hdisk, h.holding.disk] at hsome
  exact h.notMem_opened hlater (ShiftedArray.mem_of_mem_kept hsome)

/-- A step leaves the names and the files in agreement exactly when it can open its files. -/
theorem step_agrees_iff (hready : Ready t) (hinv : Invariant settings t.state) {e : Event}
    (hlater : Later settings t.state e) :
    Agrees settings (step settings t e) ↔ AllOpen settings t.state e := by
  rw [← step_isSome]
  constructor
  · rintro ⟨t', hstep, hkept⟩
    by_contra hnone
    rw [Option.not_isSome_iff_eq_none] at hnone
    cases e with
    | worker opens arrival =>
      cases (hlsWorkerMain_none hready hnone).symm.trans hstep
    | periodic opens curTime =>
      change t.state.hlsPeriodicTask settings opens curTime = none at hnone
      change t.hlsPeriodicTask settings opens curTime = .ok t' at hstep
      rw [State.hlsPeriodicTask] at hnone
      rw [Streams.hlsPeriodicTask] at hstep
      split at hnone
      case isTrue hold =>
        have hused := (Bool.and_eq_true_iff.mp hold).1
        split at hnone
        case isTrue => cases hnone
        case isFalse hnow =>
          obtain ⟨failed, hrotate, -, hdisk, hentry⟩ :=
            hlsEntryRotate_none (hready hused) hused hnone
          rw [if_pos hold, if_neg hnow, hrotate] at hstep
          cases hstep
          exact not_chunksKept_of_shifted (hinv.represents hused)
            (hlater hold (by simpa using hnow)) hdisk hentry hkept
      case isFalse => cases hnone
  · intro hsome
    obtain ⟨s', hstep⟩ := Option.isSome_iff_exists.mp hsome
    obtain ⟨t', hstep', rfl, -⟩ := step_some hready hstep
    exact ⟨t', hstep', (hinv.step hlater hstep).chunksKept⟩

/-- What holds while all files are opened. -/
theorem run_ready {past : List Event} {s : Checked Streams}
    (hrun : Run (((streamSystem settings).restrict (LaterSteps settings)).restrict
      (OpenSteps settings)) past s) :
    ∃ t, s = .ok t ∧ Ready t ∧ Invariant settings t.state := by
  refine hrun.invariant (P := fun _ s => ∃ t, s = .ok t ∧ Ready t ∧ Invariant settings t.state)
    ?_ ?_
  · rintro s rfl
    exact ⟨_, rfl, (fun hused => by cases hused), .inl rfl⟩
  · rintro past s e s' ⟨t, rfl, hready, hinv⟩ ⟨hopen, hlater, rfl⟩
    obtain ⟨next, hstep⟩ := Option.isSome_iff_exists.mp ((step_isSome _ _).mpr (hopen t rfl))
    obtain ⟨t', hstep', rfl, hready'⟩ := step_some hready hstep
    exact ⟨t', hstep', hready', hinv.step (hlater t rfl) hstep⟩

/-- The runs in which every file can be opened are those along which no stream is used that is not
open and the names, the chunk files and the playlist agree. -/
theorem streams_agree_iff (settings : Settings) (past : List Event) (s : Checked Streams) :
    Run (((streamSystem settings).restrict (LaterSteps settings)).restrict
      (OpenSteps settings)) past s ↔
      Along ((streamSystem settings).restrict (LaterSteps settings))
        (fun _ s => Agrees settings s) past s := by
  refine along_iff_restrict ?_ ?_ past s
  · rintro s rfl
    exact ⟨_, rfl, Invariant.chunksKept (.inl rfl)⟩
  · rintro past s e s' hrun - ⟨hlater, rfl⟩
    obtain ⟨t, rfl, hready, hinv⟩ := run_ready hrun
    rw [bind_ok, step_agrees_iff hready hinv (hlater t rfl)]
    constructor
    · rintro hopen t' h
      cases h
      exact hopen
    · intro hopen
      exact hopen t rfl

end runs

/-! A chunk is written. Then the next one cannot be opened, or the playlist, or the first of all. -/

def exec (events : List Event) : Checked Streams :=
  events.foldlM (step twoChunks) ⟨start, .null⟩

theorem hlsEntryRotate_failed :
    (∃ t, exec [packetAt 1, .periodic ⟨true, false⟩ 12] = .ok t ∧
      t.state.entry.filenames = ["7_12.ts", "7_1.ts", ""] ∧ t.state.disk "7_12.ts" = none) ∧
    exec [packetAt 1, .periodic ⟨true, false⟩ 12, packetAt 13] = .error .released ∧
    exec [packetAt 1, .periodic ⟨false, true⟩ 12, .periodic ⟨true, true⟩ 13] =
      .error .released ∧
    exec [.worker ⟨true, false⟩ ⟨List.replicate 188 0, false, 0, true, 1⟩] = .error .released := by
  refine ⟨⟨_, rfl, ?_, ?_⟩, rfl, rfl, rfl⟩
  · decide +kernel
  · decide +kernel

end MuMuDVB.HlsStreams
