import MuMuDVB.CString
import MuMuDVB.Hls

/-!
# The array of HLS entries

`hls_fds` has an entry for each channel that is written. An entry is taken at the
first buffer of the channel; the periodic task rotates the entries that were not
rotated for some time, and removes those that were not written to for three times
as long. Times are seconds of a clock that begins at zero, and they are subtracted
as unsigned numbers.
-/
namespace MuMuDVB.HlsArray

open CheckedMemory CString Hls

/-- `LEN_MAX` -/
@[simp] abbrev lenMax : Nat := 64

@[simp] abbrev maxChannels : Nat := 128

/-- An entry of `hls_fds`, with the arrays for the master playlist. -/
structure Fd where
  entry : Entry
  name : Buffer UInt8 lenMax
  namePlaylist : Buffer UInt8 lenMax

/-- `memset(hls_entry, 0, sizeof(*hls_entry))`. -/
def cleared : Fd where
  entry := start.entry
  name := Buffer.fill lenMax 0
  namePlaylist := Buffer.fill lenMax 0

/-- The entry alone, as the functions on one entry take it. -/
def alone (entry : Entry) : State := { start with entry }

section ageing

variable (settings : Settings) (opens : Opens) (curTime : UInt32) (fd : Fd)

/-- The entry was not written to for too long. -/
def expired (hlsRotateTime : UInt32) : Bool :=
  fd.entry.initialized && fd.entry.accessTime < curTime - hlsRotateTime * 3

def hlsArrayCleanup (hlsRotateTime : UInt32) (fds : List Fd) : List Fd :=
  fds.map fun fd => if expired curTime fd hlsRotateTime then cleared else fd

/-- What `hls_entry_rotate` makes of the entry; what it does to the names when it cannot open a
file is not followed. -/
def rotateEntry (entry : Entry) : Entry :=
  (((alone entry).hlsEntryRotate settings opens curTime).map (·.entry)).getD entry

/-- What the periodic task does with an entry. -/
inductive Visit where
  | passed
  | waits
  | rotates
  deriving DecidableEq

/-- A rotation that waits for an I-frame is put off once. -/
def periodicVisit : Visit :=
  if fd.entry.initialized && fd.entry.rotateTime < curTime - settings.hlsRotateTime then
    if !fd.entry.needRotate && settings.hlsRotateIframe then .waits else .rotates
  else .passed

def applyVisit : Visit → Fd
  | .passed => fd
  | .waits => { fd with entry := { fd.entry with needRotate := true } }
  | .rotates => { fd with entry := rotateEntry settings opens curTime fd.entry }

/-- The turn of the periodic task for one entry of the array. -/
def periodicTurn : Fd := applyVisit settings opens curTime fd (periodicVisit settings curTime fd)

end ageing

/-- The entry was used and is not any more. -/
def Destroyed (fds fds' : List Fd) (i : Nat) : Prop :=
  ∃ fd fd', fds[i]? = some fd ∧ fds'[i]? = some fd' ∧ fd.entry.initialized = true ∧
    fd'.entry.initialized = false

/-- The entry is used, and its time with the allowed one is over. -/
def Overdue (fd : Fd) (time allowed curTime : Nat) : Prop :=
  fd.entry.initialized = true ∧ time + allowed < curTime

/-- The difference of the clock and the allowed time is not negative, or what it wraps to is not
above the time of the entry. -/
def Settled (time allowed curTime : Nat) : Prop :=
  allowed ≤ curTime ∨ ((curTime : Int) - allowed) % 2 ^ 32 ≤ time

section ageing

variable {settings : Settings} {opens : Opens} {curTime : UInt32} {fd : Fd}

theorem destroyed_iff {hlsRotateTime : UInt32} {fds : List Fd} {i : Nat} (h : fds[i]? = some fd) :
    Destroyed fds (hlsArrayCleanup curTime hlsRotateTime fds) i ↔
      expired curTime fd hlsRotateTime = true := by
  have hafter : (hlsArrayCleanup curTime hlsRotateTime fds)[i]? =
      some (if expired curTime fd hlsRotateTime then cleared else fd) := by
    rw [hlsArrayCleanup, List.getElem?_map, h]
    rfl
  constructor
  · rintro ⟨old, new, hold, hnew, hused, hunused⟩
    cases h.symm.trans hold
    cases hafter.symm.trans hnew
    by_contra hkept
    rw [if_neg hkept, hused] at hunused
    cases hunused
  · intro hexpired
    rw [if_pos hexpired] at hafter
    have hused := hexpired
    rw [expired, Bool.and_eq_true] at hused
    exact ⟨fd, cleared, h, hafter, hused.1, rfl⟩

theorem periodicVisit_iff :
    periodicVisit settings curTime fd ≠ .passed ↔
      (alone fd.entry).tooOld settings curTime = true := by
  rw [periodicVisit]
  change _ ↔ (fd.entry.initialized && fd.entry.rotateTime < curTime - settings.hlsRotateTime) = true
  by_cases h : (fd.entry.initialized &&
      fd.entry.rotateTime < curTime - settings.hlsRotateTime) = true
  · rw [if_pos h]
    split <;> simp [h]
  · simp [h]

theorem toNat_sub_wrapped (curTime : UInt32) {allowed : Nat} {wrapped : UInt32}
    (h : wrapped.toNat = allowed % 2 ^ 32) :
    ((curTime - wrapped).toNat : Int) = ((curTime.toNat : Int) - allowed) % 2 ^ 32 := by
  have hlt := wrapped.toNat_lt
  have hcur := curTime.toNat_lt
  rw [UInt32.toNat_sub, h]
  omega

/-- The comparison of unsigned numbers is the one of the integers exactly when the difference does
not wrap to a number above the time. -/
theorem lt_sub_iff {time wrapped : UInt32} {allowed : Nat}
    (h : wrapped.toNat = allowed % 2 ^ 32) :
    (time < curTime - wrapped ↔ time.toNat + allowed < curTime.toNat) ↔
      Settled time.toNat allowed curTime.toNat := by
  have hwrapped := toNat_sub_wrapped curTime h
  have hcur := curTime.toNat_lt
  rw [UInt32.lt_iff_toNat_lt, Settled]
  rcases Nat.lt_or_ge curTime.toNat allowed with hgt | hle
  · constructor
    · intro hiff
      right
      rw [← hwrapped]
      by_contra hbelow
      have hfalse := hiff.mp (by omega)
      omega
    · rintro (hle | hle)
      · omega
      · rw [← hwrapped] at hle
        exact ⟨fun hlt => by omega, fun hlt => by omega⟩
  · have hdiff : ((curTime.toNat : Int) - allowed) % 2 ^ 32 = curTime.toNat - allowed :=
      Int.emod_eq_of_lt (by omega) (by omega)
    rw [hdiff] at hwrapped
    exact ⟨fun _ => Or.inl hle, fun _ => by omega⟩

/-- An entry that is not used is left alone. A used one is destroyed, and it is considered for a
rotation, when its time is over, exactly when neither difference of times wraps to a number above
the time of the entry. -/
theorem ageing_iff {fds : List Fd} {i : Nat} (h : fds[i]? = some fd) :
    ((Destroyed fds (hlsArrayCleanup curTime settings.hlsRotateTime fds) i ↔
        Overdue fd fd.entry.accessTime.toNat (3 * settings.hlsRotateTime.toNat) curTime.toNat) ∧
      (periodicVisit settings curTime fd ≠ .passed ↔
        Overdue fd fd.entry.rotateTime.toNat settings.hlsRotateTime.toNat curTime.toNat)) ↔
      fd.entry.initialized = false ∨
        Settled fd.entry.accessTime.toNat (3 * settings.hlsRotateTime.toNat) curTime.toNat ∧
          Settled fd.entry.rotateTime.toNat settings.hlsRotateTime.toNat curTime.toNat := by
  have hthree : (settings.hlsRotateTime * 3).toNat =
      3 * settings.hlsRotateTime.toNat % 2 ^ 32 := by
    rw [UInt32.toNat_mul, Nat.mul_comm]
    rfl
  have honce : settings.hlsRotateTime.toNat = settings.hlsRotateTime.toNat % 2 ^ 32 :=
    (Nat.mod_eq_of_lt settings.hlsRotateTime.toNat_lt).symm
  have hvisit : periodicVisit settings curTime fd ≠ .passed ↔
      (fd.entry.initialized && fd.entry.rotateTime < curTime - settings.hlsRotateTime) = true :=
    periodicVisit_iff
  rw [destroyed_iff h, hvisit, expired]
  simp only [Overdue, Bool.and_eq_true, decide_eq_true_eq]
  cases hused : fd.entry.initialized with
  | false => simp
  | true => simp only [true_and, Bool.true_eq_false, false_or, lt_sub_iff hthree, lt_sub_iff honce]

end ageing

/-! Five seconds after the boot an entry that was just written to is removed, and rotated. -/

def tenSeconds : Settings where
  serviceId := 7
  hlsRotateTime := 10
  hlsRotateCount := 2
  hlsRotateCount_pos := Nat.two_pos
  hlsRotateIframe := false
  dontSendScrambled := false
  playlistIgnoreScrambledRatio := 0

/-- An entry that was rotated and written to at these times. -/
def usedAt (rotateTime accessTime : UInt32) : Fd :=
  { cleared with entry := { cleared.entry with initialized := true, rotateTime, accessTime } }

theorem ageing_iff_later :
    ((Destroyed [usedAt 80 95] (hlsArrayCleanup 100 tenSeconds.hlsRotateTime [usedAt 80 95]) 0 ↔
        Overdue (usedAt 80 95) 95 30 100) ∧
      (periodicVisit tenSeconds 100 (usedAt 80 95) ≠ .passed ↔ Overdue (usedAt 80 95) 80 10 100)) ↔
      (usedAt 80 95).entry.initialized = false ∨ Settled 95 30 100 ∧ Settled 80 10 100 :=
  ageing_iff rfl

theorem ageing_boot :
    Destroyed [usedAt 3 4] (hlsArrayCleanup 5 tenSeconds.hlsRotateTime [usedAt 3 4]) 0 ∧
      ¬ Overdue (usedAt 3 4) 4 30 5 ∧
      periodicVisit tenSeconds 5 (usedAt 3 4) ≠ .passed ∧ ¬ Overdue (usedAt 3 4) 3 10 5 := by
  refine ⟨⟨usedAt 3 4, cleared, rfl, rfl, rfl, rfl⟩, ?_, ?_, ?_⟩
  · rintro ⟨-, hlt⟩
    omega
  · decide
  · rintro ⟨-, hlt⟩
    omega

end MuMuDVB.HlsArray
