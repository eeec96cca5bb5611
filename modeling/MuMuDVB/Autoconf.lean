import MuMuDVB.AutoconfCat
import MuMuDVB.ChannelStatus

/-!
# The autoconfiguration

For every table there is a buffer, the version that is stored, the sections of
that version that have been read and a flag that says that the table is being
read. The channels stand in a table of fixed size; a channel is known by its
index for ever.
-/
namespace MuMuDVB.Autoconf

open CheckedMemory MuMuDVB.TsHeader MuMuDVB.Ts MuMuDVB.Channel MuMuDVB.AutoconfCat
open MuMuDVB.UnicastClients (Origin UnicastChannel)

@[simp] abbrev maxPids : Nat := 128

/-- What `auto_p_t` has for each kind of table. -/
structure Tracker where
  temp : MumudvbTsPacket
  needUpdate : Bool
  version : Int
  sectionsSeen : Buffer Bool 256
  allSectionsSeen : Bool
  /-- the version that was read completely last; nothing reads this -/
  lastRead : Option Int

/-- The part of `auto_p_t` that the tables change, with the options that decide about a channel. -/
structure AutoP where
  options : ChannelStatus.AutoP
  pat : Tracker
  cat : Tracker
  sdt : Tracker
  nit : Tracker
  psip : Tracker
  transportStreamId : Int
  networkId : Int
  originalNetworkId : Int
  needFilterChanUpdate : Bool
  caSystemList : Buffer CaSystem maxCaSystems

inductive PidType where
  | unknown | pmt | pcr
  | videoMpeg1 | videoMpeg2 | videoMpeg4Asp | videoMpeg4Avc | videoMpeg4Hevc
  | audioMpeg1 | audioMpeg2 | audioAacLatm | audioAacAdts | audioAtsc
  | audioAc3 | audioEac3 | audioDts | audioAac
  | extraVbidata | extraVbiteletext | extraTeletext | extraSubtitle
  | extraApplicationSignalling
  | ecm | emm
  deriving DecidableEq, Repr

/-- An entry of the three tables `pids`, `pids_type` and `pids_language`. -/
structure PidEntry where
  pid : Int
  type : PidType
  language : List UInt8
  deriving DecidableEq

/-- The PIDs in `pid_i_t`. -/
structure PidI where
  pidF : Origin
  entries : Buffer PidEntry maxPids
  numPids : Nat
  pmtPidF : Origin
  pcrPid : Nat

/-- `pids[0 .. num_pids)` -/
def PidI.pids (p : PidI) : List Int := (p.entries.cells.take p.numPids).map PidEntry.pid

/-- What the autoconfiguration uses of a channel. -/
structure AutoChannel extends UnicastChannel, CaChannel where
  pidI : PidI
  pmtPacket : Option MumudvbTsPacket
  serviceName : List UInt8
  logicalChannelNumber : Nat
  numPacket : Nat
  hasTraffic : Bool
  numScrambledPackets : Nat
  scrambledChannel : Bool
  generatedPatVersion : Int
  generatedSdtVersion : Int

def noEntry : PidEntry := ⟨0, .unknown, []⟩

/-- A channel of the table that has not been used. -/
def unusedChannel : AutoChannel where
  http := ⟨0, []⟩
  clients := none
  numClients := 0
  channelReady := .almostReady
  serviceIdFrom := .undef
  freeCaMode := false
  pmtPid := 0
  serviceType := 0
  unicastPort := 0
  unicastPortFrom := .undef
  socketIn := 0
  caSysId := Buffer.fill _ 0
  pmtVersion := 0
  pidI := ⟨.undef, Buffer.fill _ noEntry, 0, .undef, 0⟩
  pmtPacket := none
  serviceName := []
  logicalChannelNumber := 0
  numPacket := 0
  hasTraffic := false
  numScrambledPackets := 0
  scrambledChannel := false
  generatedPatVersion := 0
  generatedSdtVersion := 0

/-- `mumu_chan_p_t`: the channels that are in use. -/
structure MumuChanP where
  channels : List AutoChannel
  atMost : channels.length ≤ maxChannels

def MumuChanP.map (chanP : MumuChanP) (f : AutoChannel → AutoChannel) : MumuChanP :=
  ⟨chanP.channels.map f, by rw [List.length_map]; exact chanP.atMost⟩

def MumuChanP.set (chanP : MumuChanP) (i : Nat) (chan : AutoChannel) : MumuChanP :=
  ⟨chanP.channels.set i chan, by rw [List.length_set]; exact chanP.atMost⟩

/-- One channel is changed in its place. -/
def MumuChanP.modify (chanP : MumuChanP) (i : Nat) (f : AutoChannel → Checked AutoChannel) :
    Checked MumuChanP :=
  match chanP.channels[i]? with
  | some chan => do return chanP.set i (← f chan)
  | none => .error .outOfBounds

/-- The last one wins, as in a loop that goes on after it has found one. -/
def lastIndex {α : Type} (p : α → Bool) : List α → Option Nat
  | [] => none
  | a :: as =>
    match lastIndex p as with
    | some i => some (i + 1)
    | none => if p a then some 0 else none

/-- A table of which nothing has been read. -/
def unread (version : Int) : Tracker where
  temp := zeroed
  needUpdate := false
  version := version
  sectionsSeen := Buffer.fill _ false
  allSectionsSeen := false
  lastRead := none

/-- `init_aconf_v` and, for the buffers and the CA systems, `autoconf_init`. -/
def initAconfV (options : ChannelStatus.AutoP) : AutoP where
  options := options
  pat := unread (-1)
  cat := unread 0
  sdt := unread (-1)
  nit := unread (-1)
  psip := unread 0
  transportStreamId := -1
  networkId := -1
  originalNetworkId := -1
  needFilterChanUpdate := false
  caSystemList := autoconfClearCaSystemList (Buffer.fill _ ⟨0, 0⟩)

namespace Tracker

variable (t : Tracker) (s : List UInt8)

/-- "check if we saw this section" -/
def alreadySeen : Checked Bool :=
  if (versionNumber s : Int) = t.version then t.sectionsSeen.read (sectionNumber s)
  else .ok false

/-- "New version, no section seen" -/
def renew : Tracker :=
  if (versionNumber s : Int) = t.version then t
  else { t with
    version := versionNumber s
    sectionsSeen := Buffer.fill _ false
    allSectionsSeen := false }

/-- "we store the section" -/
def store : Checked Tracker := do
  let seen ← t.sectionsSeen.write (sectionNumber s) [true]
  return { t with sectionsSeen := seen }

/-- "We check if we saw all sections" -/
def sectionsMissing : Nat := (t.sectionsSeen.cells.take (lastSectionNumber s + 1)).count false

def finish : Tracker :=
  { t with allSectionsSeen := true, needUpdate := false, lastRead := some t.version }

end Tracker

/-- A section that is not looked at again: it has the stored version and its number is marked. -/
def Tracker.Skips (t : Tracker) (s : List UInt8) : Prop :=
  (versionNumber s : Int) = t.version ∧
    t.sectionsSeen.cells[sectionNumber s]? = some true

instance (t : Tracker) (s : List UInt8) : Decidable (t.Skips s) :=
  inferInstanceAs (Decidable (_ ∧ _))

theorem sectionNumber_lt (s : List UInt8) : sectionNumber s < 256 := (byteAt s 6).toNat_lt

theorem Tracker.alreadySeen_eq (t : Tracker) (s : List UInt8) :
    t.alreadySeen s = .ok (decide (t.Skips s)) := by
  rw [alreadySeen]
  split
  case isTrue hsame =>
    obtain ⟨b, hread, hb⟩ := t.sectionsSeen.read_lt (sectionNumber_lt s)
    rw [hread]
    simp [Skips, hsame, hb]
  case isFalse hother => simp [Skips, hother]

/-- A section has been noted: its version is stored and its number marked. -/
structure Noted (t : Tracker) (s : List UInt8) (t' : Tracker) : Prop where
  version : t'.version = versionNumber s
  marked : t'.sectionsSeen.cells[sectionNumber s]? = some true
  temp : t'.temp = t.temp
  needUpdate : t'.needUpdate = t.needUpdate
  lastRead : t'.lastRead = t.lastRead
  allSectionsSeen : t'.allSectionsSeen = true ↔
    t.allSectionsSeen = true ∧ t.version = versionNumber s

theorem Tracker.store_renew (t : Tracker) (s : List UInt8) :
    ∃ t', (t.renew s).store s = .ok t' ∧ Noted t s t' := by
  obtain ⟨seen, hwrite, hmarked, -⟩ :=
    (t.renew s).sectionsSeen.write_cell true (sectionNumber_lt s)
  refine ⟨{ t.renew s with sectionsSeen := seen }, by rw [store, hwrite]; rfl, ?_⟩
  by_cases hsame : (versionNumber s : Int) = t.version
  · rw [renew, if_pos hsame]
    exact ⟨hsame.symm, hmarked, rfl, rfl, rfl, fun h => ⟨h, hsame.symm⟩, fun h => h.1⟩
  · rw [renew, if_neg hsame]
    exact ⟨rfl, hmarked, rfl, rfl, rfl, fun h => absurd h Bool.false_ne_true,
      fun h => absurd h.2.symm hsame⟩

/-- The head of a reading: a section that was seen is skipped, any other is noted and read. -/
theorem Tracker.read_cases {β : Type} {t : Tracker} {s : List UInt8} {same result : β}
    {read : Tracker → Checked β}
    (h : (t.alreadySeen s >>= fun seen =>
      if seen = true then pure same else (t.renew s).store s >>= read) = .ok result) :
    t.Skips s ∧ result = same ∨ ¬ t.Skips s ∧
      ∃ t', (t.renew s).store s = .ok t' ∧ Noted t s t' ∧ read t' = .ok result := by
  obtain ⟨t', hstore, hnoted⟩ := t.store_renew s
  rw [alreadySeen_eq, bind_ok] at h
  by_cases hskip : t.Skips s
  · rw [decide_eq_true hskip, if_pos rfl] at h
    exact .inl ⟨hskip, (Except.ok.inj h).symm⟩
  · rw [decide_eq_false hskip, if_neg Bool.false_ne_true, hstore, bind_ok] at h
    exact .inr ⟨hskip, t', hstore, hnoted, h⟩

section lastIndex

variable {α : Type} {p : α → Bool} {xs : List α}

theorem lastIndex_eq_none : lastIndex p xs = none ↔ ∀ a ∈ xs, p a = false := by
  induction xs with
  | nil => simp [lastIndex]
  | cons a as ih =>
    rw [lastIndex]
    cases h : lastIndex p as with
    | some i =>
      rw [h] at ih
      simp only [reduceCtorEq, false_iff, List.forall_mem_cons] at ih ⊢
      exact fun hall => ih hall.2
    | none =>
      rw [h] at ih
      simp only [true_iff] at ih
      by_cases hp : p a = true
      · simp [hp]
      · simpa [hp] using ih

/-- The index that is found, and that there is none behind it. -/
theorem lastIndex_eq_some {i : Nat} : lastIndex p xs = some i ↔
    (∃ a, xs[i]? = some a ∧ p a = true) ∧ ∀ j, i < j → ∀ b, xs[j]? = some b → p b = false := by
  induction xs generalizing i with
  | nil => simp [lastIndex]
  | cons a as ih =>
    rw [lastIndex]
    cases hrest : lastIndex p as with
    | some k =>
      obtain ⟨⟨b, hb, hp⟩, hbehind⟩ := ih.mp hrest
      cases i with
      | zero =>
        refine iff_of_false (by simp) fun h => ?_
        have hnot := h.2 (k + 1) (Nat.succ_pos k) b (by rw [List.getElem?_cons_succ, hb])
        exact Bool.false_ne_true (hnot.symm.trans hp)
      | succ i =>
        rw [Option.some.injEq, Nat.succ_inj, ← Option.some.injEq, ← hrest, ih]
        refine and_congr_right fun _ => ⟨fun h j hj => ?_, fun h j hj => ?_⟩
        · cases j with
          | zero => exact absurd hj (Nat.not_lt_zero _)
          | succ j => exact h j (Nat.lt_of_succ_lt_succ hj)
        · exact h (j + 1) (Nat.succ_lt_succ hj)
    | none =>
      have hnone := lastIndex_eq_none.mp hrest
      cases i with
      | zero =>
        simp only [ite_eq_left_iff, reduceCtorEq, imp_false, Bool.not_eq_true, Bool.not_eq_false]
        refine ⟨fun hp => ⟨⟨a, rfl, hp⟩, fun j hj b hb => ?_⟩, fun ⟨⟨b, hb, hp⟩, _⟩ => ?_⟩
        · cases j with
          | zero => exact absurd hj (Nat.not_lt_zero _)
          | succ j => exact hnone b (List.mem_of_getElem? hb)
        · cases hb
          exact hp
      | succ i =>
        refine iff_of_false (by dsimp only; split <;> simp) fun ⟨⟨b, hb, hp⟩, _⟩ => ?_
        exact Bool.false_ne_true ((hnone b (List.mem_of_getElem? hb)).symm.trans hp)

theorem lastIndex_some {i : Nat} (h : lastIndex p xs = some i) :
    ∃ a, xs[i]? = some a ∧ p a = true := (lastIndex_eq_some.mp h).1

theorem lastIndex_map {α β : Type} (f : α → β) (q : β → Bool) (xs : List α) :
    lastIndex q (xs.map f) = lastIndex (fun a => q (f a)) xs := by
  induction xs with
  | nil => rfl
  | cons a as ih => rw [List.map_cons, lastIndex, lastIndex, ih]

end lastIndex

end MuMuDVB.Autoconf
