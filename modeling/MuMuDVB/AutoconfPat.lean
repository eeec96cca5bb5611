import MuMuDVB.Autoconf
import MuMuDVB.RewritePat

/-!
# Reading the program association table

`autoconf_read_pat` gives every program of an applicable section a channel.
Ready channels that were detected are marked when a new version of the table
comes; the marks that are left when the last section has been read are swept.
-/
namespace MuMuDVB.AutoconfPat

open CheckedMemory MuMuDVB.TsHeader MuMuDVB.Ts MuMuDVB.Autoconf
open MuMuDVB.AutoconfCat (maxChannels)
open MuMuDVB.RewritePat (programNumber networkPid)

/-- Size of the PAT header. -/
@[simp] abbrev patLen : Nat := 8
@[simp] abbrev patProgLen : Nat := 4

/-- The PMT PID of a user joins the PIDs of the channel, if there is room. -/
def addUserPmtPid (chan : AutoChannel) : Checked AutoChannel :=
  let p := chan.pidI
  if p.pmtPidF = .user ∧ (chan.pmtPid : Int) ∉ p.pids ∧ p.numPids < maxPids - 1 then do
    let old ← p.entries.read p.numPids
    let entries ← p.entries.write p.numPids [{ old with pid := chan.pmtPid, type := .pmt }]
    return { chan with pidI := { p with entries := entries, numPids := p.numPids + 1 } }
  else .ok chan

/-- `mumu_init_chan`; the allocation succeeds. -/
def mumuInitChan (chan : AutoChannel) : Checked AutoChannel :=
  addUserPmtPid { chan with
    numPacket := 0
    hasTraffic := true
    numScrambledPackets := 0
    scrambledChannel := false
    generatedPatVersion := -1
    generatedSdtVersion := -1
    pmtPacket := some (chan.pmtPacket.getD zeroed) }

/-- The PMT PID of the program becomes the one of the channel, in its place among the PIDs or
behind them. -/
def setPmtPid (prog : List UInt8) (chan : AutoChannel) : Checked AutoChannel := do
  let pmtPid := networkPid prog
  let p := chan.pidI
  let found := lastIndex (fun pid => pid = (pmtPid : Int)) p.pids
  let entries ← p.entries.write (found.getD p.numPids) [⟨pmtPid, .pmt, [0x2d, 0x2d, 0x2d]⟩]
  return { chan with
    pmtPid := pmtPid
    pidI := { p with
      entries := entries
      numPids := if found = none then p.numPids + 1 else p.numPids }
    pmtPacket := some (chan.pmtPacket.getD zeroed) }

/-- A channel whose service is in the table. -/
def keepUp (chan : AutoChannel) : Checked AutoChannel :=
  if chan.channelReady = .readyExisting then .ok { chan with channelReady := .ready }
  else if chan.channelReady = .removed then mumuInitChan { chan with channelReady := .notReady }
  else .ok chan

/-- What `autoconf_pat_update_chan` does with the channel that it has found or created. -/
def updateProgram (prog : List UInt8) (chan : AutoChannel) : Checked AutoChannel := do
  let chan ← keepUp chan
  let chan ← (if chan.pidI.pmtPidF ≠ .user then setPmtPid prog chan else .ok chan)
  return { chan with pmtVersion := -1 }

/-- The channel for a new service. -/
def newChannel (serviceId : Nat) : Checked AutoChannel := do
  let chan ← mumuInitChan { unusedChannel with
    http := { unusedChannel.http with serviceId := serviceId }
    serviceIdFrom := .detected }
  return { chan with channelReady := .notReady }

def hasService (serviceId : Nat) (chan : AutoChannel) : Bool := chan.http.serviceId = serviceId

theorem append_atMost {channels : List AutoChannel} (h : channels.length < maxChannels - 1)
    (chan : AutoChannel) : (channels ++ [chan]).length ≤ maxChannels := by
  rw [List.length_append, List.length_singleton]
  omega

/-- `autoconf_pat_update_chan`. -/
def autoconfPatUpdateChan (chanP : MumuChanP) (prog : List UInt8) : Checked MumuChanP :=
  match lastIndex (hasService (programNumber prog)) chanP.channels with
  | some i => chanP.modify i (updateProgram prog)
  | none =>
    if h : chanP.channels.length < maxChannels - 1 then do
      let chan ← updateProgram prog (← newChannel (programNumber prog))
      return ⟨chanP.channels ++ [chan], append_atMost h chan⟩
    else .ok chanP

/-- The programs that `while((delta+PAT_PROG_LEN)<(section_length))` visits. -/
def programsFrom (pat : List UInt8) : Nat → Nat → List (List UInt8)
  | 0, _ => []
  | fuel + 1, delta =>
    if delta + patProgLen < sectionLength pat then
      (pat.drop delta).take patProgLen :: programsFrom pat fuel (delta + patProgLen)
    else []

/-- The programs of the section but program 0, which gives the PID of the NIT. -/
def patPrograms (pat : List UInt8) : List (List UInt8) :=
  (programsFrom pat maxTsSize patLen).filter fun prog => programNumber prog ≠ 0

/-- "We mark previously existing autodetected channels" -/
def markExisting (chan : AutoChannel) : AutoChannel :=
  if chan.channelReady = .ready ∧ chan.serviceIdFrom = .detected then
    { chan with channelReady := .readyExisting }
  else chan

/-- What the end of the table means for a channel. -/
def sweep (chan : AutoChannel) : AutoChannel :=
  if chan.channelReady = .readyExisting then { chan with channelReady := .removed }
  else { chan with pmtVersion := -1 }

/-- The head of `autoconf_read_pat`, for a section that is not skipped and now noted. -/
def startSection (s : AutoP) (chanP : MumuChanP) (pat : List UInt8) (noted : Tracker) :
    AutoP × MumuChanP :=
  if (versionNumber pat : Int) = s.pat.version then ({ s with pat := noted }, chanP)
  else ({ s with pat := noted, sdt := { s.sdt with version := -1 } }, chanP.map markExisting)

/-- The end of `autoconf_read_pat`. -/
def finishPat (s : AutoP) (chanP : MumuChanP) (pat : List UInt8) : AutoP × MumuChanP :=
  if s.pat.sectionsMissing pat ≠ 0 then (s, chanP)
  else ({ s with pat := s.pat.finish, sdt := { s.sdt with version := -1 } }, chanP.map sweep)

def transportStreamId (pat : List UInt8) : Nat := hilo (byteAt pat 3).toNat (byteAt pat 4).toNat

/-- `autoconf_read_pat`. -/
def autoconfReadPat (s : AutoP) (chanP : MumuChanP) : Checked (AutoP × MumuChanP) := do
  let pat := s.pat.temp.dataFull.cells
  if ← s.pat.alreadySeen pat then return (s, chanP)
  else do
    let noted ← (s.pat.renew pat).store pat
    let (s, chanP) := startSection s chanP pat noted
    if currentNextIndicator pat = 0 then return (s, chanP)
    else do
      let chanP ← (patPrograms pat).foldlM autoconfPatUpdateChan chanP
      return finishPat { s with transportStreamId := transportStreamId pat } chanP pat

section spec

variable {prog : List UInt8} {chan chan' : AutoChannel} {chanP chanP' : MumuChanP}

theorem addUserPmtPid_server (h : addUserPmtPid chan = .ok chan') :
    chan'.toUnicastChannel = chan.toUnicastChannel := by
  rw [addUserPmtPid] at h
  split at h
  · obtain ⟨old, -, h⟩ := bind_eq_ok.mp h
    obtain ⟨entries, -, h⟩ := bind_eq_ok.mp h
    cases h
    rfl
  · cases h
    rfl

theorem mumuInitChan_server (h : mumuInitChan chan = .ok chan') :
    chan'.toUnicastChannel = chan.toUnicastChannel := by
  rw [mumuInitChan] at h
  rw [addUserPmtPid_server h]

theorem setPmtPid_server (h : setPmtPid prog chan = .ok chan') :
    chan'.toUnicastChannel = { chan.toUnicastChannel with pmtPid := networkPid prog } := by
  obtain ⟨entries, -, h⟩ := bind_eq_ok.mp h
  cases h
  rfl

/-- The status of a channel whose service is in the table. -/
def keptUp : Channel.ChanStatus → Channel.ChanStatus
  | .readyExisting => .ready
  | .removed => .notReady
  | status => status

theorem keepUp_server (h : keepUp chan = .ok chan') : chan'.toUnicastChannel =
    { chan.toUnicastChannel with channelReady := keptUp chan.channelReady } := by
  rw [keepUp] at h
  split at h
  case isTrue hexisting =>
    cases h
    rw [hexisting]
    rfl
  case isFalse hexisting =>
    split at h
    case isTrue hremoved =>
      rw [mumuInitChan_server h, hremoved]
      rfl
    case isFalse hremoved =>
      cases h
      have hsame : keptUp chan.channelReady = chan.channelReady := by
        cases hready : chan.channelReady <;> simp_all [keptUp]
      rw [hsame]

/-- What the program makes of the part of the channel that the server sees. -/
theorem updateProgram_server (h : updateProgram prog chan = .ok chan') :
    ∃ pmtPid, chan'.toUnicastChannel = { chan.toUnicastChannel with
      channelReady := keptUp chan.channelReady, pmtPid := pmtPid } := by
  obtain ⟨chan₁, hkeep, h⟩ := bind_eq_ok.mp h
  obtain ⟨chan₂, hset, h⟩ := bind_eq_ok.mp h
  cases h
  have hserver := keepUp_server hkeep
  split at hset
  · exact ⟨networkPid prog, by rw [setPmtPid_server hset, hserver]⟩
  · cases hset
    exact ⟨chan.pmtPid, hserver⟩

theorem newChannel_server {serviceId : Nat} (h : newChannel serviceId = .ok chan) :
    chan.toUnicastChannel = { unusedChannel.toUnicastChannel with
      http := { unusedChannel.http with serviceId := serviceId }
      serviceIdFrom := .detected
      channelReady := .notReady } := by
  obtain ⟨chan₁, hinit, h⟩ := bind_eq_ok.mp h
  cases h
  rw [mumuInitChan_server hinit]

/-- What the program leaves of the table of channels: one channel is changed in its place or put
behind the others, or there is no room. -/
inductive Updated (prog : List UInt8) (chanP : MumuChanP) : MumuChanP → Prop where
  | found {i : Nat} {chan chan' : AutoChannel} (here : chanP.channels[i]? = some chan)
      (service : chan.http.serviceId = programNumber prog)
      (update : updateProgram prog chan = .ok chan') : Updated prog chanP (chanP.set i chan')
  | created {chan chan' : AutoChannel} {chanP' : MumuChanP}
      (none : ∀ old ∈ chanP.channels, old.http.serviceId ≠ programNumber prog)
      (room : chanP.channels.length < maxChannels - 1)
      (new : newChannel (programNumber prog) = .ok chan)
      (update : updateProgram prog chan = .ok chan')
      (behind : chanP'.channels = chanP.channels ++ [chan']) : Updated prog chanP chanP'
  | full (none : ∀ old ∈ chanP.channels, old.http.serviceId ≠ programNumber prog)
      (full : maxChannels - 1 ≤ chanP.channels.length) : Updated prog chanP chanP

theorem autoconfPatUpdateChan_cases (h : autoconfPatUpdateChan chanP prog = .ok chanP') :
    Updated prog chanP chanP' := by
  rw [autoconfPatUpdateChan] at h
  split at h
  case h_1 i hfound =>
    obtain ⟨chan, hhere, hservice⟩ := lastIndex_some hfound
    rw [MumuChanP.modify, hhere] at h
    obtain ⟨chan', hupdate, h⟩ := bind_eq_ok.mp h
    cases h
    exact .found hhere (of_decide_eq_true hservice) hupdate
  case h_2 hnone =>
    have hnone : ∀ old ∈ chanP.channels, old.http.serviceId ≠ programNumber prog :=
      fun old hold => of_decide_eq_false (lastIndex_eq_none.mp hnone old hold)
    split at h
    case isTrue hroom =>
      obtain ⟨chan, hnew, h⟩ := bind_eq_ok.mp h
      obtain ⟨chan', hupdate, h⟩ := bind_eq_ok.mp h
      cases h
      exact .created hnone hroom hnew hupdate rfl
    case isFalse hfull =>
      cases h
      exact .full hnone (Nat.le_of_not_lt hfull)

/-- What reading a section does: it is skipped, it is only noted, or its programs are read. -/
inductive PatRead (s : AutoP) (chanP : MumuChanP) (pat : List UInt8) :
    AutoP → MumuChanP → Prop where
  | skipped (skip : s.pat.Skips pat) : PatRead s chanP pat s chanP
  | next {noted : Tracker} (unseen : ¬ s.pat.Skips pat)
      (stored : (s.pat.renew pat).store pat = .ok noted) (next : currentNextIndicator pat = 0) :
      PatRead s chanP pat (startSection s chanP pat noted).1 (startSection s chanP pat noted).2
  | read {noted : Tracker} {chanP₁ : MumuChanP} (unseen : ¬ s.pat.Skips pat)
      (stored : (s.pat.renew pat).store pat = .ok noted) (current : currentNextIndicator pat ≠ 0)
      (programs : (patPrograms pat).foldlM autoconfPatUpdateChan
        (startSection s chanP pat noted).2 = .ok chanP₁) :
      PatRead s chanP pat
        (finishPat { (startSection s chanP pat noted).1 with
          transportStreamId := transportStreamId pat } chanP₁ pat).1
        (finishPat { (startSection s chanP pat noted).1 with
          transportStreamId := transportStreamId pat } chanP₁ pat).2

theorem autoconfReadPat_cases {s s' : AutoP}
    (h : autoconfReadPat s chanP = .ok (s', chanP')) :
    PatRead s chanP s.pat.temp.dataFull.cells s' chanP' := by
  rw [autoconfReadPat] at h
  rcases Tracker.read_cases h with ⟨hskip, hsame⟩ | ⟨hskip, noted, hstored, -, h⟩
  · cases hsame
    exact .skipped hskip
  · dsimp only at h
    split at h
    case isTrue hnext =>
      cases h
      exact .next hskip hstored hnext
    case isFalse hcurrent =>
      obtain ⟨chanP₁, hprograms, h⟩ := bind_eq_ok.mp h
      obtain rfl : _ = s' := congrArg Prod.fst (Except.ok.inj h)
      obtain rfl : _ = chanP' := congrArg Prod.snd (Except.ok.inj h)
      exact .read hskip hstored hcurrent hprograms

end spec

end MuMuDVB.AutoconfPat
