import MuMuDVB.Autoconf
import MuMuDVB.CString

/-!
# The channels of the configuration file

The configuration is read line by line. A line `new_channel` begins another
entry of the table of channels, and the lines behind it are about that entry.
The limit of the table is tested at the end of a turn of the loop, after the
entry has been used, and against one channel too many.
-/
namespace MuMuDVB.ConfigChannels

open CheckedMemory CString MuMuDVB.Channel
open MuMuDVB.Autoconf (maxPids)
open MuMuDVB.AutoconfCat (maxChannels)
open MuMuDVB.UnicastClients (Origin)

@[simp] abbrev maxNameLen : Nat := 512

/-- `CONFIG_FILE_SEPARATOR` -/
def separators : List UInt8 := [32, 61]

/-- The next token of `strtok`, and what follows its separator. -/
def token (delimiters s : List UInt8) : Option (List UInt8 × List UInt8) :=
  match s.dropWhile (· ∈ delimiters) with
  | [] => none
  | c :: t => some ((c :: t).takeWhile (· ∉ delimiters),
      ((c :: t).dropWhile (· ∉ delimiters)).drop 1)

/-- All that `strtok` gives one after the other. -/
def tokens (s : List UInt8) : List (List UInt8) :=
  (s.splitOnP (· ∈ separators)).filter (· ≠ [])

/-- How the program ends while it reads its configuration. -/
inductive End where
  | errorConf
  | errorTooChannels
  /-- `main` returns -1 -/
  | returned
  /-- a token that is missing is used -/
  | nullPointer
  deriving DecidableEq, Repr

/-- What the configuration sets of a channel; `others` is for the options of the other modules. -/
structure ConfChannel (τ : Type) where
  channelReady : ChanStatus
  serviceId : Int
  pidF : Origin
  pids : Buffer Int maxPids
  numPids : Nat
  pmtPidF : Origin
  pmtPid : Int
  pmtRewrite : Int
  nameF : Origin
  name : List UInt8
  userName : List UInt8
  others : τ

/-- The state of the loop; `options` is what is not of a channel. -/
structure State (σ τ : Type) where
  ichan : Int
  channels : Buffer (ConfChannel τ) maxChannels
  options : σ

/-- A function as `read_tuning_configuration`: which options are its own, and what it does with
one of them, `c_chan` being the channel or null. -/
structure Reader (σ τ : Type) where
  own : List UInt8 → Bool
  read : List UInt8 → List UInt8 → σ → Option (ConfChannel τ) →
    Except End (σ × Option (ConfChannel τ))

variable {σ τ : Type}

section channel

/-- The loop over the PIDs of a channel, which are written before they are looked at. -/
def readPids : List (List UInt8) → Nat → Buffer Int maxPids →
    Checked (Except End (Nat × Buffer Int maxPids))
  | [], ipid, pids => .ok (.ok (ipid, pids))
  | substring :: rest, ipid, pids => do
    let pids ← pids.write ipid [atoi substring]
    if atoi substring < 10 ∨ 8193 ≤ atoi substring then return .error .errorConf
    else if maxPids ≤ ipid + 1 then return .error .errorConf
    else readPids rest (ipid + 1) pids

/-- The value of `name`, in which spaces are kept. -/
def nameValue (rest : List UInt8) : Option (List UInt8) := do
  let (substring, _) ← token [61] rest
  let (name, _) ← token [10] substring
  return name.take (maxNameLen - 1)

/-- The options of a channel in `main`. -/
def channelOption (substring rest : List UInt8) (chan : ConfChannel τ) :
    Checked (Except End (ConfChannel τ)) :=
  if substring = bytes "pids" then do
    match ← readPids (tokens rest) 0 chan.pids with
    | .error e => return .error e
    | .ok (ipid, pids) =>
      return .ok { chan with pidF := .user, pmtRewrite := 1, pids := pids, numPids := ipid }
  else if substring = bytes "name" then
    match nameValue rest with
    | none => .ok (.error .nullPointer)
    | some name => .ok (.ok { chan with nameF := .user, name := name, userName := name })
  else
    match (token separators rest).map Prod.fst with
    | none => .ok (.error .nullPointer)
    | some value =>
      if substring = bytes "pmt_pid" then
        if atoi value < 10 ∨ 8191 < atoi value then .ok (.error .returned)
        else .ok (.ok { chan with pmtPid := atoi value, pmtPidF := .user })
      else .ok (.ok { chan with serviceId := atoi value })

end channel

section loop

variable (readers : List (Reader σ τ)) (mainOptions : Reader σ τ)

/-- `c_chan` -/
def cChan (s : State σ τ) : Checked (Option (ConfChannel τ)) :=
  if s.ichan < 0 then .ok none
  else do
    let chan ← s.channels.read s.ichan.toNat
    return some chan

/-- What has been done to the channel. -/
def putChan (s : State σ τ) (chan : Option (ConfChannel τ)) : Checked (State σ τ) :=
  match chan with
  | none => .ok s
  | some chan => do
    let channels ← s.channels.write s.ichan.toNat [chan]
    return { s with channels := channels }

/-- The end of a turn. -/
def limit (s : State σ τ) : Except End (State σ τ) :=
  if (maxChannels : Int) < s.ichan then .error .errorTooChannels else .ok s

/-- A line for one of the readers. -/
def readOption (reader : Reader σ τ) (substring rest : List UInt8) (s : State σ τ)
    (chan : Option (ConfChannel τ)) : Checked (Except End (State σ τ)) :=
  match reader.read substring rest s.options chan with
  | .error e => .ok (.error e)
  | .ok (options, chan') => do
    let s ← putChan s (chan.bind fun _ => chan')
    return limit { s with options := options }

/-- `new_channel` -/
def newChannel (s : State σ τ) : Checked (Except End (State σ τ)) := do
  let s := { s with ichan := s.ichan + 1 }
  let chan ← s.channels.read s.ichan.toNat
  let s ← putChan s (some { chan with channelReady := .almostReady })
  return limit s

/-- The line that is split: what is behind its end has been cut off, and without a `=` what is
behind its first token. -/
def split (line : List UInt8) : Option (List UInt8 × List UInt8) :=
  let line := if line.getLast? = some 13 ∨ line.getLast? = some 10 then line.dropLast else line
  match token separators line with
  | none => none
  | some (substring, rest) =>
    if 61 ∉ line ∧ substring ≠ bytes "new_channel" then none
    else if line.head? = some 35 ∨ substring.head? = some 35 then none
    else some (substring, if 61 ∈ line then rest else [])

/-- One turn of the loop. -/
def configLine (s : State σ τ) (line : List UInt8) : Checked (Except End (State σ τ)) :=
  match split line with
  | none => .ok (.ok s)
  | some (substring, rest) => do
    let chan ← cChan s
    match readers.find? fun reader => reader.own substring with
    | some reader => readOption reader substring rest s chan
    | none =>
      if substring = bytes "new_channel" then newChannel s
      else if substring ∈ [bytes "service_id", bytes "ts_id", bytes "pids", bytes "pmt_pid",
          bytes "name"] then
        match chan with
        | none => return .error (if substring = bytes "pmt_pid" then .returned else .errorConf)
        | some chan => do
          match ← channelOption substring rest chan with
          | .error e => return .error e
          | .ok chan => return limit (← putChan s (some chan))
      else if mainOptions.own substring then readOption mainOptions substring rest s chan
      -- "Config issue : unknow symbol"
      else return .ok s

/-- The loop over the lines of the file and those of the command line. -/
def configLoop : List (List UInt8) → State σ τ → Checked (Except End (State σ τ))
  | [], s => .ok (.ok s)
  | line :: lines, s => do
    match ← configLine readers mainOptions s line with
    | .error e => return .error e
    | .ok s => configLoop lines s

end loop

section line

variable {readers : List (Reader σ τ)} {mainOptions : Reader σ τ} {s : State σ τ}

theorem readPids_ok (ts : List (List UInt8)) {ipid : Nat} (pids : Buffer Int maxPids)
    (h : ipid < maxPids) : ∃ r, readPids ts ipid pids = .ok r := by
  induction ts generalizing ipid pids with
  | nil => exact ⟨_, rfl⟩
  | cons substring rest ih =>
    obtain ⟨pids', hwrite, -⟩ := pids.write_ok ipid [atoi substring]
      (by rw [List.length_singleton]; omega)
    rw [readPids, hwrite, bind_ok]
    split
    · exact ⟨_, rfl⟩
    · split
      · exact ⟨_, rfl⟩
      · exact ih pids' (by omega)

theorem channelOption_ok (substring rest : List UInt8) (chan : ConfChannel τ) :
    ∃ r, channelOption substring rest chan = .ok r := by
  rw [channelOption]
  split
  · obtain ⟨r, hread⟩ := readPids_ok (tokens rest) chan.pids (show 0 < maxPids by decide)
    rw [hread, bind_ok]
    cases r <;> exact ⟨_, rfl⟩
  · split
    · split <;> exact ⟨_, rfl⟩
    · split
      · exact ⟨_, rfl⟩
      · split
        · split <;> exact ⟨_, rfl⟩
        · exact ⟨_, rfl⟩

/-- As many entries of the table are in use, and there are no more. -/
structure InUse (s : State σ τ) (k : Nat) : Prop where
  ichan : s.ichan + 1 = k
  atMost : k ≤ maxChannels

/-- A channel that the loop has is in the table. -/
theorem cChan_ok {k : Nat} (h : InUse s k) :
    ∃ chan, cChan s = .ok chan ∧ (chan.isSome → s.ichan.toNat < maxChannels) := by
  obtain ⟨hichan, hmax⟩ := h
  rw [cChan]
  split
  · exact ⟨none, rfl, fun hsome => absurd hsome Bool.false_ne_true⟩
  · have hlt : s.ichan.toNat < maxChannels := by omega
    obtain ⟨chan, hread, -⟩ := s.channels.read_lt hlt
    exact ⟨some chan, by rw [hread]; rfl, fun _ => hlt⟩

theorem putChan_ok (chan : Option (ConfChannel τ))
    (h : chan.isSome → s.ichan.toNat < maxChannels) :
    ∃ s', putChan s chan = .ok s' ∧ s'.ichan = s.ichan := by
  cases chan with
  | none => exact ⟨s, rfl, rfl⟩
  | some chan =>
    obtain ⟨channels, hwrite, -⟩ := s.channels.write_cell chan (h rfl)
    exact ⟨{ s with channels := channels }, by rw [putChan, hwrite]; rfl, rfl⟩

theorem limit_ok {s' : State σ τ} (h : limit s = .ok s') : s' = s := by
  rw [limit] at h
  split at h
  · cases h
  · exact (Except.ok.inj h).symm

/-- A turn of the loop that begins no channel ends with as many. -/
def Keeps (s : State σ τ) (x : Checked (Except End (State σ τ))) : Prop :=
  ∃ r, x = .ok r ∧ ∀ s', r = .ok s' → s'.ichan = s.ichan

theorem readOption_keeps (reader : Reader σ τ) (substring rest : List UInt8)
    (chan : Option (ConfChannel τ)) (h : chan.isSome → s.ichan.toNat < maxChannels) :
    Keeps s (readOption reader substring rest s chan) := by
  rw [readOption]
  split
  · exact ⟨_, rfl, fun s' hs => nomatch hs⟩
  · rename_i options chan' _
    obtain ⟨s₁, hput, hichan⟩ := putChan_ok (s := s) (chan.bind fun _ => chan') (by
      intro hsome
      cases chan with
      | none => cases hsome
      | some chan => exact h rfl)
    rw [hput]
    refine ⟨_, rfl, fun s' hlimit => ?_⟩
    rw [limit_ok hlimit]
    exact hichan

/-- A line that begins another channel. -/
def opens (readers : List (Reader σ τ)) (line : List UInt8) : Bool :=
  match split line with
  | none => false
  | some (substring, _) =>
    substring = bytes "new_channel" && (readers.find? fun reader => reader.own substring).isNone

theorem configLine_keeps (mainOptions : Reader σ τ) {k : Nat} (h : InUse s k) {line : List UInt8}
    (hopens : opens readers line = false) : Keeps s (configLine readers mainOptions s line) := by
  rw [configLine]
  rw [opens] at hopens
  cases hsplit : split line with
  | none => exact ⟨_, rfl, fun s' hs => (Except.ok.inj hs) ▸ rfl⟩
  | some parts =>
    obtain ⟨substring, rest⟩ := parts
    rw [hsplit] at hopens
    obtain ⟨chan, hchan, hin⟩ := cChan_ok h
    dsimp only at hopens ⊢
    rw [hchan, bind_ok]
    cases hfind : readers.find? fun reader => reader.own substring with
    | some reader => exact readOption_keeps reader substring rest chan hin
    | none =>
      rw [hfind] at hopens
      have hother : substring ≠ bytes "new_channel" := by
        intro hnew
        rw [decide_eq_true hnew] at hopens
        cases hopens
      dsimp only
      rw [if_neg hother]
      split
      · cases chan with
        | none => exact ⟨_, rfl, fun s' hs => nomatch hs⟩
        | some chan =>
          obtain ⟨r, hoption⟩ := channelOption_ok substring rest chan
          dsimp only
          rw [hoption, bind_ok]
          cases r with
          | error e => exact ⟨_, rfl, fun s' hs => nomatch hs⟩
          | ok chan' =>
            obtain ⟨s₁, hput, hichan⟩ := putChan_ok (s := s) (some chan') (fun _ => hin rfl)
            dsimp only
            rw [hput]
            refine ⟨_, rfl, fun s' hlimit => ?_⟩
            rw [limit_ok hlimit]
            exact hichan
      · split
        · exact readOption_keeps mainOptions substring rest chan hin
        · exact ⟨_, rfl, fun s' hs => (Except.ok.inj hs) ▸ rfl⟩

/-- A line that begins a channel does what it does without a look at the limit. -/
theorem configLine_opens {k : Nat} (h : InUse s k) {line : List UInt8}
    (hopens : opens readers line = true) :
    configLine readers mainOptions s line = newChannel s := by
  rw [configLine]
  rw [opens] at hopens
  cases hsplit : split line with
  | none =>
    rw [hsplit] at hopens
    cases hopens
  | some parts =>
    obtain ⟨substring, rest⟩ := parts
    rw [hsplit] at hopens
    obtain ⟨chan, hchan, -⟩ := cChan_ok h
    dsimp only at hopens ⊢
    rw [Bool.and_eq_true, decide_eq_true_eq, Option.isNone_iff_eq_none] at hopens
    rw [hchan, bind_ok, hopens.2]
    dsimp only
    rw [if_pos hopens.1]

theorem newChannel_ok {k : Nat} (h : InUse s k) (hroom : k < maxChannels) :
    ∃ s', newChannel s = .ok (.ok s') ∧ InUse s' (k + 1) := by
  obtain ⟨hichan, -⟩ := h
  have hlt : (s.ichan + 1).toNat < maxChannels := by omega
  obtain ⟨chan, hread, -⟩ := s.channels.read_lt hlt
  obtain ⟨s₁, hput, hput'⟩ := putChan_ok (s := { s with ichan := s.ichan + 1 })
    (some { chan with channelReady := .almostReady }) fun _ => hlt
  refine ⟨s₁, ?_, by rw [hput']; push_cast; omega, hroom⟩
  rw [newChannel]
  dsimp only
  rw [hread, bind_ok, hput, bind_ok, limit, if_neg (by rw [hput']; dsimp only; omega)]
  rfl

theorem newChannel_full (h : InUse s maxChannels) : newChannel s = .error .outOfBounds := by
  have hichan := h.ichan
  have hindex : (s.ichan + 1).toNat = maxChannels := by omega
  have hread : s.channels.read maxChannels = .error .outOfBounds := by
    rw [Buffer.read, List.getElem?_eq_none (by rw [s.channels.length_cells])]
  rw [newChannel]
  dsimp only
  rw [hindex, hread]
  rfl

end line

section file

variable (readers : List (Reader σ τ)) (mainOptions : Reader σ τ)

/-- The program begins a channel only where the table has an entry for it, `k` entries being in use
at the start of the file. -/
def Fits (s : State σ τ) (k : Nat) (file : List (List UInt8)) : Prop :=
  ∀ before line after, file = before ++ line :: after →
    (∃ s', configLoop readers mainOptions before s = .ok (.ok s')) →
      opens readers line = true → k + before.countP (opens readers) < maxChannels

variable {readers mainOptions} {s : State σ τ} {k : Nat}

theorem fits_cons {line : List UInt8} {lines : List (List UInt8)} :
    Fits readers mainOptions s k (line :: lines) ↔
      (opens readers line = true → k < maxChannels) ∧
      ∀ s', configLine readers mainOptions s line = .ok (.ok s') →
        Fits readers mainOptions s' (k + if opens readers line = true then 1 else 0) lines := by
  constructor
  · intro h
    refine ⟨fun hopens => ?_, fun s' hline before l after hsplit hread hopens => ?_⟩
    · simpa using h [] line lines rfl ⟨s, rfl⟩ hopens
    · have hreached : ∃ s₂, configLoop readers mainOptions (line :: before) s = .ok (.ok s₂) := by
        obtain ⟨s₂, hread⟩ := hread
        exact ⟨s₂, by rw [configLoop, hline, bind_ok]; exact hread⟩
      have hlt := h (line :: before) l after (by rw [hsplit]; rfl) hreached hopens
      rw [List.countP_cons] at hlt
      omega
  · rintro ⟨hfirst, hrest⟩ before l after hsplit hread hopens
    cases before with
    | nil =>
      cases hsplit
      simpa using hfirst hopens
    | cons line' before =>
      cases hsplit
      obtain ⟨s₂, hread⟩ := hread
      rw [configLoop] at hread
      obtain ⟨r, hline, hread⟩ := bind_eq_ok.mp hread
      cases r with
      | error e => cases hread
      | ok s' =>
        have hlt := hrest s' hline before l after rfl ⟨s₂, hread⟩ hopens
        rw [List.countP_cons]
        omega

theorem configLoop_ok_iff (h : InUse s k) (file : List (List UInt8)) :
    (∃ r, configLoop readers mainOptions file s = .ok r) ↔
      Fits readers mainOptions s k file := by
  induction file generalizing s k with
  | nil =>
    refine ⟨fun _ before line after hsplit => ?_, fun _ => ⟨_, rfl⟩⟩
    exact absurd hsplit.symm (by simp)
  | cons line lines ih =>
    rw [fits_cons, configLoop]
    cases hopens : opens readers line with
    | true =>
      rw [configLine_opens h hopens]
      by_cases hroom : k < maxChannels
      · obtain ⟨s', hnew, hin⟩ := newChannel_ok h hroom
        rw [hnew, bind_ok, if_pos rfl]
        dsimp only
        rw [ih hin]
        constructor
        · exact fun hfits => ⟨fun _ => hroom, fun s₂ heq => by cases heq; exact hfits⟩
        · exact fun hboth => hboth.2 s' rfl
      · obtain rfl : k = maxChannels := Nat.le_antisymm h.atMost (Nat.le_of_not_lt hroom)
        rw [newChannel_full h]
        constructor
        · rintro ⟨r, hr⟩
          cases hr
        · exact fun hboth => absurd (hboth.1 rfl) hroom
    | false =>
      obtain ⟨r, hline, hkeeps⟩ := configLine_keeps mainOptions h hopens
      rw [hline, bind_ok]
      cases r with
      | error e =>
        refine ⟨fun _ => ⟨fun hfalse => absurd hfalse Bool.false_ne_true, fun s' heq => ?_⟩,
          fun _ => ⟨_, rfl⟩⟩
        cases heq
      | ok s' =>
        have hin : InUse s' k := ⟨(hkeeps s' rfl) ▸ h.ichan, h.atMost⟩
        dsimp only
        rw [ih hin, if_neg Bool.false_ne_true]
        constructor
        · exact fun hfits => ⟨fun hfalse => absurd hfalse Bool.false_ne_true,
            fun s₂ heq => by cases heq; exact hfits⟩
        · exact fun hboth => hboth.2 s' rfl

/-- The configuration loop stays in the table of channels exactly when it comes to no `new_channel`
line behind as many of them as the table has entries. -/
theorem configChannels_inside_iff (channels : Buffer (ConfChannel τ) maxChannels) (options : σ)
    (file : List (List UInt8)) :
    (∃ r, configLoop readers mainOptions file ⟨-1, channels, options⟩ = .ok r) ↔
      Fits readers mainOptions ⟨-1, channels, options⟩ 0 file :=
  configLoop_ok_iff ⟨rfl, Nat.zero_le _⟩ file

end file

/-- A channel as `memset` leaves it. -/
def zeroedChannel : ConfChannel Unit where
  channelReady := .almostReady
  serviceId := 0
  pidF := .undef
  pids := Buffer.fill _ 0
  numPids := 0
  pmtPidF := .undef
  pmtPid := 0
  pmtRewrite := 0
  nameF := .undef
  name := []
  userName := []
  others := ()

/-- The options of other modules do not come in the file. -/
def otherModule : Reader Unit Unit := ⟨fun _ => false, fun _ _ options chan => .ok (options, chan)⟩

/-- The last line begins one channel more than the table has entries for. -/
theorem configChannels_tooMany : ¬ ∃ r, configLoop [otherModule] otherModule
    (List.replicate 129 (bytes "new_channel")) ⟨-1, Buffer.fill _ zeroedChannel, ()⟩ = .ok r := by
  have hfault : (configLoop [otherModule] otherModule (List.replicate 129 (bytes "new_channel"))
      ⟨-1, Buffer.fill _ zeroedChannel, ()⟩).isOk = false := by decide +kernel
  rintro ⟨r, hr⟩
  rw [hr] at hfault
  cases hfault

end MuMuDVB.ConfigChannels
