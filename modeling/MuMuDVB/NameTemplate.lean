import MuMuDVB.CString
import MuMuDVB.FuelLoop
import MuMuDVB.StringRewriting

/-!
# mumu_string_replace, autoconf_update_chan_name

A channel's name is made from a template by one call of `mumu_string_replace`
for each pattern. The call searches from the start of the string again after
each replacement, so it ends unless the replacement brings the pattern back.
Strings are the bytes before the terminator; the system decides which blocks of
memory it gives.
-/
namespace MuMuDVB.NameTemplate

open CheckedMemory CString FuelLoop StringRewriting

@[simp] abbrev maxNameLen : Nat := 512

/-- Whether `malloc` or `realloc` has a block of so many bytes. -/
abbrev Allocator := Nat → Bool

/-- `tempstring` with the length the code keeps of it, its terminator counted. -/
structure Temp where
  tempstring : List UInt8
  lengthtempstring : Nat

/-- What a call of `mumu_string_replace` leaves. -/
structure Replaced where
  /-- The result is not NULL. -/
  success : Bool
  source : List UInt8
  length : Nat

section replace

variable (available : Allocator) (toreplace replacement : List UInt8)

/-- One turn of the loop; it is left with nothing when `realloc` fails. -/
def replaceTurn (temp : Temp) : Checked (Turn Temp (Option Temp)) :=
  match strstr toreplace temp.tempstring with
  | none => return .done (some temp)
  | some pospattern =>
    let lengthtempstring := temp.lengthtempstring + replacement.length - toreplace.length
    if toreplace.length < replacement.length ∧ available (lengthtempstring + 1) = false then
      return .done none
    else
      return .again {
        tempstring := temp.tempstring.take pospattern ++ replacement ++
          temp.tempstring.drop (pospattern + toreplace.length)
        lengthtempstring }

/-- `mumu_string_replace`, whose loop is given `fuel` turns. -/
def mumuStringReplace (fuel : Nat) (source : List UInt8) (length : Nat) (canRealloc : Bool) :
    Checked Replaced :=
  match strstr toreplace source with
  | none => return ⟨true, source, length⟩
  | some _ =>
    if available (source.length + 1) = false then return ⟨false, source, length⟩
    else do
      let some temp ← run (replaceTurn available toreplace replacement) fuel
        ⟨source, source.length + 1⟩ | return ⟨false, source, length⟩
      let tempstring := temp.tempstring.take (temp.lengthtempstring - 1)
      if canRealloc then
        if length < temp.lengthtempstring then
          if available temp.lengthtempstring = false then return ⟨false, source, length⟩
          else return ⟨true, tempstring, temp.lengthtempstring⟩
        else return ⟨true, tempstring, length⟩
      else if temp.lengthtempstring ≤ length then return ⟨true, tempstring, length⟩
      else return ⟨true, tempstring.take (length - 1), length⟩

end replace

/-- `mumu_f_t`: where a value comes from. -/
inductive Origin where
  | undef
  | user
  | detected
  deriving DecidableEq, Repr

/-- An entry of `pids_language`, a string in four bytes. -/
structure Language where
  bytes : List UInt8
  fits : bytes.length < 4

/-- What `autoconf_update_chan_name` reads and writes of a channel; `pidsLanguage` are the
languages of its `num_pids` PIDs, `firstLanguage` is the first cell of that array. -/
structure Channel where
  name : List UInt8
  nameF : Origin
  userName : List UInt8
  serviceName : List UInt8
  logicalChannelNumber : Nat
  pidsLanguage : List Language
  firstLanguage : Language
  sapNeedUpdate : Bool

structure AutoP where
  nameTemplate : List UInt8
  nitAllSectionsSeen : Bool

/-- `"%d"`. -/
def decimal (n : Nat) : List UInt8 := bytes (Nat.repr n)

/-- `"%02d"`, `"%03d"`. -/
def decimalPadded (width n : Nat) : List UInt8 :=
  List.replicate (width - (decimal n).length) 48 ++ decimal n

/-- The name before the patterns are replaced, and where it comes from. -/
def startName (autoP : AutoP) (channel : Channel) : List UInt8 × Origin :=
  if autoP.nameTemplate ≠ [] ∧ channel.nameF ≠ .user then (autoP.nameTemplate, .detected)
  else if channel.nameF ≠ .user then (channel.serviceName, .detected)
  else (channel.userName, channel.nameF)

/-- The language put for `%lang`: the first that is known, else the first of the array. -/
def channelLanguage (channel : Channel) : Language :=
  (channel.pidsLanguage.find? fun language => language.bytes.head? ≠ some 45).getD
    channel.firstLanguage

section templates

variable (available : Allocator) (fuel : Nat)

/-- One call of `mumu_string_replace` on the name, a block of `MAX_NAME_LEN` bytes. -/
def replaceName (toreplace : String) (replacement name : List UInt8) : Checked (List UInt8) := do
  let replaced ←
    mumuStringReplace available (bytes toreplace) replacement fuel name maxNameLen false
  return replaced.source

def updateName (autoP : AutoP) (ichan : Nat) (channel : Channel) : Checked Channel := do
  let (name, nameF) := startName autoP channel
  let name ← replaceName available fuel "%name" channel.serviceName name
  let name ← replaceName available fuel "%number" (decimal (ichan + 1)) name
  let hasLcn := (strstr (bytes "%lcn") name).isSome || (strstr (bytes "%2lcn") name).isSome
  let lcn := channel.logicalChannelNumber
  let name ← replaceName available fuel "%lcn" (if lcn ≠ 0 then decimalPadded 3 lcn else []) name
  let name ← replaceName available fuel "%2lcn" (if lcn ≠ 0 then decimalPadded 2 lcn else []) name
  let name ← replaceName available fuel "%lang" (channelLanguage channel).bytes name
  return { channel with
    name, nameF
    sapNeedUpdate := !(hasLcn && !autoP.nitAllSectionsSeen) }

/-- The loop of `autoconf_update_chan_name`, from channel `ichan`. -/
def updateNames (autoP : AutoP) (ichan : Nat) : List Channel → Checked (List Channel)
  | [] => return []
  | channel :: channels => do
    let channel ← updateName available fuel autoP ichan channel
    let channels ← updateNames autoP (ichan + 1) channels
    return channel :: channels

def autoconfUpdateChanName (autoP : AutoP) (channels : List Channel) : Checked (List Channel) :=
  updateNames available fuel autoP 0 channels

end templates

/-- The system does not have the memory for a copy that grows with each replacement. -/
def Refused (available : Allocator) (toreplace replacement source : List UInt8) : Prop :=
  available (source.length + 1) = false ∨
    toreplace.length < replacement.length ∧ ∃ k, available (source.length + 1 +
      (k + 1) * (replacement.length - toreplace.length) + 1) = false

variable {available : Allocator} {toreplace replacement source : List UInt8} {fuel : Nat}

theorem strstr_eq_some {s : List UInt8} {pos : Nat} (h : strstr toreplace s = some pos) :
    s = s.take pos ++ toreplace ++ s.drop (pos + toreplace.length) := by
  induction s generalizing pos with
  | nil =>
    rw [strstr] at h
    split at h
    · next hnil => simp [hnil]
    · cases h
  | cons c s ih =>
    rw [strstr] at h
    split at h
    · next hhead =>
      cases h
      obtain ⟨b, hb⟩ := hhead
      rw [← hb]
      simp
    · obtain ⟨pos, hpos, rfl⟩ := Option.map_eq_some_iff.mp h
      rw [Nat.add_right_comm, List.take_succ_cons, List.drop_succ_cons, List.cons_append,
        List.cons_append, ← ih hpos]

/-- How a turn of the loop ends. -/
theorem replaceTurn_cases (temp : Temp) :
    (¬ toreplace <:+: temp.tempstring ∧
      replaceTurn available toreplace replacement temp = .ok (.done (some temp))) ∨
    (toreplace <:+: temp.tempstring ∧ toreplace.length < replacement.length ∧
      available (temp.lengthtempstring + replacement.length - toreplace.length + 1) = false ∧
      replaceTurn available toreplace replacement temp = .ok (.done none)) ∨
    (¬ (toreplace.length < replacement.length ∧
        available (temp.lengthtempstring + replacement.length - toreplace.length + 1) = false) ∧
      ∃ t, Step toreplace replacement temp.tempstring t ∧
        replaceTurn available toreplace replacement temp =
          .ok (.again ⟨t, temp.lengthtempstring + replacement.length - toreplace.length⟩)) := by
  unfold replaceTurn
  cases hpos : strstr toreplace temp.tempstring with
  | none => exact Or.inl ⟨strstr_eq_none.mp hpos, rfl⟩
  | some pos =>
    have hoccurs : toreplace <:+: temp.tempstring := strstr_isSome.mp (by rw [hpos]; rfl)
    right
    by_cases hrefused : toreplace.length < replacement.length ∧
        available (temp.lengthtempstring + replacement.length - toreplace.length + 1) = false
    · exact Or.inl ⟨hoccurs, hrefused.1, hrefused.2, by simp only [if_pos hrefused]; rfl⟩
    · refine Or.inr ⟨hrefused, _, ⟨_, _, strstr_eq_some hpos, rfl⟩, ?_⟩
      simp only [if_neg hrefused]
      rfl

/-- Where the pattern can be replaced until it is gone, the loop ends. -/
theorem run_of_normalizes (hp : toreplace.Nodup) {k : Nat} {temp : Temp}
    (h : Normalizes toreplace replacement k temp.tempstring) :
    ∃ res, run (replaceTurn available toreplace replacement) (k + 1) temp = .ok res := by
  induction k generalizing temp with
  | zero =>
    rcases @replaceTurn_cases available toreplace replacement temp with
      ⟨-, hturn⟩ | ⟨-, -, -, hturn⟩ | ⟨-, t, hstep, -⟩
    · exact ⟨_, by rw [run, hturn]; rfl⟩
    · exact ⟨_, by rw [run, hturn]; rfl⟩
    · obtain ⟨j, hj, -⟩ := h.of_step hp hstep
      cases hj
  | succ k ih =>
    rcases @replaceTurn_cases available toreplace replacement temp with
      ⟨-, hturn⟩ | ⟨-, -, -, hturn⟩ | ⟨-, t, hstep, hturn⟩
    · exact ⟨_, by rw [run, hturn]; rfl⟩
    · exact ⟨_, by rw [run, hturn]; rfl⟩
    · obtain ⟨j, hj, hnorm⟩ := h.of_step hp hstep
      rw [← Nat.add_right_cancel hj] at hnorm
      rw [run_again hturn]
      exact ih (by exact hnorm)

/-- Where a block is refused, the loop ends at the latest when it asks for it. -/
theorem run_of_refused (hlen : toreplace.length < replacement.length) {k : Nat} {temp : Temp}
    (h : available (temp.lengthtempstring +
      (k + 1) * (replacement.length - toreplace.length) + 1) = false) :
    ∃ res, run (replaceTurn available toreplace replacement) (k + 1) temp = .ok res := by
  induction k generalizing temp with
  | zero =>
    rcases @replaceTurn_cases available toreplace replacement temp with
      ⟨-, hturn⟩ | ⟨-, -, -, hturn⟩ | ⟨hgranted, -⟩
    · exact ⟨_, by rw [run, hturn]; rfl⟩
    · exact ⟨_, by rw [run, hturn]; rfl⟩
    · rw [Nat.zero_add, Nat.one_mul, ← Nat.add_sub_assoc (by omega)] at h
      exact absurd ⟨hlen, h⟩ hgranted
  | succ k ih =>
    rcases @replaceTurn_cases available toreplace replacement temp with
      ⟨-, hturn⟩ | ⟨-, -, -, hturn⟩ | ⟨-, t, -, hturn⟩
    · exact ⟨_, by rw [run, hturn]; rfl⟩
    · exact ⟨_, by rw [run, hturn]; rfl⟩
    · rw [run_again hturn]
      refine ih ?_
      rw [← h]
      congr 2
      rw [Nat.add_mul (k + 1) 1, Nat.one_mul]
      simp only
      omega

/-- Where the pattern comes back for ever and every block is granted, the loop goes on. -/
theorem run_of_endless {temp : Temp} (h : ¬ Terminates toreplace replacement temp.tempstring)
    (hgranted : toreplace.length < replacement.length → ∀ k, available (temp.lengthtempstring +
      (k + 1) * (replacement.length - toreplace.length) + 1) = true) (fuel : Nat) :
    run (replaceTurn available toreplace replacement) fuel temp = .error .endless := by
  induction fuel generalizing temp with
  | zero => rfl
  | succ fuel ih =>
    rcases @replaceTurn_cases available toreplace replacement temp with
      ⟨hgone, -⟩ | ⟨-, hlen, hrefused, -⟩ | ⟨-, t, hstep, hturn⟩
    · exact absurd (.of_normal hgone) h
    · have hfirst := hgranted hlen 0
      rw [Nat.zero_add, Nat.one_mul, ← Nat.add_sub_assoc (by omega), hrefused] at hfirst
      cases hfirst
    · rw [run_again hturn]
      refine ih (fun hterm => h (hterm.step hstep)) fun hlen k => ?_
      rw [← hgranted hlen (k + 1)]
      congr 2
      rw [Nat.add_mul (k + 1) 1, Nat.one_mul]
      simp only
      omega

/-- A call that ends needs no more turns than it had. -/
theorem mumuStringReplace_mono {length : Nat} {canRealloc : Bool} {replaced : Replaced}
    (h : mumuStringReplace available toreplace replacement fuel source length canRealloc =
      .ok replaced) (more : Nat) :
    mumuStringReplace available toreplace replacement (fuel + more) source length canRealloc =
      .ok replaced := by
  unfold mumuStringReplace at h ⊢
  cases hpos : strstr toreplace source with
  | none =>
    rw [hpos] at h
    exact h
  | some pos =>
    rw [hpos] at h
    simp only at h ⊢
    split at h
    · next hrefused =>
      rw [if_pos hrefused]
      exact h
    · next hgranted =>
      rw [if_neg hgranted]
      rw [run_mono]
      · exact h
      · intro hendless
        rw [hendless] at h
        cases h

/-- A call of `mumu_string_replace` ends exactly when the pattern does not come back for ever, or
there is no memory for the copy. -/
theorem mumuStringReplace_returns_iff (hp : toreplace.Nodup) (length : Nat) (canRealloc : Bool) :
    (∃ fuel replaced, mumuStringReplace available toreplace replacement fuel source length
      canRealloc = .ok replaced) ↔
      (Endless toreplace replacement source → Refused available toreplace replacement source) := by
  constructor
  · rintro ⟨fuel, replaced, hcall⟩ hendless
    by_contra hrefused
    rw [Refused, not_or, not_and, not_exists] at hrefused
    obtain ⟨hmalloc, hrealloc⟩ := hrefused
    obtain ⟨pos, hpos⟩ := Option.isSome_iff_exists.mp (strstr_isSome.mpr hendless.1)
    rw [mumuStringReplace, hpos] at hcall
    simp only [if_neg hmalloc] at hcall
    rw [run_of_endless] at hcall
    · cases hcall
    · exact not_terminates_of_endless hp hendless
    · intro hlen k
      rw [← Bool.not_eq_false]
      exact hrealloc hlen k
  · intro h
    have hrun : available (source.length + 1) = false ∨ ∃ fuel res,
        run (replaceTurn available toreplace replacement) fuel ⟨source, source.length + 1⟩ =
          .ok res := by
      by_cases hendless : Endless toreplace replacement source
      · rcases h hendless with hmalloc | ⟨hlen, k, hk⟩
        · exact Or.inl hmalloc
        · have hturns : ∃ res, run (replaceTurn available toreplace replacement) (k + 1)
              ⟨source, source.length + 1⟩ = .ok res := run_of_refused hlen hk
          obtain ⟨res, hres⟩ := hturns
          exact Or.inr ⟨k + 1, res, hres⟩
      · obtain ⟨k, hk⟩ := (terminates_iff hp source).mpr hendless
        have hturns : ∃ res, run (replaceTurn available toreplace replacement) (k + 1)
            ⟨source, source.length + 1⟩ = .ok res := run_of_normalizes hp hk
        obtain ⟨res, hres⟩ := hturns
        exact Or.inr ⟨k + 1, res, hres⟩
    unfold mumuStringReplace
    cases strstr toreplace source with
    | none => exact ⟨0, _, rfl⟩
    | some pos =>
      by_cases hmalloc : available (source.length + 1) = false
      · exact ⟨0, _, by simp only [if_pos hmalloc]; rfl⟩
      · obtain ⟨fuel, res, hres⟩ := hrun.resolve_left hmalloc
        simp only [if_neg hmalloc]
        refine ⟨fuel, ?_⟩
        rw [hres]
        cases res with
        | none => exact ⟨_, rfl⟩
        | some temp =>
          simp only [bind_ok]
          split_ifs <;> exact ⟨_, rfl⟩

/-! ## The calls of autoconf_update_chan_name -/

theorem replaceName_settles {pattern : String} {replacement name : List UInt8}
    (hp : (bytes pattern).Nodup)
    (h : Endless (bytes pattern) replacement name →
      Refused available (bytes pattern) replacement name) :
    ∃ name', Settles (fun fuel => replaceName available fuel pattern replacement name) name' := by
  obtain ⟨fuel, replaced, hcall⟩ := (mumuStringReplace_returns_iff hp maxNameLen false).mpr h
  exact ⟨_, (settles_of_mono (mumuStringReplace_mono hcall)).bind (settles_const replaced.source)⟩

/-- What has no `%` is put into the name once for each occurrence. -/
theorem not_endless_of_noPercent {pattern : String} (hp : (bytes pattern).head? = some 37)
    (h : 37 ∉ replacement) : ¬ Endless (bytes pattern) replacement source := by
  obtain ⟨s, hs⟩ := List.head?_eq_some_iff.mp hp
  rw [hs]
  exact not_endless_of_notMem h

theorem percent_notMem_decimal (n : Nat) : 37 ∉ decimal n := by
  intro h
  obtain ⟨c, hc, hbyte⟩ := List.mem_map.mp h
  rw [Nat.toList_repr] at hc
  have hdigit := Nat.isDigit_of_mem_toDigits (by decide) (by decide) hc
  rw [Char.isDigit, Bool.and_eq_true, decide_eq_true_eq, decide_eq_true_eq] at hdigit
  have hlow : 48 ≤ c.toNat := hdigit.1
  have hhigh : c.toNat ≤ 57 := hdigit.2
  have heq := congrArg UInt8.toNat hbyte
  rw [UInt8.toNat_ofNat'] at heq
  have hsmall : c.toNat % 2 ^ 8 = c.toNat := Nat.mod_eq_of_lt (by omega)
  rw [hsmall] at heq
  have hval : (37 : UInt8).toNat = 37 := rfl
  omega

theorem percent_notMem_lcn (width n : Nat) :
    37 ∉ (if n ≠ 0 then decimalPadded width n else []) := by
  split
  · rw [decimalPadded, List.mem_append, not_or, List.mem_replicate, not_and]
    exact ⟨fun _ => by decide, percent_notMem_decimal n⟩
  · exact List.not_mem_nil

/-- Only the service name can bring its pattern back: the name of a channel is made when it does
not do so for ever, or when there is no memory for it. -/
theorem updateName_settles {autoP : AutoP} (ichan : Nat) {channel : Channel}
    (h : Endless (bytes "%name") channel.serviceName (startName autoP channel).1 →
      Refused available (bytes "%name") channel.serviceName (startName autoP channel).1) :
    ∃ channel', Settles (fun fuel => updateName available fuel autoP ichan channel) channel' := by
  obtain ⟨name₁, h₁⟩ := replaceName_settles (by decide) h
  have hother : ∀ (pattern : String) (replacement name : List UInt8), (bytes pattern).Nodup →
      ¬ Endless (bytes pattern) replacement name →
      ∃ name', Settles (fun fuel => replaceName available fuel pattern replacement name) name' :=
    fun _ _ _ hp hend => replaceName_settles hp fun hend' => absurd hend' hend
  obtain ⟨name₂, h₂⟩ := hother "%number" (decimal (ichan + 1)) name₁ (by decide)
    (not_endless_of_noPercent (by decide) (percent_notMem_decimal _))
  obtain ⟨name₃, h₃⟩ := hother "%lcn" _ name₂ (by decide)
    (not_endless_of_noPercent (by decide) (percent_notMem_lcn 3 channel.logicalChannelNumber))
  obtain ⟨name₄, h₄⟩ := hother "%2lcn" _ name₃ (by decide)
    (not_endless_of_noPercent (by decide) (percent_notMem_lcn 2 channel.logicalChannelNumber))
  obtain ⟨name₅, h₅⟩ := hother "%lang" (channelLanguage channel).bytes name₄ (by decide)
    (not_endless_of_length ((channelLanguage channel).fits.trans (by decide)))
  exact ⟨_, h₁.bind (h₂.bind (h₃.bind (h₄.bind (h₅.bind (settles_const _)))))⟩

theorem updateNames_settles {autoP : AutoP} {channels : List Channel}
    (h : ∀ channel ∈ channels,
      Endless (bytes "%name") channel.serviceName (startName autoP channel).1 →
        Refused available (bytes "%name") channel.serviceName (startName autoP channel).1)
    (ichan : Nat) :
    ∃ channels', Settles (fun fuel => updateNames available fuel autoP ichan channels)
      channels' := by
  induction channels generalizing ichan with
  | nil => exact ⟨[], settles_const []⟩
  | cons channel channels ih =>
    obtain ⟨channel', hchannel⟩ := updateName_settles ichan (h channel List.mem_cons_self)
    obtain ⟨channels', hchannels⟩ := ih (fun c hc => h c (List.mem_cons_of_mem _ hc)) (ichan + 1)
    exact ⟨_, hchannel.bind (hchannels.bind (settles_const _))⟩

/-- When the names of the channels are made, the first call has returned for each of them. -/
theorem updateNames_ok {autoP : AutoP} {channels channels' : List Channel} {ichan : Nat}
    (h : updateNames available fuel autoP ichan channels = .ok channels') :
    ∀ channel ∈ channels, ∃ name, replaceName available fuel "%name" channel.serviceName
      (startName autoP channel).1 = .ok name := by
  induction channels generalizing ichan channels' with
  | nil =>
    intro channel hmem
    cases hmem
  | cons channel channels ih =>
    rw [updateNames] at h
    obtain ⟨channel', hchannel, h⟩ := bind_eq_ok.mp h
    obtain ⟨rest, hrest, -⟩ := bind_eq_ok.mp h
    obtain ⟨name, hname, -⟩ := bind_eq_ok.mp hchannel
    rintro other hmem
    rcases List.mem_cons.mp hmem with rfl | hmem
    · exact ⟨name, hname⟩
    · exact ih hrest other hmem

/-- Templating ends exactly when no service name brings the pattern `%name` back for ever, but
for the lack of memory. -/
theorem autoconfUpdateChanName_returns_iff (available : Allocator) (autoP : AutoP)
    (channels : List Channel) :
    (∃ fuel channels', autoconfUpdateChanName available fuel autoP channels = .ok channels') ↔
      ∀ channel ∈ channels,
        Endless (bytes "%name") channel.serviceName (startName autoP channel).1 →
          Refused available (bytes "%name") channel.serviceName (startName autoP channel).1 := by
  constructor
  · rintro ⟨fuel, channels', h⟩ channel hmem
    obtain ⟨name, hname⟩ := updateNames_ok h channel hmem
    obtain ⟨replaced, hcall, -⟩ := bind_eq_ok.mp hname
    exact (mumuStringReplace_returns_iff (by decide) maxNameLen false).mp ⟨fuel, replaced, hcall⟩
  · intro h
    obtain ⟨channels', n, hn⟩ := updateNames_settles h 0
    exact ⟨n, channels', hn n (Nat.le_refl n)⟩

/-- A service whose name is `%name`. -/
def percentName : Channel where
  name := []
  nameF := .undef
  userName := []
  serviceName := bytes "%name"
  logicalChannelNumber := 0
  pidsLanguage := []
  firstLanguage := ⟨bytes "---", by decide⟩
  sapNeedUpdate := false

/-- Such a name is replaced by itself for ever. -/
theorem percentName_endless :
    ¬ ∀ (available : Allocator) (autoP : AutoP) (channels : List Channel),
      ∃ fuel channels', autoconfUpdateChanName available fuel autoP channels = .ok channels' := by
  intro h
  obtain ⟨fuel, channels', hcall⟩ := h (fun _ => true) ⟨bytes "%name", true⟩ [percentName]
  obtain ⟨name, hname⟩ := updateNames_ok hcall percentName List.mem_cons_self
  have hturn : replaceTurn (fun _ => true) (bytes "%name") (bytes "%name") ⟨bytes "%name", 6⟩ =
      .ok (.again ⟨bytes "%name", 6⟩) := rfl
  have hcalled : mumuStringReplace (fun _ => true) (bytes "%name") (bytes "%name") fuel
      (bytes "%name") maxNameLen false = .error .endless := by
    have hrun := run_still hturn fuel
    change (run (replaceTurn (fun _ => true) (bytes "%name") (bytes "%name")) fuel
      ⟨bytes "%name", 6⟩ >>= _) = _
    rw [hrun]
    rfl
  obtain ⟨replaced, hreplaced, -⟩ := bind_eq_ok.mp hname
  cases hcalled.symm.trans hreplaced

end MuMuDVB.NameTemplate
