import MuMuDVB.RewriteSection

/-!
# PAT rewriting

`pat_channel_rewrite` walks the programs of the stored PAT and copies those of
the channel while they fit. Its two nested loops are a filter, and the packet
it builds is read back by the section assembler.
-/
namespace MuMuDVB.RewritePat

open CheckedMemory MuMuDVB.TsHeader MuMuDVB.Ts MuMuDVB.TsAssembler MuMuDVB.Channel
open MuMuDVB.RewriteSection MuMuDVB.TsReassembly

/-- Size of the PAT header. -/
@[simp] abbrev patLen : Nat := 8
/-- Size of one program of the PAT. -/
@[simp] abbrev patProgLen : Nat := 4

def programNumber (prog : List UInt8) : Nat := hilo (byteAt prog 0).toNat (byteAt prog 1).toNat
def networkPid (prog : List UInt8) : Nat := hilo ((byteAt prog 2).toNat % 32) (byteAt prog 3).toNat

/-- The loop over the PIDs of the channel. A program is copied for every PID equal to its own. -/
def copyProg (prog : List UInt8) : List Int → List UInt8 → Checked (List UInt8)
  | [], dest => .ok dest
  | pid :: pids, dest =>
    if pid = networkPid prog then
      if tsPacketSize < dest.length + patProgLen + 4 + 1 then .ok dest
      else do
        let dest ← appendDest dest prog
        copyProg prog pids dest
    else copyProg prog pids dest

/-- The body of the loop over the programs. -/
def patProgram (channel : MumudvbChannel) (prog dest : List UInt8) : Checked (List UInt8) :=
  if programNumber prog ≠ 0 then
    if dest.length + patProgLen + 4 < tsPacketSize ∧
        (channel.serviceId = 0 ∨ channel.serviceId = programNumber prog) then
      copyProg prog channel.pids dest
    else .ok dest
  else .ok dest

/-- The loop over the programs, from offset `delta` of the stored section. -/
def patPrograms (fuel : Nat) (channel : MumudvbChannel) (data : Buffer UInt8 maxTsSize)
    (sectionLength delta : Nat) (dest : List UInt8) : Checked (List UInt8) :=
  match fuel with
  | 0 => .error .endless
  | fuel + 1 =>
    if delta + patProgLen < sectionLength then do
      let prog ← data.slice delta patProgLen
      let dest ← patProgram channel prog dest
      patPrograms fuel channel data sectionLength (delta + patProgLen) dest
    else .ok dest

/-- `pat_channel_rewrite`. -/
def patChannelRewrite (vars : RewriteParameters) (channel : MumudvbChannel) (buf : Packet) :
    Checked (Bool × RewriteState) := do
  let sectionLength := sectionLength vars.fullPat.dataFull.cells
  let buf := startHeader buf
  let dest ← appendDest [] (buf.cells.take tsHeaderLen)
  let data := onlySectionAt vars.fullPat.dataFull 0
  let dest ← appendDest dest (data.cells.take patLen)
  let dest ← patPrograms maxTsSize channel data sectionLength patLen dest
  let generated ← closeSection dest
  return (true, {
    vars := { vars with fullPat := { vars.fullPat with dataFull := data } }
    channel := { channel with generatedPat := generated }
    buf := buf })

/-- `pat_rewrite_new_channel_packet`. -/
def patRewriteNewChannelPacket (vars : RewriteParameters) (channel : MumudvbChannel)
    (buf : Packet) : Checked (Bool × RewriteState) :=
  if vars.fullPatOk then do
    let (rewritten, st) ← (if vars.patNeedsUpdate = false ∧ channel.channelReady.isReady = true ∧
        channel.generatedPatVersion ≠ vars.patVersion then do
          let (rewritten, st) ← patChannelRewrite vars channel buf
          if rewritten then
            return (true, { st with
              channel := { st.channel with generatedPatVersion := vars.patVersion } })
          else return (false, st)
      else .ok (true, ⟨vars, channel, buf⟩) : Checked (Bool × RewriteState))
    if rewritten then
      if st.channel.generatedPatVersion = st.vars.patVersion then
        return (true, { st with
          buf := setCounter st.channel.generatedPat st.vars.patContinuityCounter })
      else return (false, st)
    else return (false, st)
  else .ok (false, ⟨vars, channel, buf⟩)

/-- `pat_need_update`. -/
def patNeedUpdate (vars : RewriteParameters) (mem : TableMemory) : Checked Bool := do
  match ← getTsBegin mem with
  | none => return false
  | some off =>
    let pat ← mem.slice off 8
    if currentNextIndicator pat = 0 then return false
    else if (versionNumber pat : Int) ≠ vars.patVersion then return true
    else return false

/-- `update_pat_version`. -/
def updatePatVersion (vars : RewriteParameters) : RewriteParameters :=
  { vars with patVersion := versionNumber vars.fullPat.dataFull.cells }

/-- The loop of `pat_rewrite_new_global_packet`: it goes on after a PAT has been stored. -/
def patGlobalLoop (fuel : Nat) (buf : Option Packet) (vars : RewriteParameters) :
    Checked RewriteParameters :=
  match fuel with
  | 0 => .error .endless
  | fuel + 1 => do
    let (avail, fullPat) ← getTsPacket buf vars.fullPat
    let vars := { vars with fullPat := fullPat }
    if avail then
      -- not yet valid: the next section of the packet
      let vars := if currentNextIndicator vars.fullPat.dataFull.cells = 0 then vars
        else { updatePatVersion vars with patNeedsUpdate := false, fullPatOk := true }
      patGlobalLoop fuel none vars
    else return vars

/-- The first part of `pat_rewrite_new_global_packet`: is a new PAT announced? -/
def patCheckUpdate (vars : RewriteParameters) (mem : TableMemory) : Checked RewriteParameters :=
  if vars.patNeedsUpdate then .ok vars
  else do
    let needsUpdate ← patNeedUpdate vars mem
    return { vars with patNeedsUpdate := needsUpdate }

/-- `pat_rewrite_new_global_packet`. -/
def patRewriteNewGlobalPacket (mem : TableMemory) (vars : RewriteParameters) :
    Checked RewriteParameters := do
  let vars ← patCheckUpdate vars mem
  let vars ← (if vars.patNeedsUpdate then patGlobalLoop takeFuel (some mem.packet) vars
    else .ok vars : Checked RewriteParameters)
  return { vars with patContinuityCounter := (vars.patContinuityCounter + 1) % 16 }

/-- Cut bytes into programs; an incomplete one at the end is no program. -/
def progs : List UInt8 → List (List UInt8)
  | a :: b :: c :: d :: rest => [a, b, c, d] :: progs rest
  | _ => []

/-- The programs of a PAT section, between its header and its CRC. -/
def patEntries (s : List UInt8) : List (List UInt8) :=
  progs ((s.take (sectionLength s - 1)).drop patLen)

/-- Whether a program is one of the channel's. -/
def Keeps (channel : MumudvbChannel) (prog : List UInt8) : Prop :=
  programNumber prog ≠ 0 ∧
    (channel.serviceId = 0 ∨ channel.serviceId = programNumber prog) ∧
    (networkPid prog : Int) ∈ channel.pids

instance (channel : MumudvbChannel) (prog : List UInt8) : Decidable (Keeps channel prog) :=
  inferInstanceAs (Decidable (_ ∧ _ ∧ _))

/-- The programs of the stored PAT that are the channel's. -/
def keptProgs (channel : MumudvbChannel) (s : List UInt8) : List (List UInt8) :=
  (patEntries s).filter (fun prog => decide (Keeps channel prog))

variable {channel : MumudvbChannel} {prog dest : List UInt8}

theorem copyProg_of_notMem {pids : List Int} (h : (networkPid prog : Int) ∉ pids) :
    copyProg prog pids dest = .ok dest := by
  induction pids with
  | nil => rfl
  | cons pid pids ih =>
    rw [List.mem_cons, not_or] at h
    rw [copyProg, if_neg (fun hc => h.1 hc.symm), ih h.2]

theorem copyProg_extends {pids : List Int} {dest' : List UInt8}
    (h : copyProg prog pids dest = .ok dest') : dest <+: dest' := by
  induction pids generalizing dest with
  | nil =>
    cases h
    exact List.prefix_refl _
  | cons pid pids ih =>
    rw [copyProg] at h
    split at h
    · split at h
      · cases h
        exact List.prefix_refl _
      · rw [bind_eq_ok] at h
        obtain ⟨dest₁, happ, h⟩ := h
        exact (appendDest_extends happ).trans (ih h)
    · exact ih h

theorem patProgram_extends {dest' : List UInt8} (h : patProgram channel prog dest = .ok dest') :
    dest <+: dest' := by
  unfold patProgram at h
  split at h
  · split at h
    · exact copyProg_extends h
    · cases h
      exact List.prefix_refl _
  · cases h
    exact List.prefix_refl _

theorem patPrograms_extends {data : Buffer UInt8 maxTsSize} {sectionLength fuel delta : Nat}
    {dest' : List UInt8} (h : patPrograms fuel channel data sectionLength delta dest = .ok dest') :
    dest <+: dest' := by
  induction fuel generalizing delta dest with
  | zero => cases h
  | succ fuel ih =>
    rw [patPrograms] at h
    split at h
    · simp only [bind_eq_ok] at h
      obtain ⟨_, _, dest₁, hprog, h⟩ := h
      exact (patProgram_extends hprog).trans (ih h)
    · cases h
      exact List.prefix_refl _

/-- Whatever the PIDs are, a packet that was generated is closed over the incoming header. -/
theorem patChannelRewrite_opened {vars : RewriteParameters} {buf : Packet} {r : Bool}
    {st : RewriteState} (h : patChannelRewrite vars channel buf = .ok (r, st)) :
    ∃ dest, Opened buf.cells dest ∧ closeSection dest = .ok st.channel.generatedPat := by
  simp only [patChannelRewrite, bind_eq_ok, pure_ok, Except.ok.injEq, Prod.mk.injEq] at h
  obtain ⟨dest₀, h₀, dest₁, h₁, dest, hloop, p, hclose, -, rfl⟩ := h
  have hcells := vars.fullPat.dataFull.length_cells
  simp only [maxTsSize] at hcells
  have hopen : Opened buf.cells dest₁ := by
    unfold appendDest at h₀ h₁
    split at h₀ <;> cases h₀
    split at h₁ <;> cases h₁
    rw [List.nil_append, onlySectionAt_zero]
    exact opened_header (by decide) (by omega) (by decide)
  exact ⟨dest, hopen.of_prefix (patPrograms_extends hloop), hclose⟩

/-- With distinct PIDs a program that fits is copied once. -/
theorem copyProg_of_mem {pids : List Int} (hnodup : pids.Nodup) (hprog : prog.length = 4)
    (hfit : dest.length ≤ 179) (h : (networkPid prog : Int) ∈ pids) :
    copyProg prog pids dest = .ok (dest ++ prog) := by
  induction pids with
  | nil => cases h
  | cons pid pids ih =>
    obtain ⟨hnot, hnodup'⟩ := List.nodup_cons.mp hnodup
    rw [copyProg]
    by_cases hpid : pid = networkPid prog
    · rw [if_pos hpid, if_neg (by simp only [tsPacketSize, patProgLen]; omega),
        appendDest_ok (by omega), bind_ok, copyProg_of_notMem (by rw [← hpid]; exact hnot)]
    · rw [if_neg hpid]
      refine ih hnodup' ?_
      rcases List.mem_cons.mp h with h | h
      · exact absurd h.symm hpid
      · exact h

theorem patProgram_spec (hnodup : channel.pids.Nodup) (hprog : prog.length = 4) :
    patProgram channel prog dest =
      .ok (if dest.length ≤ 179 ∧ Keeps channel prog then dest ++ prog else dest) := by
  unfold patProgram Keeps
  by_cases hnumber : programNumber prog ≠ 0
  · by_cases hfit : dest.length ≤ 179
    · by_cases hservice : channel.serviceId = 0 ∨ channel.serviceId = programNumber prog
      · rw [if_pos hnumber, if_pos ⟨by simp only [patProgLen, tsPacketSize]; omega, hservice⟩]
        by_cases hpid : (networkPid prog : Int) ∈ channel.pids
        · rw [copyProg_of_mem hnodup hprog hfit hpid, if_pos ⟨hfit, hnumber, hservice, hpid⟩]
        · rw [copyProg_of_notMem hpid, if_neg (fun hc => hpid hc.2.2.2)]
      · rw [if_pos hnumber, if_neg (fun hc => hservice hc.2), if_neg (fun hc => hservice hc.2.2.1)]
    · rw [if_pos hnumber, if_neg (by simp only [patProgLen, tsPacketSize]; omega),
        if_neg (fun hc => hfit hc.1)]
  · rw [if_neg hnumber, if_neg (fun hc => hnumber hc.2.1)]

/-- What the loop over the programs appends: the kept programs, while they fit. -/
def appendKept (channel : MumudvbChannel) (dest : List UInt8) : List (List UInt8) → List UInt8
  | [] => dest
  | prog :: later =>
    appendKept channel (if dest.length ≤ 179 ∧ Keeps channel prog then dest ++ prog else dest) later

theorem progs_eq_nil {xs : List UInt8} (h : xs.length < 4) : progs xs = [] := by
  match xs, h with
  | [], _ => rfl
  | [_], _ => rfl
  | [_, _], _ => rfl
  | [_, _, _], _ => rfl

theorem progs_of_le {xs : List UInt8} (h : 4 ≤ xs.length) :
    progs xs = xs.take 4 :: progs (xs.drop 4) := by
  match xs, h with
  | a :: b :: c :: d :: rest, _ => rfl

theorem length_of_mem_progs {xs : List UInt8} (h : prog ∈ progs xs) : prog.length = 4 := by
  induction xs using progs.induct with
  | case1 a b c d rest ih =>
    rcases List.mem_cons.mp h with rfl | h
    · rfl
    · exact ih h
  | case2 xs hxs =>
    rw [progs.eq_2 xs hxs] at h
    cases h

/-- The loop over the programs reads inside `data_full` and ends. -/
theorem patPrograms_spec (hnodup : channel.pids.Nodup) {data : Buffer UInt8 maxTsSize}
    {sectionLength : Nat} (hlen : sectionLength < 4096) (fuel delta : Nat) (dest : List UInt8)
    (hfuel : sectionLength ≤ fuel + delta) :
    patPrograms (fuel + 1) channel data sectionLength delta dest =
      .ok (appendKept channel dest (progs ((data.cells.take (sectionLength - 1)).drop delta))) := by
  have hrest : ∀ delta, ((data.cells.take (sectionLength - 1)).drop delta).length =
      sectionLength - 1 - delta := by
    intro delta
    rw [List.length_drop, List.length_take, data.length_cells, Nat.min_eq_left
      (by simp only [maxTsSize]; omega)]
  induction fuel generalizing delta dest with
  | zero =>
    rw [patPrograms, if_neg (by simp only [patProgLen]; omega), progs_eq_nil (by rw [hrest]; omega)]
    rfl
  | succ fuel ih =>
    rw [patPrograms]
    by_cases hmore : delta + 4 < sectionLength
    · have hprog : ((data.cells.take (sectionLength - 1)).drop delta).take 4 =
          (data.cells.drop delta).take 4 := by
        rw [List.drop_take, List.take_take, Nat.min_eq_left (by omega)]
      have hprogLen : ((data.cells.drop delta).take 4).length = 4 := by
        rw [← hprog, List.length_take, hrest]
        omega
      have hcons : progs ((data.cells.take (sectionLength - 1)).drop delta) =
          (data.cells.drop delta).take 4 ::
            progs ((data.cells.take (sectionLength - 1)).drop (delta + 4)) := by
        rw [progs_of_le (by rw [hrest]; omega), hprog, List.drop_drop]
      rw [if_pos hmore, data.slice_ok (by simp only [patProgLen, maxTsSize]; omega), bind_ok,
        patProgram_spec hnodup hprogLen, bind_ok, ih (delta + 4) _ (by omega), hcons, appendKept]
    · rw [if_neg hmore, progs_eq_nil (by rw [hrest]; omega)]
      rfl

/-- The programs that the loop appends, and why it left out the others. -/
theorem appendKept_spec {entries : List (List UInt8)} (hentries : ∀ e ∈ entries, e.length = 4)
    (hdest : dest.length ≤ 183) :
    ∃ kept, appendKept channel dest entries = dest ++ kept.flatten ∧
      kept <+: entries.filter (fun e => decide (Keeps channel e)) ∧
      (dest ++ kept.flatten).length ≤ 183 ∧
      (kept = entries.filter (fun e => decide (Keeps channel e)) ∨
        180 ≤ (dest ++ kept.flatten).length) := by
  induction entries generalizing dest with
  | nil => exact ⟨[], by simp [appendKept], by simp, by simpa using hdest, Or.inl rfl⟩
  | cons e entries ih =>
    have he := hentries e List.mem_cons_self
    have hentries' : ∀ e ∈ entries, e.length = 4 := fun e h => hentries e (List.mem_cons_of_mem _ h)
    rw [appendKept]
    by_cases hkeep : Keeps channel e
    · by_cases hfit : dest.length ≤ 179
      · obtain ⟨kept, happ, hpre, hmax, hall⟩ := @ih (dest ++ e) hentries'
          (by rw [List.length_append]; omega)
        have hassoc : dest ++ (e :: kept).flatten = dest ++ e ++ kept.flatten := by simp
        refine ⟨e :: kept, ?_, ?_, by rw [hassoc]; exact hmax, ?_⟩
        · rw [if_pos ⟨hfit, hkeep⟩, happ, hassoc]
        · rw [List.filter_cons, if_pos (by simpa using hkeep)]
          exact List.cons_prefix_cons.mpr ⟨rfl, hpre⟩
        · rw [List.filter_cons, if_pos (by simpa using hkeep), hassoc]
          rcases hall with hall | hall
          · exact Or.inl (by rw [hall])
          · exact Or.inr hall
      · -- the packet is full from here on
        have hstop : ∀ later, appendKept channel dest later = dest := by
          intro later
          induction later with
          | nil => rfl
          | cons e later ih => rw [appendKept, if_neg (fun hc => hfit hc.1), ih]
        refine ⟨[], ?_, List.nil_prefix, by simpa using hdest, Or.inr ?_⟩
        · rw [if_neg (fun hc => hfit hc.1), hstop]
          simp
        · rw [List.flatten_nil, List.append_nil]
          omega
    · obtain ⟨kept, happ, hpre, hmax, hall⟩ := @ih dest hentries' hdest
      refine ⟨kept, ?_, ?_, hmax, ?_⟩
      · rw [if_neg (fun hc => hkeep hc.2), happ]
      · rw [List.filter_cons, if_neg (by simpa using hkeep)]
        exact hpre
      · rw [List.filter_cons, if_neg (by simpa using hkeep)]
        exact hall

theorem progs_flatten {kept : List (List UInt8)} (h : ∀ e ∈ kept, e.length = 4) :
    progs kept.flatten = kept := by
  induction kept with
  | nil => rfl
  | cons e kept ih =>
    have he := h e List.mem_cons_self
    rw [List.flatten_cons, progs_of_le (by rw [List.length_append]; omega), ← he, List.take_left,
      List.drop_left, ih (fun e' h' => h e' (List.mem_cons_of_mem _ h'))]

theorem drop_makeOnlySection {s : List UInt8} {k : Nat} (hk : 8 ≤ k) :
    (makeOnlySection s).drop k = s.drop k := by
  rw [makeOnlySection, List.drop_set, if_pos (by omega), List.drop_set, if_pos (by omega),
    List.drop_set, if_pos (by omega)]

/-- The programs in `buf_dest` are the programs of the packet. -/
theorem patEntries_sectionOf {h : List UInt8} {p : Packet} {kept : List (List UInt8)}
    (hdest : dest.length = 13) (hopen : Opened h (dest ++ kept.flatten))
    (hclose : closeSection (dest ++ kept.flatten) = .ok p) (hkept : ∀ e ∈ kept, e.length = 4) :
    patEntries (sectionOf p) = kept := by
  have h13 := hopen.atLeast
  obtain ⟨hmax, _⟩ := closeSection_eq_ok hclose
  have hsec := sectionOf_closeSection h13 hclose
  have hopenLen : (openSection (dest ++ kept.flatten)).length =
      (dest ++ kept.flatten).length - 5 := length_openSection
  have hsize := sectionSize_closeSection h13 hmax
  rw [← hsec, sectionSize] at hsize
  simp only [bytesBfrSecLen] at hsize
  have htake : (sectionOf p).take (sectionLength (sectionOf p) - 1) =
      openSection (dest ++ kept.flatten) := by
    rw [show sectionLength (sectionOf p) - 1 = (openSection (dest ++ kept.flatten)).length by omega,
      hsec, List.take_left]
  have hdrop : (openSection (dest ++ kept.flatten)).drop 8 = kept.flatten := by
    rw [openSection_eq, List.drop_set, if_pos (by decide), List.drop_set, if_pos (by decide),
      List.drop_drop, show 5 + 8 = dest.length by omega, List.drop_left]
  rw [patEntries, htake, hdrop, progs_flatten hkept]

theorem length_flatten_progs {kept : List (List UInt8)} (h : ∀ e ∈ kept, e.length = 4) :
    kept.flatten.length = 4 * kept.length := by
  induction kept with
  | nil => rfl
  | cons e kept ih =>
    rw [List.flatten_cons, List.length_append, h e List.mem_cons_self, List.length_cons,
      ih (fun e' h' => h e' (List.mem_cons_of_mem _ h'))]
    omega

/-- `pat_channel_rewrite` stays inside its arrays and keeps the channel's programs, in order,
until the packet is full. -/
theorem patChannelRewrite_spec (hnodup : channel.pids.Nodup) (vars : RewriteParameters)
    (buf : Packet) :
    ∃ st dest, patChannelRewrite vars channel buf = .ok (true, st) ∧ Opened buf.cells dest ∧
      closeSection dest = .ok st.channel.generatedPat ∧
      patEntries (sectionOf st.channel.generatedPat) <+:
        keptProgs channel vars.fullPat.dataFull.cells ∧
      (patEntries (sectionOf st.channel.generatedPat) =
        keptProgs channel vars.fullPat.dataFull.cells ∨ 181 ≤ dest.length) := by
  have hcells := vars.fullPat.dataFull.length_cells
  simp only [maxTsSize] at hcells
  let dest₀ := (startHeader buf).cells.take 5 ++ (makeOnlySection vars.fullPat.dataFull.cells).take 8
  have hopen : Opened buf.cells dest₀ := opened_header (by decide) (by omega) (by decide)
  have hlen : dest₀.length = 13 := by
    simp only [dest₀]
    rw [List.length_append, List.length_take, List.length_take, (startHeader buf).length_cells,
      length_makeOnlySection, hcells]
    rfl
  have hentries : progs (((makeOnlySection vars.fullPat.dataFull.cells).take
      (sectionLength vars.fullPat.dataFull.cells - 1)).drop 8) =
      patEntries vars.fullPat.dataFull.cells := by
    rw [patEntries, List.drop_take, List.drop_take, drop_makeOnlySection (by decide)]
  have hfour : ∀ e ∈ patEntries vars.fullPat.dataFull.cells, e.length = 4 :=
    fun e he => length_of_mem_progs he
  obtain ⟨kept, happ, hpre, hmax, hall⟩ := @appendKept_spec channel dest₀ _ hfour (by omega)
  obtain ⟨p, hclose, _⟩ := closeSection_ok (show (dest₀ ++ kept.flatten).length ≤ 184 by omega)
  have hloop : patPrograms maxTsSize channel (onlySectionAt vars.fullPat.dataFull 0)
      (sectionLength vars.fullPat.dataFull.cells) patLen dest₀ = .ok (dest₀ ++ kept.flatten) := by
    have hbound := sectionLength_lt vars.fullPat.dataFull.cells
    have hspec := @patPrograms_spec channel hnodup (onlySectionAt vars.fullPat.dataFull 0) _ hbound
      4095 8 dest₀ (by omega)
    rw [onlySectionAt_zero, hentries, happ] at hspec
    exact hspec
  have hrun : patChannelRewrite vars channel buf = .ok (true, {
      vars := { vars with fullPat :=
        { vars.fullPat with dataFull := onlySectionAt vars.fullPat.dataFull 0 } }
      channel := { channel with generatedPat := p }
      buf := startHeader buf }) := by
    have hheader : appendDest [] ((startHeader buf).cells.take 5) =
        .ok ((startHeader buf).cells.take 5) := appendDest_ok (by simp)
    have htable : appendDest ((startHeader buf).cells.take 5)
        ((makeOnlySection vars.fullPat.dataFull.cells).take 8) = .ok dest₀ :=
      appendDest_ok (by simp)
    simp only [patChannelRewrite, onlySectionAt_zero, hheader, htable, bind_ok, hloop, hclose,
      pure_ok]
  have hkept : ∀ e ∈ kept, e.length = 4 :=
    fun e he => hfour e (List.mem_of_mem_filter (hpre.subset he))
  have hfull : 180 ≤ (dest₀ ++ kept.flatten).length → 181 ≤ (dest₀ ++ kept.flatten).length := by
    rw [List.length_append, hlen, length_flatten_progs hkept]
    omega
  have hsection := patEntries_sectionOf hlen (hopen.append _) hclose hkept
  exact ⟨_, dest₀ ++ kept.flatten, hrun, hopen.append _, hclose, by rw [hsection]; exact hpre,
    by rw [hsection]; exact hall.imp id hfull⟩

/-- PAT rewriting is a filter: a fresh decoder gets from the packet exactly one section, valid
and applicable at once, whose programs are the channel's programs of the stored PAT, in order;
one is missing only when the packet has no room for it. -/
theorem patChannelRewrite_filter (vars : RewriteParameters) (channel : MumudvbChannel)
    (buf : Packet) (hnodup : channel.pids.Nodup) (hafc : adaptationFieldControl buf.cells = 1) :
    ∃ st s, patChannelRewrite vars channel buf = .ok (true, st) ∧
      Delivers st.channel.generatedPat s ∧ OnlySection s ∧
      patEntries s <+: keptProgs channel vars.fullPat.dataFull.cells ∧
      (patEntries s = keptProgs channel vars.fullPat.dataFull.cells ∨
        tsPacketSize < tsHeaderLen + s.length + patProgLen) := by
  obtain ⟨st, dest, hrun, hopen, hclose, hpre, hall⟩ := patChannelRewrite_spec hnodup vars buf
  obtain ⟨honly, hdeliver⟩ := closeSection_opened hopen hclose
  refine ⟨st, _, hrun, hdeliver.mpr (by rw [hafc]), honly, hpre, ?_⟩
  rcases hall with hall | hall
  · exact Or.inl hall
  · right
    have hsize := sectionOf_closeSection hopen.atLeast hclose
    rw [hsize, List.length_append, length_openSection, TableCrc.length_bytes]
    simp only [tsPacketSize, tsHeaderLen, patProgLen]
    omega

/-- A PAT with the NIT and the programs 1 and 2, on the PIDs 256 and 512. -/
def twoPrograms : RewriteParameters :=
  { initRewrV with fullPat := { zeroed with dataFull := ⟨[0x00, 0xb0, 0x15, 0x00, 0x01, 0xc1, 0x00,
    0x00, 0x00, 0x00, 0xe0, 0x10, 0x00, 0x01, 0xe1, 0x00, 0x00, 0x02, 0xe2, 0x00, 0xec, 0x0a, 0xfe,
    0xbc] ++ List.replicate 4072 0, by rw [List.length_append, List.length_replicate]; rfl⟩ } }

def channelTwo : MumudvbChannel := { zeroedChannel with pids := [512, 513] }

/-- Program 2 is kept, the others are not. -/
theorem patChannelRewrite_twoPrograms :
    ∃ st s, patChannelRewrite twoPrograms channelTwo emptyPatPacket = .ok (true, st) ∧
      Delivers st.channel.generatedPat s ∧ OnlySection s ∧
      patEntries s <+: [[0x00, 0x02, 0xe2, 0x00]] ∧
      (patEntries s = [[0x00, 0x02, 0xe2, 0x00]] ∨ tsPacketSize < tsHeaderLen + s.length + patProgLen) := by
  have hkept : keptProgs channelTwo twoPrograms.fullPat.dataFull.cells =
      [[0x00, 0x02, 0xe2, 0x00]] := by decide +kernel
  have h := patChannelRewrite_filter twoPrograms channelTwo emptyPatPacket (by decide) (by decide)
  rwa [hkept] at h

end MuMuDVB.RewritePat
