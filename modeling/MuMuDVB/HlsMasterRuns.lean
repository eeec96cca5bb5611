import MuMuDVB.HlsMaster

/-!
# The master playlist while the entries change

Entries are made by the buffers of the channels, rotated and removed by the
periodic task. Now and then `hls_playlist_master` looks at them: it writes the
playlist again when the checksum is not the stored one, which is zero at first.
-/
namespace MuMuDVB.HlsMasterRuns

open CheckedMemory CString Hls HlsArray HlsMaster RecordedRun

/-- The entry of the service, or else the first that is not used. -/
def hlsEntryFind (serviceId : Int) (fds : List Fd) : Option Nat :=
  (fds.findIdx? fun fd => fd.entry.initialized && fd.entry.serviceId == serviceId).or
    (fds.findIdx? fun fd => !fd.entry.initialized)

section worker

variable (settings : Settings) (opens : Opens) (channel : Channel) (arrival : Arrival)

/-- The entry, which the first buffer of the channel initializes. -/
def readyEntry (fd : Fd) : Checked Fd :=
  if fd.entry.initialized then .ok fd
  else hlsEntryInitialize settings opens channel arrival.curTime

/-- What a buffer of the channel makes of its entry. A write without an open stream has no
result. -/
def writeEntry (fd : Fd) : Checked Fd := do
  let fd ← readyEntry settings opens channel arrival fd
  match (alone fd.entry).hlsWorkerMain { settings with serviceId := channel.serviceId } opens
      arrival with
  | some s => return { fd with entry := s.entry }
  | none => .error .released

/-- If there is no entry left, the program exits. -/
def hlsWorkerMain (fds : List Fd) : Checked (List Fd) :=
  if settings.skips arrival then .ok fds
  else
    match hlsEntryFind channel.serviceId fds with
    | some entry => do
      let fd ← writeEntry settings opens channel arrival (fds.getD entry cleared)
      return fds.set entry fd
    | none => .error .outOfBounds

end worker

/-- The entries, the master playlist, whether the last step was a call that returned no error, and
what the entries were when the playlist was written last. -/
structure State where
  fds : List Fd
  master : Master
  returned : Bool
  written : Option (List Fd)

inductive Event where
  | worker (opens : Opens) (channel : Channel) (arrival : Arrival)
  | visit (opens : Opens) (entry : Nat) (curTime : UInt32)
  | cleanup (curTime : UInt32)
  | master (opens : Bool)

section system

variable (settings : Settings) (playlistIgnoreDead : Bool)

def step (s : State) : Event → Checked State
  | .worker opens channel arrival => do
    let fds ← hlsWorkerMain settings opens channel arrival s.fds
    return { s with fds, returned := false }
  | .visit opens entry curTime => .ok { s with
    fds := s.fds.modify entry (periodicTurn settings opens curTime), returned := false }
  | .cleanup curTime => .ok { s with
    fds := hlsArrayCleanup curTime settings.hlsRotateTime s.fds, returned := false }
  | .master opens => do
    let (master, returned) ← hlsPlaylistMaster playlistIgnoreDead opens s.fds s.master
    return { s with
      master
      returned
      written := if s.master.checksum ≠ calcChecksum (listedSids playlistIgnoreDead 0 s.fds) ∧ opens
        then some s.fds else s.written }

/-- The entries are cleared and nothing was listed. A file may be there from before. -/
def start (file : Option (List UInt8)) : State :=
  ⟨List.replicate maxChannels cleared, ⟨0, file⟩, false, none⟩

def masterSystem : System State Event where
  Initial s := ∃ file, s = start file
  Step s e s' := step settings playlistIgnoreDead s e = .ok s'

end system

/-- What the master playlist says of an entry. -/
structure Line where
  serviceId : Int
  name : Buffer UInt8 lenMax
  namePlaylist : Buffer UInt8 lenMax
  deriving DecidableEq

def line (fd : Fd) : Line := ⟨fd.entry.serviceId, fd.name, fd.namePlaylist⟩

def lineText (l : Line) : Checked (List UInt8) := do
  let name ← cstring l.name.cells
  let namePlaylist ← cstring l.namePlaylist.cells
  return extinf name namePlaylist

section system

variable (playlistIgnoreDead : Bool)

/-- The lines of the active entries, in the order of the array. -/
def listing (fds : List Fd) : List Line :=
  (fds.filter (isListed playlistIgnoreDead)).map line

/-- The file lists exactly the active entries, by service id. -/
def UpToDate (fds : List Fd) (file : Option (List UInt8)) : Prop :=
  ∃ lines texts, lines.Perm (listing playlistIgnoreDead fds) ∧
    lines.Pairwise (fun a b => a.serviceId ≤ b.serviceId) ∧
    List.Forall₂ (fun l text => lineText l = .ok text) lines texts ∧
    file = some (header ++ texts.flatten)

/-- At a call of `hls_playlist_master` the sum is the stored one only if the active entries are
listed already, and no two service ids are so far apart that their difference overflows. -/
def Distinguished (s : State) : Event → Prop
  | .master _ =>
    (calcChecksum (listedSids playlistIgnoreDead 0 s.fds) = s.master.checksum →
      ∃ fds, s.written = some fds ∧
        (listing playlistIgnoreDead fds).Perm (listing playlistIgnoreDead s.fds)) ∧
    ∀ l ∈ listing playlistIgnoreDead s.fds, ∀ l' ∈ listing playlistIgnoreDead s.fds,
      int (l.serviceId - l'.serviceId) = l.serviceId - l'.serviceId
  | _ => True

end system

section master

variable {playlistIgnoreDead : Bool} {fds : List Fd}

theorem UpToDate.congr {fds' : List Fd} {file : Option (List UInt8)}
    (h : UpToDate playlistIgnoreDead fds file)
    (hperm : (listing playlistIgnoreDead fds).Perm (listing playlistIgnoreDead fds')) :
    UpToDate playlistIgnoreDead fds' file := by
  obtain ⟨lines, texts, hlines, hsorted, htexts, hfile⟩ := h
  exact ⟨lines, texts, hlines.trans hperm, hsorted, htexts, hfile⟩

theorem mem_listing {fd : Fd} (hfd : fd ∈ fds) (hlisted : isListed playlistIgnoreDead fd = true) :
    line fd ∈ listing playlistIgnoreDead fds :=
  List.mem_map_of_mem (List.mem_filter.mpr ⟨hfd, hlisted⟩)

/-- The lines of the active entries by the pairs. -/
theorem map_listedSids :
    (listedSids playlistIgnoreDead 0 fds).map (fun sid => line (fds.getD sid.2 cleared)) =
      listing playlistIgnoreDead fds := by
  have hfilter : fds.filter (isListed playlistIgnoreDead) =
      (fds.zipIdx.filter fun fd => isListed playlistIgnoreDead fd.1).map (·.1) := by
    conv_lhs => rw [← List.zipIdx_map_fst 0 fds, List.filter_map]
    rfl
  rw [listing, hfilter, listedSids, List.map_map, List.map_map]
  refine List.map_congr_left fun fd hfd => ?_
  have hget := List.mem_zipIdx_iff_getElem?.mp (List.mem_of_mem_filter hfd)
  simp [List.getD_eq_getElem?_getD, hget]

/-- Where no difference overflows, the pairs are sorted by the service ids. -/
theorem sortSids_sorted {sids : List (Int × Nat)}
    (h : ∀ a ∈ sids, ∀ b ∈ sids, int (a.1 - b.1) = a.1 - b.1) :
    (sortSids sids).Pairwise fun a b => a.1 ≤ b.1 := by
  have hmap := List.map_insertionSort (fun a b => hlsSidEntryCompare a b ≤ 0) (· ≤ ·) Prod.fst sids
    fun a ha b hb => by
      rw [hlsSidEntryCompare, h a ha b hb]
      omega
  have hsorted := List.pairwise_insertionSort (· ≤ · : Int → Int → Prop) (sids.map Prod.fst)
  rw [← hmap] at hsorted
  exact List.pairwise_map.mp hsorted

/-- What is written lists the entries as they are. -/
theorem upToDate_of_masterText {text : List UInt8}
    (h : masterText fds (sortSids (listedSids playlistIgnoreDead 0 fds)) = .ok text)
    (hapart : ∀ l ∈ listing playlistIgnoreDead fds, ∀ l' ∈ listing playlistIgnoreDead fds,
      int (l.serviceId - l'.serviceId) = l.serviceId - l'.serviceId) :
    UpToDate playlistIgnoreDead fds (some text) := by
  have hperm : (sortSids (listedSids playlistIgnoreDead 0 fds)).Perm
      (listedSids playlistIgnoreDead 0 fds) := List.perm_insertionSort _ _
  have hline : ∀ sid ∈ listedSids playlistIgnoreDead 0 fds,
      line (fds.getD sid.2 cleared) ∈ listing playlistIgnoreDead fds ∧
        (line (fds.getD sid.2 cleared)).serviceId = sid.1 := by
    intro sid hsid
    obtain ⟨fd, hfd, hlisted, hid⟩ := mem_listedSids hsid
    rw [List.getD_eq_getElem?_getD, hfd]
    exact ⟨mem_listing (List.mem_of_getElem? hfd) hlisted, hid.symm⟩
  have hsorted := sortSids_sorted fun a ha b hb => by
    rw [← (hline a ha).2, ← (hline b hb).2]
    exact hapart _ (hline a ha).1 _ (hline b hb).1
  obtain ⟨texts, htexts, rfl, -⟩ := masterText_eq_ok.mp h
  refine ⟨(sortSids (listedSids playlistIgnoreDead 0 fds)).map
    (fun sid => line (fds.getD sid.2 cleared)), texts, ?_, ?_, ?_, rfl⟩
  · rw [← map_listedSids]
    exact hperm.map _
  · rw [List.pairwise_map]
    refine hsorted.imp_of_mem fun ha hb hle => ?_
    rw [(hline _ (hperm.mem_iff.mp ha)).2, (hline _ (hperm.mem_iff.mp hb)).2]
    exact hle
  · exact List.forall₂_map_left_iff.mpr htexts

end master

section names

variable {settings : Settings} {opens : Opens} {channel : Channel} {arrival : Arrival}
  {fd fd' : Fd} {fds fds' : List Fd}

/-- The arrays of a used entry have the names of a channel. -/
def HasNames (fd : Fd) : Prop := fd.entry.initialized = true → ∃ channel, Named channel fd

theorem cleared_hasNames : HasNames cleared := fun hused => by cases hused

theorem hlsEntryInitialize_named {accessTime : UInt32}
    (h : hlsEntryInitialize settings opens channel accessTime = .ok fd) :
    Named channel fd := by
  obtain ⟨made, hmade, h⟩ := bind_eq_ok.mp h
  split at h
  · cases h
    exact ⟨made, hmade, rfl, rfl⟩
  · cases h
    exact ⟨_, hmade, rfl, rfl⟩

theorem writeEntry_hasNames (hfd : HasNames fd)
    (h : writeEntry settings opens channel arrival fd = .ok fd') : HasNames fd' := by
  obtain ⟨made, hmade, h⟩ := bind_eq_ok.mp h
  have hnamed : ∃ channel, Named channel made := by
    rw [readyEntry] at hmade
    split at hmade
    case isTrue hused =>
      cases hmade
      exact hfd hused
    case isFalse => exact ⟨channel, hlsEntryInitialize_named hmade⟩
  split at h
  case h_1 =>
    cases h
    exact fun _ => hnamed
  case h_2 => cases h

theorem hlsWorkerMain_hasNames (hfds : ∀ fd ∈ fds, HasNames fd)
    (h : hlsWorkerMain settings opens channel arrival fds = .ok fds') :
    ∀ fd ∈ fds', HasNames fd := by
  rw [hlsWorkerMain] at h
  split at h
  case isTrue =>
    cases h
    exact hfds
  case isFalse =>
    split at h
    case h_1 entry _ =>
      obtain ⟨written, hwritten, h⟩ := bind_eq_ok.mp h
      cases h
      have hold : HasNames (fds.getD entry cleared) := by
        rw [List.getD_eq_getElem?_getD]
        cases hget : fds[entry]? with
        | none => exact cleared_hasNames
        | some fd => exact hfds fd (List.mem_of_getElem? hget)
      intro fd hfd
      rcases List.mem_or_eq_of_mem_set hfd with hfd | rfl
      · exact hfds fd hfd
      · exact writeEntry_hasNames hold hwritten
    case h_2 => cases h

/-- Only a used entry is rotated. -/
theorem periodicTurn_hasNames {curTime : UInt32} (h : HasNames fd) :
    HasNames (periodicTurn settings opens curTime fd) := by
  rw [periodicTurn, periodicVisit]
  split
  case isTrue hold =>
    have hnamed := h (Bool.and_eq_true_iff.mp hold).1
    split <;> exact fun _ => hnamed
  case isFalse => exact h

theorem modify_hasNames {f : Fd → Fd} (hf : ∀ fd, HasNames fd → HasNames (f fd))
    (hfds : ∀ fd ∈ fds, HasNames fd) (entry : Nat) : ∀ fd ∈ fds.modify entry f, HasNames fd := by
  intro fd hfd
  obtain ⟨i, hget⟩ := List.mem_iff_getElem?.mp hfd
  rw [List.getElem?_modify] at hget
  obtain ⟨old, hold, rfl⟩ := Option.map_eq_some_iff.mp hget
  have hnames := hfds old (List.mem_of_getElem? hold)
  split
  · exact hf old hnames
  · exact hnames

theorem hlsArrayCleanup_hasNames {curTime hlsRotateTime : UInt32}
    (hfds : ∀ fd ∈ fds, HasNames fd) :
    ∀ fd ∈ hlsArrayCleanup curTime hlsRotateTime fds, HasNames fd := by
  intro fd hfd
  obtain ⟨old, hold, rfl⟩ := List.mem_map.mp hfd
  split
  · exact cleared_hasNames
  · exact hfds old hold

end names

section runs

variable {settings : Settings} {playlistIgnoreDead : Bool} {s s' : State}

/-- The names are in their arrays, and the playlist lists the entries it was written for. -/
structure Keeps (playlistIgnoreDead : Bool) (s : State) : Prop where
  names : ∀ fd ∈ s.fds, HasNames fd
  written : ∀ fds, s.written = some fds → UpToDate playlistIgnoreDead fds s.master.file
  returned : s.returned = true → UpToDate playlistIgnoreDead s.fds s.master.file

/-- A step that does not call `hls_playlist_master`. -/
theorem Keeps.of_fds (h : Keeps playlistIgnoreDead s) {fds : List Fd}
    (hfds : ∀ fd ∈ fds, HasNames fd) :
    Keeps playlistIgnoreDead { s with fds, returned := false } :=
  ⟨hfds, h.written, fun hreturned => by cases hreturned⟩

theorem Keeps.master (h : Keeps playlistIgnoreDead s) {opens : Bool}
    (hcond : Distinguished playlistIgnoreDead s (.master opens))
    (hstep : step settings playlistIgnoreDead s (.master opens) = .ok s') :
    Keeps playlistIgnoreDead s' := by
  obtain ⟨hsame, hapart⟩ := hcond
  obtain ⟨⟨master, returned⟩, hcall, hstep⟩ := bind_eq_ok.mp hstep
  cases hstep
  rw [hlsPlaylistMaster, activeSids_eq h.names, bind_ok] at hcall
  split at hcall
  case isTrue hdiffers =>
    obtain ⟨text, htext, hcall⟩ := bind_eq_ok.mp hcall
    have hnew := upToDate_of_masterText htext hapart
    cases opens with
    | true =>
      cases hcall
      refine ⟨h.names, fun fds hwritten => ?_, fun _ => hnew⟩
      dsimp only at hwritten
      rw [if_pos ⟨hdiffers, rfl⟩] at hwritten
      cases hwritten
      exact hnew
    | false =>
      cases hcall
      refine ⟨h.names, fun fds hwritten => ?_, fun hreturned => by cases hreturned⟩
      dsimp only at hwritten
      rw [if_neg (fun hboth => by cases hboth.2)] at hwritten
      exact h.written fds hwritten
  case isFalse hequal =>
    cases hcall
    refine ⟨h.names, fun fds hwritten => ?_, fun _ => ?_⟩
    · dsimp only at hwritten
      rw [if_neg (fun hboth => hequal hboth.1)] at hwritten
      exact h.written fds hwritten
    · obtain ⟨fds, hwritten, hperm⟩ := hsame (not_not.mp hequal).symm
      exact (h.written fds hwritten).congr hperm

theorem Keeps.step (h : Keeps playlistIgnoreDead s) {e : Event}
    (hcond : Distinguished playlistIgnoreDead s e)
    (hstep : step settings playlistIgnoreDead s e = .ok s') : Keeps playlistIgnoreDead s' := by
  cases e with
  | worker opens channel arrival =>
    obtain ⟨fds, hfds, hstep⟩ := bind_eq_ok.mp hstep
    cases hstep
    exact h.of_fds (hlsWorkerMain_hasNames h.names hfds)
  | visit opens entry curTime =>
    cases hstep
    exact h.of_fds (modify_hasNames (fun _ => periodicTurn_hasNames) h.names entry)
  | cleanup curTime =>
    cases hstep
    exact h.of_fds (hlsArrayCleanup_hasNames h.names)
  | master opens => exact h.master hcond hstep

/-- After each call that returned no error the playlist lists the active entries, in every run
where no two different listings follow one another with the same sum. -/
theorem hlsPlaylistMaster_upToDate {past : List Event}
    (hrun : Run ((masterSystem settings playlistIgnoreDead).restrict
      (Distinguished playlistIgnoreDead)) past s) (hreturned : s.returned = true) :
    UpToDate playlistIgnoreDead s.fds s.master.file := by
  have hkeeps : Keeps playlistIgnoreDead s := by
    refine hrun.invariant (P := fun _ s => Keeps playlistIgnoreDead s) ?_ ?_
    · rintro s ⟨file, rfl⟩
      refine ⟨fun fd hfd => ?_, fun fds hwritten => ?_, fun hreturned => ?_⟩
      · rw [List.eq_of_mem_replicate hfd]
        exact cleared_hasNames
      · cases hwritten
      · cases hreturned
    · intro past s e s' h hstep
      exact h.step hstep.1 hstep.2
  exact hkeeps.returned hreturned

end runs

/-! The station 10001 is listed and removed, then the station 10000 is active in the second entry:
the sum is the same. -/

def arrivalAt (curTime : UInt32) : Arrival := ⟨List.replicate 188 0, false, 0, true, curTime⟩

theorem three_lt : 3 < maxNameLen := by decide

theorem stationId_lt (second : Bool) : second.toNat < 16 := by
  cases second <;> decide

/-- The station with a name of three letters and one of two service ids. -/
def stationOf (second : Bool) : Channel := station ⟨3, three_lt⟩ ⟨second.toNat, stationId_lt second⟩

def firstEvents : List Event :=
  [.worker ⟨true, true⟩ (stationOf true) (arrivalAt 1), .visit ⟨true, true⟩ 0 20, .master true]

def secondEvents : List Event :=
  [.worker ⟨true, true⟩ (stationOf false) (arrivalAt 100), .cleanup 100,
    .visit ⟨true, true⟩ 1 120, .master true]

def exec (events : List Event) : Checked State :=
  events.foldlM (step tenSeconds false) (start none)

def stationText (name : String) : List UInt8 := extinf (List.replicate 3 65) (bytes name)

/-- What a state shows: the playlist and the texts it should have. -/
def view (s : State) : (Bool × Option (List UInt8)) × Checked (List (List UInt8)) :=
  ((s.returned, s.master.file), (listing false s.fds).mapM lineText)

theorem exec_second : (exec (firstEvents ++ secondEvents)).map view =
    .ok ((true, some (header ++ stationText "10001.m3u8")), .ok [stationText "10000.m3u8"]) := by
  decide +kernel

/-- A playlist that is up to date has the text of each active entry. -/
theorem UpToDate.texts {playlistIgnoreDead : Bool} {fds : List Fd} {file : Option (List UInt8)}
    (h : UpToDate playlistIgnoreDead fds file) {text : List UInt8}
    (htext : (listing playlistIgnoreDead fds).mapM lineText = .ok [text]) :
    file = some (header ++ text) := by
  obtain ⟨lines, texts, hperm, -, htexts, rfl⟩ := h
  have hlisting := mapM_eq_ok.mp htext
  obtain ⟨l, rest, hl, hrest, hsingle⟩ := List.forall₂_cons_right_iff.mp hlisting
  rw [List.forall₂_nil_right_iff.mp hrest] at hsingle
  rw [hsingle, List.perm_singleton] at hperm
  rw [hperm] at htexts
  obtain ⟨text', rest', hl', hrest', rfl⟩ := List.forall₂_cons_left_iff.mp htexts
  cases hl.symm.trans hl'
  rw [List.forall₂_nil_left_iff.mp hrest']
  simp

theorem hlsPlaylistMaster_stale :
    (∃ past s, Run (masterSystem tenSeconds false) past s ∧ s.returned = true ∧
      ¬ UpToDate false s.fds s.master.file) ∧
    ∃ s, Run (masterSystem tenSeconds false) [.master true] s ∧ s.returned = true ∧
      s.master.file = none := by
  constructor
  · obtain ⟨s, hexec, hview⟩ := map_eq_ok exec_second
    rw [view, Prod.mk.injEq, Prod.mk.injEq] at hview
    have hstart : Run (masterSystem tenSeconds false) [] (start none) := .start ⟨none, rfl⟩
    refine ⟨_, s, hstart.foldlM id (fun _ _ _ hstep => hstep) hexec, hview.1.1,
      fun hupToDate => ?_⟩
    have hfile := hview.1.2.symm.trans (hupToDate.texts hview.2)
    exact absurd (Option.some.inj hfile) (by decide +kernel)
  · have hempty : (step tenSeconds false (start none) (.master true)).map
        (fun s => (s.returned, s.master.file)) = .ok (true, none) := by decide +kernel
    obtain ⟨s, hstep, hview⟩ := map_eq_ok hempty
    rw [Prod.mk.injEq] at hview
    exact ⟨s, .next (.start ⟨none, rfl⟩) hstep, hview.1, hview.2⟩

/-- What distinguishes a call whose sum is not the stored one. -/
def writes (s : State) : Event → Bool
  | .master _ =>
    calcChecksum (listedSids false 0 s.fds) ≠ s.master.checksum ∧
      ∀ l ∈ listing false s.fds, ∀ l' ∈ listing false s.fds,
        int (l.serviceId - l'.serviceId) = l.serviceId - l'.serviceId
  | _ => true

theorem distinguished_of_writes {s : State} {e : Event} (h : writes s e = true) :
    Distinguished false s e := by
  cases e with
  | master opens =>
    obtain ⟨hdiffers, hapart⟩ := of_decide_eq_true h
    exact ⟨fun hsame => absurd hsame hdiffers, hapart⟩
  | worker | visit | cleanup => trivial

/-- A step if it is one that writes the playlist, or does not call the function at all. -/
def writingStep (s : State) (e : Event) : Checked State :=
  if writes s e then step tenSeconds false s e else .error .negative

theorem hlsPlaylistMaster_upToDate_first :
    ∃ s : State, s.master.file = some (header ++ stationText "10001.m3u8") ∧
      UpToDate false s.fds s.master.file := by
  have hexec : (firstEvents.foldlM writingStep (start none)).map view =
      .ok ((true, some (header ++ stationText "10001.m3u8")), .ok [stationText "10001.m3u8"]) := by
    decide +kernel
  obtain ⟨s, hexec, hview⟩ := map_eq_ok hexec
  rw [view, Prod.mk.injEq, Prod.mk.injEq] at hview
  have hstart : Run ((masterSystem tenSeconds false).restrict (Distinguished false)) []
      (start none) := .start ⟨none, rfl⟩
  have hrun := hstart.foldlM id (fun s e s' hstep => by
    rw [writingStep] at hstep
    split at hstep
    case isTrue hwrites => exact ⟨distinguished_of_writes hwrites, hstep⟩
    case isFalse => cases hstep) hexec
  exact ⟨s, hview.1.2, hlsPlaylistMaster_upToDate hrun hview.1.1⟩

end MuMuDVB.HlsMasterRuns
