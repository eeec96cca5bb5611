import Mathlib.Data.List.Sort
import MuMuDVB.HlsArray
import MuMuDVB.JsonText

/-!
# The master playlist

The master playlist has two lines for each active entry of `hls_fds`: the name of
the channel and the name of its playlist. The text is put together in a block that
is measured by the number of the entries. The names were copied into arrays of
`LEN_MAX` bytes by `strncpy`, which leaves no terminator behind a longer one.
-/
namespace MuMuDVB.HlsMaster

open CheckedMemory CString JsonText Hls HlsArray

/-- `MAX_NAME_LEN` -/
@[simp] abbrev maxNameLen : Nat := 512

/-- A string in an array of `MAX_NAME_LEN` bytes. -/
structure ChannelName where
  text : List UInt8
  zero_notMem : 0 ∉ text
  length_lt : text.length < maxNameLen

/-- What `hls_entry_initialize` reads of `mumudvb_channel_t`. -/
structure Channel where
  serviceId : Int
  serviceId_ge : -2147483648 ≤ serviceId
  serviceId_lt : serviceId < 2147483648
  name : ChannelName
  userName : ChannelName

/-- The name that is shown: the user's own, if there is one. -/
def Channel.shown (channel : Channel) : ChannelName :=
  if channel.userName.text.length ≠ 0 then channel.userName else channel.name

/-- `"%d.m3u8"` -/
def playlistName (serviceId : Int) : List UInt8 := integer serviceId ++ bytes ".m3u8"

/-- `"#EXTINF:0,%s\n%s\n"` -/
def extinf (name namePlaylist : List UInt8) : List UInt8 :=
  bytes "#EXTINF:0," ++ name ++ [10] ++ namePlaylist ++ [10]

/-- The arrays of the cleared entry are filled. -/
def nameEntry (channel : Channel) : Checked Fd := do
  let namePlaylist ← cleared.namePlaylist.write 0 (playlistName channel.serviceId ++ [0])
  let copied ← strncpy lenMax (channel.shown.text ++ [0])
  let name ← cleared.name.write 0 copied
  return { cleared with name, namePlaylist }

/-- An entry whose stream cannot be opened stays unused. -/
def hlsEntryInitialize (settings : Settings) (opens : Opens) (channel : Channel)
    (accessTime : UInt32) : Checked Fd := do
  let fd ← nameEntry channel
  match (alone fd.entry).hlsEntryInitialize { settings with serviceId := channel.serviceId } opens
      accessTime with
  | some s => return { fd with entry := s.entry }
  | none => return fd

/-- The entry is in the master playlist. -/
def isActive (playlistIgnoreDead : Bool) (fd : Fd) : Checked Bool :=
  if fd.entry.initialized && 0 < fd.entry.sequence then do
    let namePlaylist ← cstring fd.namePlaylist.cells
    return namePlaylist.length ≠ 0 && (!playlistIgnoreDead || fd.entry.hasTraffic)
  else .ok false

/-- The service ids of the active entries and where these are, for the entries from `entry` on. -/
def activeSids (playlistIgnoreDead : Bool) (entry : Nat) : List Fd → Checked (List (Int × Nat))
  | [] => .ok []
  | fd :: fds => do
    let active ← isActive playlistIgnoreDead fd
    let sids ← activeSids playlistIgnoreDead (entry + 1) fds
    return if active then (fd.entry.serviceId, entry) :: sids else sids

/-- The difference is an `int`. -/
def hlsSidEntryCompare (a b : Int × Nat) : Int := int (a.1 - b.1)

/-- `qsort` -/
def sortSids (sids : List (Int × Nat)) : List (Int × Nat) :=
  sids.insertionSort fun a b => hlsSidEntryCompare a b ≤ 0

section text

variable (fds : List Fd)

def entryText (entry : Nat) : Checked (List UInt8) := do
  let fd := fds.getD entry cleared
  let name ← cstring fd.name.cells
  let namePlaylist ← cstring fd.namePlaylist.cells
  return extinf name namePlaylist

/-- The texts of the entries go one behind the other into the block, each with a terminator. -/
def masterLoop {n : Nat} (outbuf : Buffer UInt8 n) (playlistSize : Nat) :
    List (Int × Nat) → Checked (Buffer UInt8 n × Nat)
  | [] => .ok (outbuf, playlistSize)
  | (_, entry) :: sids => do
    let text ← entryText fds entry
    let outbuf ← outbuf.write playlistSize (text ++ [0])
    masterLoop outbuf (playlistSize + text.length) sids

def header : List UInt8 := bytes "#EXTM3U\n"

/-- What is written to the master playlist. -/
def masterText (sids : List (Int × Nat)) : Checked (List UInt8) := do
  let outbuf := Buffer.fill ((sids.length + 1) * (lenMax + 16)) 0
  let outbuf ← outbuf.write 0 (header ++ [0])
  let (outbuf, playlistSize) ← masterLoop fds outbuf header.length sids
  outbuf.slice 0 playlistSize

end text

/-- The checksum stored and the bytes of the master playlist. -/
structure Master where
  checksum : UInt32
  file : Option (List UInt8)
  deriving DecidableEq

/-- The sum over the active entries, as an `unsigned int`. -/
def calcChecksum (sids : List (Int × Nat)) : UInt32 :=
  sids.foldl (fun sum sid => sum + UInt32.ofInt (sid.2 + sid.1)) 0

/-- What it returns is whether there was no error. -/
def hlsPlaylistMaster (playlistIgnoreDead opens : Bool) (fds : List Fd) (master : Master) :
    Checked (Master × Bool) := do
  let sids ← activeSids playlistIgnoreDead 0 fds
  if master.checksum ≠ calcChecksum sids then
    let text ← masterText fds (sortSids sids)
    let master := { master with checksum := calcChecksum sids }
    return if opens then ({ master with file := some text }, true) else (master, false)
  else return (master, true)

/-- The names in the arrays of the entry are those of the channel. -/
def Named (channel : Channel) (fd : Fd) : Prop :=
  ∃ made, nameEntry channel = .ok made ∧ fd.name = made.name ∧
    fd.namePlaylist = made.namePlaylist

/-- Each used entry of the array was made for its channel. -/
def Belong (channels : Nat → Channel) (fds : List Fd) : Prop :=
  ∀ entry fd, fds[entry]? = some fd → fd.entry.initialized = true → Named (channels entry) fd

/-- What makes a used entry an active one. -/
def isListed (playlistIgnoreDead : Bool) (fd : Fd) : Bool :=
  fd.entry.initialized && 0 < fd.entry.sequence && (!playlistIgnoreDead || fd.entry.hasTraffic)

/-- The numbers of the active entries. -/
def activeEntries (playlistIgnoreDead : Bool) (fds : List Fd) : List Nat :=
  (fds.zipIdx.filter fun fd => isListed playlistIgnoreDead fd.1).map (·.2)

/-- The text with the names of the channels in full. -/
def wholeText (channels : Nat → Channel) (entries : List Nat) : List UInt8 :=
  header ++ entries.flatMap fun entry =>
    extinf (channels entry).shown.text (playlistName (channels entry).serviceId)

section text

variable {fds : List Fd}

/-- The texts are in the block, if the last terminator is. -/
theorem masterLoop_ok {n : Nat} (outbuf : Buffer UInt8 n) {playlistSize : Nat}
    {sids : List (Int × Nat)} {texts : List (List UInt8)}
    (htexts : List.Forall₂ (fun sid text => entryText fds sid.2 = .ok text) sids texts)
    (hfits : playlistSize + texts.flatten.length < n) :
    ∃ outbuf', masterLoop fds outbuf playlistSize sids =
        .ok (outbuf', playlistSize + texts.flatten.length) ∧
      outbuf'.cells.take (playlistSize + texts.flatten.length) =
        outbuf.cells.take playlistSize ++ texts.flatten := by
  induction htexts generalizing outbuf playlistSize with
  | nil => exact ⟨outbuf, rfl, by simp⟩
  | @cons sid text sids texts htext _ ih =>
    rw [List.flatten_cons, List.length_append] at hfits ⊢
    obtain ⟨written, hwrite, hcells⟩ := outbuf.write_ok playlistSize (text ++ [0])
      (by rw [List.length_append, List.length_singleton]; omega)
    obtain ⟨outbuf', hloop, htake⟩ := @ih written (playlistSize + text.length) (by omega)
    have hfront : written.cells.take (playlistSize + text.length) =
        outbuf.cells.take playlistSize ++ text := by
      have hsize := outbuf.length_cells
      have hlong : (splice outbuf.cells playlistSize (text ++ [0])).take
          (playlistSize + (text ++ [0]).length) = _ := take_splice (by omega) rfl
      have hcut := congrArg (List.take (playlistSize + text.length)) hlong
      have hlen : (outbuf.cells.take playlistSize ++ text).length = playlistSize + text.length := by
        simp
        omega
      rw [List.take_take, List.length_append, List.length_singleton, Nat.min_eq_left (by omega),
        ← List.append_assoc, ← hlen, List.take_left, hlen] at hcut
      rw [hcells, hcut]
    refine ⟨outbuf', ?_, ?_⟩
    · rw [masterLoop, htext, bind_ok, hwrite, bind_ok, hloop, Nat.add_assoc]
    · rw [← Nat.add_assoc, htake, hfront, List.append_assoc]

theorem masterLoop_fits {n : Nat} {outbuf : Buffer UInt8 n} {playlistSize : Nat}
    {sids : List (Int × Nat)} {result : Buffer UInt8 n × Nat}
    (h : masterLoop fds outbuf playlistSize sids = .ok result) (hsize : playlistSize < n) :
    ∃ texts, List.Forall₂ (fun sid text => entryText fds sid.2 = .ok text) sids texts ∧
      playlistSize + texts.flatten.length < n := by
  induction sids generalizing outbuf playlistSize with
  | nil => exact ⟨[], .nil, hsize⟩
  | cons sid sids ih =>
    obtain ⟨text, htext, h⟩ := bind_eq_ok.mp h
    obtain ⟨written, hwrite, h⟩ := bind_eq_ok.mp h
    have hinside := (outbuf.write_ok_iff playlistSize (text ++ [0])).mp ⟨written, hwrite⟩
    rw [List.length_append, List.length_singleton] at hinside
    obtain ⟨texts, htexts, hfits⟩ := ih h (by omega)
    refine ⟨text :: texts, .cons htext htexts, ?_⟩
    rw [List.flatten_cons, List.length_append]
    omega

theorem length_header : header.length = 8 := by decide +kernel

/-- The text is put together exactly when all names end in their arrays and the block holds it
with its terminator. -/
theorem masterText_eq_ok {sids : List (Int × Nat)} {text : List UInt8} :
    masterText fds sids = .ok text ↔
      ∃ texts, List.Forall₂ (fun sid text => entryText fds sid.2 = .ok text) sids texts ∧
        text = header ++ texts.flatten ∧ text.length < (sids.length + 1) * (lenMax + 16) := by
  have hheader := length_header
  have hblock : header.length < (sids.length + 1) * (lenMax + 16) := by
    rw [hheader, lenMax]
    omega
  obtain ⟨outbuf, hwrite, hcells⟩ := (Buffer.fill ((sids.length + 1) * (lenMax + 16))
    (0 : UInt8)).write_ok 0 (header ++ [0])
    (by rw [List.length_append, List.length_singleton]; omega)
  have hfirst : outbuf.cells.take header.length = header := by
    rw [hcells, splice, List.take_zero, List.nil_append, List.append_assoc, List.take_left]
  have hread : ∀ {texts : List (List UInt8)}
      {filled : Buffer UInt8 ((sids.length + 1) * (lenMax + 16))},
      header.length + texts.flatten.length < (sids.length + 1) * (lenMax + 16) →
      filled.cells.take (header.length + texts.flatten.length) =
        outbuf.cells.take header.length ++ texts.flatten →
      filled.slice 0 (header.length + texts.flatten.length) = .ok (header ++ texts.flatten) := by
    intro texts filled hfits htake
    rw [Buffer.slice_ok _ (by omega), List.drop_zero, htake, hfirst]
  rw [masterText, hwrite, bind_ok]
  constructor
  · intro h
    obtain ⟨⟨filled, playlistSize⟩, hloop, hslice⟩ := bind_eq_ok.mp h
    obtain ⟨texts, htexts, hfits⟩ := masterLoop_fits hloop hblock
    obtain ⟨filled', hloop', htake⟩ := masterLoop_ok outbuf htexts hfits
    cases hloop.symm.trans hloop'
    cases (hread hfits htake).symm.trans hslice
    exact ⟨texts, htexts, rfl, by rwa [List.length_append]⟩
  · rintro ⟨texts, htexts, rfl, hfits⟩
    rw [List.length_append] at hfits
    obtain ⟨filled, hloop, htake⟩ := masterLoop_ok outbuf htexts hfits
    rw [hloop, bind_ok]
    exact hread hfits htake

end text

section names

variable {channels : Nat → Channel} {channel : Channel} {fds : List Fd} {fd : Fd}
  {playlistIgnoreDead : Bool}

theorem zero_notMem_digits (n : Nat) : 0 ∉ bytes (Nat.repr n) := by
  intro hzero
  exact absurd (digits_repr n 0 hzero) (by decide)

theorem zero_notMem_playlistName (serviceId : Int) : 0 ∉ playlistName serviceId := by
  have hend : (0 : UInt8) ∉ bytes ".m3u8" := by decide +kernel
  rw [playlistName, List.mem_append, not_or, integer]
  split
  · rw [List.mem_cons, not_or]
    exact ⟨⟨by decide, zero_notMem_digits _⟩, hend⟩
  · exact ⟨zero_notMem_digits _, hend⟩

theorem playlistName_ne_nil (serviceId : Int) : playlistName serviceId ≠ [] := by
  have hend : bytes ".m3u8" ≠ [] := by decide +kernel
  exact List.append_ne_nil_of_right_ne_nil _ hend

/-- The name of the playlist fits in its array. -/
theorem length_playlistName (channel : Channel) :
    (playlistName channel.serviceId).length < lenMax := by
  have hlow := channel.serviceId_ge
  have hhigh := channel.serviceId_lt
  have hend : (bytes ".m3u8").length = 5 := by decide +kernel
  have hdigits : (bytes (Nat.repr channel.serviceId.natAbs)).length ≤ 10 := by
    rw [bytes, List.length_map, String.length_toList, Nat.length_repr_le_iff (by decide)]
    omega
  rw [playlistName, List.length_append, hend, integer, lenMax]
  split
  · rw [List.length_cons]
    omega
  · omega

/-- The copy of the name is cut; the name of the playlist is there in full. -/
theorem nameEntry_ok (channel : Channel) :
    ∃ fd, nameEntry channel = .ok fd ∧ fd.entry = cleared.entry ∧
      strncpy lenMax (channel.shown.text ++ [0]) = .ok fd.name.cells ∧
      cstring fd.namePlaylist.cells = .ok (playlistName channel.serviceId) := by
  have hlength := length_playlistName channel
  obtain ⟨namePlaylist, hplaylist, hcells⟩ := cleared.namePlaylist.write_ok 0
    (playlistName channel.serviceId ++ [0])
    (by rw [List.length_append, List.length_singleton]; omega)
  have hcopied := strncpy_append channel.shown.zero_notMem lenMax []
  have hcopiedLength : (channel.shown.text.take lenMax ++
      List.replicate (lenMax - channel.shown.text.length) 0).length = lenMax := by
    rw [List.length_append, List.length_take, List.length_replicate]
    omega
  obtain ⟨name, hname, hnameCells⟩ := cleared.name.write_ok 0 _
    (Nat.le_of_eq ((Nat.zero_add _).trans hcopiedLength))
  refine ⟨{ cleared with name, namePlaylist }, ?_, rfl, ?_, ?_⟩
  · rw [nameEntry, hplaylist, bind_ok, hcopied, bind_ok, hname]
    rfl
  · have hdrop : cleared.name.cells.drop (0 + lenMax) = [] :=
      List.drop_of_length_le (by rw [Buffer.length_cells]; omega)
    rw [hcopied, hnameCells, splice, hcopiedLength, hdrop, List.take_zero, List.nil_append,
      List.append_nil]
  · rw [hcells, splice, List.take_zero, List.nil_append, List.append_assoc]
    exact cstring_append (zero_notMem_playlistName _) _

/-- The name can be read exactly when it was not cut. -/
theorem Named.cstring_name (h : Named channel fd) {name : List UInt8} :
    cstring fd.name.cells = .ok name ↔
      channel.shown.text.length < lenMax ∧ name = channel.shown.text := by
  obtain ⟨made, hmade, hname, -⟩ := h
  obtain ⟨fd', hfd', -, hcopied, -⟩ := nameEntry_ok channel
  cases hmade.symm.trans hfd'
  rw [hname]
  exact cstring_strncpy channel.shown.zero_notMem hcopied

theorem Named.cstring_namePlaylist (h : Named channel fd) :
    cstring fd.namePlaylist.cells = .ok (playlistName channel.serviceId) := by
  obtain ⟨made, hmade, -, hplaylist⟩ := h
  obtain ⟨fd', hfd', -, -, hcstring⟩ := nameEntry_ok channel
  cases hmade.symm.trans hfd'
  rw [hplaylist]
  exact hcstring

theorem isActive_eq (playlistIgnoreDead : Bool)
    (h : fd.entry.initialized = true → ∃ channel, Named channel fd) :
    isActive playlistIgnoreDead fd = .ok (isListed playlistIgnoreDead fd) := by
  rw [isActive, isListed]
  by_cases hused : fd.entry.initialized && 0 < fd.entry.sequence
  · obtain ⟨channel, hnamed⟩ := h (Bool.and_eq_true_iff.mp hused).1
    rw [if_pos hused, hnamed.cstring_namePlaylist, bind_ok, hused]
    simp [playlistName_ne_nil]
  · rw [if_neg hused]
    simp [hused]

/-- The pairs of all active entries, by the place of the first entry. -/
def listedSids (playlistIgnoreDead : Bool) (first : Nat) (fds : List Fd) : List (Int × Nat) :=
  ((fds.zipIdx first).filter fun fd => isListed playlistIgnoreDead fd.1).map fun fd =>
    (fd.1.entry.serviceId, fd.2)

theorem activeSids_eq {first : Nat}
    (h : ∀ fd ∈ fds, fd.entry.initialized = true → ∃ channel, Named channel fd) :
    activeSids playlistIgnoreDead first fds = .ok (listedSids playlistIgnoreDead first fds) := by
  induction fds generalizing first with
  | nil => rfl
  | cons fd fds ih =>
    obtain ⟨hfirst, hrest⟩ := List.forall_mem_cons.mp h
    rw [activeSids, isActive_eq playlistIgnoreDead hfirst, bind_ok, ih hrest, bind_ok, listedSids,
      listedSids, List.zipIdx_cons, List.filter_cons]
    cases isListed playlistIgnoreDead fd <;> rfl

theorem Named.entryText (h : Named channel fd) {entry : Nat} (hfd : fds[entry]? = some fd)
    {text : List UInt8} :
    entryText fds entry = .ok text ↔ channel.shown.text.length < lenMax ∧
      text = extinf channel.shown.text (playlistName channel.serviceId) := by
  have hget : fds.getD entry cleared = fd := by rw [List.getD_eq_getElem?_getD, hfd]; rfl
  rw [HlsMaster.entryText, hget]
  constructor
  · intro htext
    obtain ⟨name, hname, htext⟩ := bind_eq_ok.mp htext
    obtain ⟨hlt, rfl⟩ := h.cstring_name.mp hname
    rw [h.cstring_namePlaylist] at htext
    exact ⟨hlt, (Except.ok.inj htext).symm⟩
  · rintro ⟨hlt, rfl⟩
    rw [h.cstring_name.mpr ⟨hlt, rfl⟩, bind_ok, h.cstring_namePlaylist]
    rfl

/-- The texts of all entries, in the order given. -/
theorem texts_iff {sids : List (Int × Nat)} {texts : List (List UInt8)}
    (h : ∀ sid ∈ sids, ∃ fd, fds[sid.2]? = some fd ∧ Named (channels sid.2) fd) :
    List.Forall₂ (fun sid text => HlsMaster.entryText fds sid.2 = .ok text) sids texts ↔
      (∀ sid ∈ sids, (channels sid.2).shown.text.length < lenMax) ∧
        texts = sids.map fun sid =>
          extinf (channels sid.2).shown.text (playlistName (channels sid.2).serviceId) := by
  induction sids generalizing texts with
  | nil => simp
  | cons sid sids ih =>
    obtain ⟨fd, hfd, hnamed⟩ := h sid List.mem_cons_self
    have hrest := fun texts =>
      @ih texts fun sid hsid => h sid (List.mem_cons_of_mem _ hsid)
    rw [List.forall₂_cons_left_iff]
    constructor
    · rintro ⟨text, rest, htext, hrestTexts, rfl⟩
      obtain ⟨hlt, rfl⟩ := (hnamed.entryText hfd).mp htext
      obtain ⟨hall, rfl⟩ := (hrest rest).mp hrestTexts
      exact ⟨List.forall_mem_cons.mpr ⟨hlt, hall⟩, rfl⟩
    · rintro ⟨hall, rfl⟩
      obtain ⟨hlt, hall⟩ := List.forall_mem_cons.mp hall
      exact ⟨_, _, (hnamed.entryText hfd).mpr ⟨hlt, rfl⟩, (hrest _).mpr ⟨hall, rfl⟩, rfl⟩

theorem Belong.activeSids (h : Belong channels fds) :
    activeSids playlistIgnoreDead 0 fds = .ok (listedSids playlistIgnoreDead 0 fds) :=
  activeSids_eq fun fd hfd hused => by
    obtain ⟨entry, hget⟩ := List.mem_iff_getElem?.mp hfd
    exact ⟨channels entry, h entry fd hget hused⟩

theorem mem_listedSids {sid : Int × Nat} (h : sid ∈ listedSids playlistIgnoreDead 0 fds) :
    ∃ fd, fds[sid.2]? = some fd ∧ isListed playlistIgnoreDead fd = true ∧
      sid.1 = fd.entry.serviceId := by
  obtain ⟨⟨fd, entry⟩, hmem, rfl⟩ := List.mem_map.mp h
  obtain ⟨hmem, hlisted⟩ := List.mem_filter.mp hmem
  exact ⟨fd, List.mem_zipIdx_iff_getElem?.mp hmem, hlisted, rfl⟩

theorem Belong.named (h : Belong channels fds) {sid : Int × Nat}
    (hsid : sid ∈ listedSids playlistIgnoreDead 0 fds) :
    ∃ fd, fds[sid.2]? = some fd ∧ Named (channels sid.2) fd := by
  obtain ⟨fd, hfd, hlisted, -⟩ := mem_listedSids hsid
  rw [isListed, Bool.and_eq_true, Bool.and_eq_true] at hlisted
  exact ⟨fd, hfd, h sid.2 fd hfd hlisted.1.1⟩

/-- The text for the pairs in any order. -/
theorem Belong.masterText_eq_ok (h : Belong channels fds) {sids : List (Int × Nat)}
    (hperm : sids.Perm (listedSids playlistIgnoreDead 0 fds)) {text : List UInt8} :
    masterText fds sids = .ok text ↔
      (∀ entry ∈ activeEntries playlistIgnoreDead fds,
        (channels entry).shown.text.length < lenMax) ∧
      text = wholeText channels (sids.map (·.2)) ∧
      text.length < (sids.length + 1) * (lenMax + 16) := by
  have hnamed : ∀ sid ∈ sids, ∃ fd, fds[sid.2]? = some fd ∧ Named (channels sid.2) fd :=
    fun sid hsid => h.named (hperm.mem_iff.mp hsid)
  have hentries : activeEntries playlistIgnoreDead fds =
      (listedSids playlistIgnoreDead 0 fds).map (·.2) := by
    rw [activeEntries, listedSids, List.map_map]
    rfl
  have hshort : (∀ sid ∈ sids, (channels sid.2).shown.text.length < lenMax) ↔
      ∀ entry ∈ activeEntries playlistIgnoreDead fds,
        (channels entry).shown.text.length < lenMax := by
    rw [hentries, List.forall_mem_map]
    exact forall_congr' fun sid => imp_congr_left hperm.mem_iff
  rw [HlsMaster.masterText_eq_ok, ← hshort]
  constructor
  · rintro ⟨texts, htexts, rfl, hfits⟩
    obtain ⟨hall, rfl⟩ := (texts_iff hnamed).mp htexts
    exact ⟨hall, by rw [wholeText, List.flatMap_map, List.flatMap_def], hfits⟩
  · rintro ⟨hall, rfl, hfits⟩
    exact ⟨_, (texts_iff hnamed).mpr ⟨hall, rfl⟩,
      by rw [wholeText, List.flatMap_map, List.flatMap_def], hfits⟩

/-- Whatever checksum is stored, the call makes no faulty access exactly when the name of every
active entry is shorter than its array and the names are short enough together. -/
theorem hlsPlaylistMaster_iff (h : Belong channels fds) :
    (∀ opens master, ∃ result,
      hlsPlaylistMaster playlistIgnoreDead opens fds master = .ok result) ↔
      (∀ entry ∈ activeEntries playlistIgnoreDead fds,
        (channels entry).shown.text.length < lenMax) ∧
      (wholeText channels (activeEntries playlistIgnoreDead fds)).length <
        ((activeEntries playlistIgnoreDead fds).length + 1) * (lenMax + 16) := by
  have hperm : (sortSids (listedSids playlistIgnoreDead 0 fds)).Perm
      (listedSids playlistIgnoreDead 0 fds) := List.perm_insertionSort _ _
  have hentries : (listedSids playlistIgnoreDead 0 fds).map (·.2) =
      activeEntries playlistIgnoreDead fds := by
    rw [activeEntries, listedSids, List.map_map]
    rfl
  have hpermEntries : ((sortSids (listedSids playlistIgnoreDead 0 fds)).map (·.2)).Perm
      (activeEntries playlistIgnoreDead fds) := hentries ▸ hperm.map _
  have hwhole : (wholeText channels ((sortSids (listedSids playlistIgnoreDead 0 fds)).map
      (·.2))).length = (wholeText channels (activeEntries playlistIgnoreDead fds)).length := by
    rw [wholeText, wholeText, List.length_append, List.length_append,
      (hpermEntries.flatMap_right _).length_eq]
  have hlength : (sortSids (listedSids playlistIgnoreDead 0 fds)).length =
      (activeEntries playlistIgnoreDead fds).length := by
    rw [← hpermEntries.length_eq, List.length_map]
  constructor
  · intro hall
    obtain ⟨result, hresult⟩ := hall true
      ⟨calcChecksum (listedSids playlistIgnoreDead 0 fds) + 1, none⟩
    rw [hlsPlaylistMaster, h.activeSids, bind_ok, if_pos (by simp)] at hresult
    obtain ⟨text, htext, -⟩ := bind_eq_ok.mp hresult
    obtain ⟨hshort, rfl, hfits⟩ := (h.masterText_eq_ok hperm).mp htext
    exact ⟨hshort, by rwa [hwhole, hlength] at hfits⟩
  · rintro ⟨hshort, hfits⟩ opens master
    rw [hlsPlaylistMaster, h.activeSids, bind_ok]
    split
    · rw [(h.masterText_eq_ok hperm).mpr ⟨hshort, rfl, by rwa [hwhole, hlength]⟩]
      exact ⟨_, rfl⟩
    · exact ⟨_, rfl⟩

end names

/-! A name of 64 letters has no terminator in the array. Names of 63 letters end in their arrays,
but fifteen of them with numbers of five digits are too much for the block. -/

theorem zero_notMem_letters (n : Nat) : (0 : UInt8) ∉ List.replicate n 65 := fun h =>
  absurd (List.eq_of_mem_replicate h) (by decide)

theorem length_letters (n : Fin maxNameLen) :
    (List.replicate n.val (65 : UInt8)).length < maxNameLen :=
  List.length_replicate.symm ▸ n.isLt

def letters (n : Fin maxNameLen) : ChannelName where
  text := List.replicate n.val 65
  zero_notMem := zero_notMem_letters n
  length_lt := length_letters n

theorem station_ge (k : Fin 16) : -2147483648 ≤ (10000 + k.val : Int) := by omega

theorem station_lt (k : Fin 16) : (10000 + k.val : Int) < 2147483648 := by omega

def station (n : Fin maxNameLen) (k : Fin 16) : Channel where
  serviceId := 10000 + k.val
  serviceId_ge := station_ge k
  serviceId_lt := station_lt k
  name := letters n
  userName := letters 0

/-- The entry of a station after one rotation. -/
def stationEntry (n : Fin maxNameLen) (k : Fin 16) : Checked Fd := do
  let fd ← nameEntry (station n k)
  return { fd with entry := { fd.entry with
    serviceId := (station n k).serviceId, initialized := true, sequence := 1 } }

def masterOf (n : Fin maxNameLen) (stations : List (Fin 16)) : Checked Bool := do
  let fds ← stations.mapM (stationEntry n)
  let (_, noError) ← hlsPlaylistMaster false true fds ⟨0, none⟩
  return noError

theorem masterOf_long :
    (masterOf 64 [0] = .error .outOfBounds ∧ masterOf 63 [0] = .ok true) ∧
      masterOf 63 ((List.finRange 16).take 15) = .error .outOfBounds ∧
      masterOf 63 ((List.finRange 16).take 14) = .ok true := by
  decide +kernel

theorem stationEntry_named (n : Fin maxNameLen) (k : Fin 16) :
    ∃ fd, stationEntry n k = .ok fd ∧ Named (station n k) fd := by
  obtain ⟨made, hmade, -, -⟩ := nameEntry_ok (station n k)
  refine ⟨{ made with entry := { made.entry with
    serviceId := (station n k).serviceId, initialized := true, sequence := 1 } }, ?_,
    made, hmade, rfl, rfl⟩
  rw [stationEntry, hmade]
  rfl

theorem hlsPlaylistMaster_iff_station :
    ∃ fd, stationEntry 63 0 = .ok fd ∧
      ((∀ opens master, ∃ result,
        hlsPlaylistMaster false opens [fd] master = .ok result) ↔
        (∀ entry ∈ activeEntries false [fd], (station 63 0).shown.text.length < lenMax) ∧
        (wholeText (fun _ => station 63 0) (activeEntries false [fd])).length <
          ((activeEntries false [fd]).length + 1) * (lenMax + 16)) := by
  obtain ⟨fd, hfd, hnamed⟩ := stationEntry_named 63 0
  have hbelong : Belong (fun _ => station 63 0) [fd] := by
    intro entry fd' hfd' hused
    rw [List.getElem?_singleton] at hfd'
    split at hfd'
    · cases hfd'
      exact hnamed
    · cases hfd'
  exact ⟨fd, hfd, hlsPlaylistMaster_iff hbelong⟩

end MuMuDVB.HlsMaster
