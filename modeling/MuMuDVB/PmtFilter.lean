import MuMuDVB.PmtCopies
import MuMuDVB.SdtRuns

/-!
# The PMT rewriter as a filter

What a rewritten PMT should be: its header, the descriptors of the program, and
the streams whose PIDs are in the list of the channel, as long as there is room
for them. The loop begins right behind the header, where the descriptors of the
program stand, and it stops at the first stream for which there is no room,
also if that is not one of the channel.
-/
namespace MuMuDVB.PmtFilter

open CheckedMemory MuMuDVB.TsHeader MuMuDVB.Ts MuMuDVB.TsAssembler MuMuDVB.Channel
open MuMuDVB.RewriteSection MuMuDVB.RewritePmt MuMuDVB.SdtRuns MuMuDVB.PmtCopies

def isListed (pids : List Int) (e : EsEntry) : Bool := decide ((e.pid : Int) ∈ pids)

/-- The entries that are copied, with `used` bytes in `buf_dest`: the loop stops at the first one
that does not pass the test against an overflow. -/
def keptEntries (pids : List Int) (used : Nat) : List EsEntry → List EsEntry
  | [] => []
  | e :: es =>
    if 184 ≤ used + e.bytes.length then []
    else if isListed pids e then e :: keptEntries pids (used + e.bytes.length) es
    else keptEntries pids used es

def entryBytes (es : List EsEntry) : List UInt8 := (es.map EsEntry.bytes).flatten

@[simp] theorem entryBytes_cons (e : EsEntry) (es : List EsEntry) :
    entryBytes (e :: es) = e.bytes ++ entryBytes es := rfl

@[simp] theorem entryBytes_append (es es' : List EsEntry) :
    entryBytes (es ++ es') = entryBytes es ++ entryBytes es' := by simp [entryBytes]

def programInfoLength (s : List UInt8) : Nat := hilo ((byteAt s 10).toNat % 16) (byteAt s 11).toNat

/-- The descriptors of the program. -/
def programInfo (s : List UInt8) : List UInt8 := (s.drop 12).take (programInfoLength s)

/-- The elementary streams of the section. -/
def streamsOf (s : List UInt8) : List EsEntry :=
  esEntries (byteAt s) (12 + programInfoLength s) (s.length - 16 - programInfoLength s)

structure WellFormed (s : List UInt8) : Prop where
  isPmt : IsPmt s
  programInfo : 16 + programInfoLength s ≤ s.length
  streams : (entryBytes (streamsOf s)).length = s.length - 16 - programInfoLength s

/-- The section stands behind the first five bytes of the memory. -/
def StoredAt (mem : Memory) (s : List UInt8) : Prop := ∀ k, k < s.length → mem (5 + k) = byteAt s k

/-- The streams of the channel, in order. -/
def channelStreams (pids : List Int) (s : List UInt8) : List EsEntry :=
  (streamsOf s).filter (isListed pids)

/-- These are the first streams of the channel, and the next one has no room in the packet. -/
def CutWhenFull (pids : List Int) (s : List UInt8) (kept : List EsEntry) : Prop :=
  kept <+: channelStreams pids s ∧ (kept = channelStreams pids s ∨
    ∃ e, kept ++ [e] <+: channelStreams pids s ∧
      tsPacketSize < 5 + 12 + programInfoLength s + (entryBytes kept).length + e.bytes.length + 4)

/-- The section `out` is what is to be made of `s` for these PIDs. -/
structure Filtered (s : List UInt8) (pids : List Int) (out : List UInt8) : Prop where
  only : OnlySection out
  header : ∀ i < 12, i ≠ 1 → i ≠ 2 → i ≠ 5 → i ≠ 6 → i ≠ 7 → byteAt out i = byteAt s i
  version : versionNumber out = versionNumber s
  body : ∃ kept, CutWhenFull pids s kept ∧
    (out.drop 12).take (out.length - 16) = programInfo s ++ entryBytes kept

/-- The entry at which the loop stops is not followed by an entry of the channel, and is none, that
there would be room for. -/
def StopsWhenFull (pids : List Int) (used : Nat) (es : List EsEntry) : Prop :=
  ∀ before e after, es = before ++ e :: after → Passes pids used before →
    184 ≤ used + copiedSize pids before + e.bytes.length →
    ∀ n, (e :: after).find? (isListed pids) = some n →
      184 < used + copiedSize pids before + n.bytes.length

/-- The program descriptors, which the loop takes for streams, and what it makes of the bytes behind
them happen to be what should be copied. -/
def ByAccident (mem : Memory) (pids : List Int) (s : List UInt8) : Prop :=
  ∃ kept, CutWhenFull pids s kept ∧
    entryBytes (keptEntries pids 17 (esEntries mem 17 (s.length - 16))) =
      programInfo s ++ entryBytes kept

section filter

variable {pids : List Int} {mem : Memory} {e : EsEntry} {es : List EsEntry}
  {s dest : List UInt8} {used off esLen : Nat}

theorem copies_of_nodup (hnodup : pids.Nodup) (e : EsEntry) :
    copies pids e = if isListed pids e then e.bytes else [] := by
  have hone : timesListed pids e ≤ 1 := List.nodup_iff_count.mp hnodup _
  by_cases hmem : (e.pid : Int) ∈ pids
  · have hcount : timesListed pids e = 1 :=
      Nat.le_antisymm hone (List.count_pos_iff.mpr hmem)
    simp [copies, hcount, isListed, hmem]
  · have hcount : timesListed pids e = 0 := List.count_eq_zero.mpr hmem
    simp [copies, hcount, isListed, hmem]

theorem copyEntries_of_nodup (hnodup : pids.Nodup) :
    copyEntries pids es dest = dest ++ entryBytes (keptEntries pids dest.length es) := by
  induction es generalizing dest with
  | nil => simp [copyEntries, keptEntries, entryBytes]
  | cons e es ih =>
    rw [copyEntries, keptEntries, copies_of_nodup hnodup]
    split
    · simp [entryBytes]
    · split
      · rw [ih, List.length_append]
        simp [entryBytes]
      · rw [List.append_nil, ih]

theorem keptEntries_first (pids : List Int) (used : Nat) (es : List EsEntry) :
    keptEntries pids used es <+: es.filter (isListed pids) := by
  induction es generalizing used with
  | nil => exact List.prefix_refl _
  | cons e es ih =>
    rw [keptEntries, List.filter_cons]
    split
    · exact List.nil_prefix
    · split
      · exact List.prefix_cons_inj e |>.mpr (ih _)
      · exact ih _

theorem timesListed_of_nodup (hnodup : pids.Nodup) (e : EsEntry) :
    timesListed pids e * e.bytes.length = if isListed pids e then e.bytes.length else 0 := by
  rw [← length_copies, copies_of_nodup hnodup]
  split <;> rfl

theorem stopsWhenFull_cons : StopsWhenFull pids used (e :: es) ↔
    (184 ≤ used + e.bytes.length → ∀ n, (e :: es).find? (isListed pids) = some n →
      184 < used + n.bytes.length) ∧
    (used + e.bytes.length < 184 →
      StopsWhenFull pids (used + timesListed pids e * e.bytes.length) es) := by
  constructor
  · refine fun h => ⟨fun hfull n hn => ?_, fun hroom before e' after heq hpass hfull n hn => ?_⟩
    · exact h [] e es rfl (fun before e' after heq => by simp at heq) hfull n hn
    · have hnext := h (e :: before) e' after (by rw [heq]; rfl)
        (passes_cons.mpr ⟨hroom, hpass⟩) (by rw [copiedSize]; omega) n hn
      rw [copiedSize] at hnext
      omega
  · rintro ⟨hstop, hgo⟩ before e' after heq hpass hfull n hn
    cases before with
    | nil =>
      cases heq
      exact hstop hfull n hn
    | cons e₁ before =>
      cases heq
      obtain ⟨hroom, hpass⟩ := passes_cons.mp hpass
      rw [copiedSize] at hfull ⊢
      have hnext := hgo hroom before e' after rfl hpass (by omega) n hn
      omega

/-- The first entry that a list keeps. -/
theorem singleton_filter_iff (n : EsEntry) :
    [n] <+: es.filter (isListed pids) ↔ es.find? (isListed pids) = some n := by
  rw [← List.head?_filter]
  cases es.filter (isListed pids) with
  | nil => simp
  | cons e es => simp [eq_comm]

/-- The loop stops for want of room exactly when it keeps what there is room for. -/
theorem keptEntries_full_iff (hnodup : pids.Nodup) :
    (keptEntries pids used es = es.filter (isListed pids) ∨
      ∃ n, keptEntries pids used es ++ [n] <+: es.filter (isListed pids) ∧
        184 < used + (entryBytes (keptEntries pids used es)).length + n.bytes.length) ↔
      StopsWhenFull pids used es := by
  induction es generalizing used with
  | nil => exact iff_of_true (.inl rfl) fun before e' after heq => by simp at heq
  | cons e es ih =>
    rw [stopsWhenFull_cons, keptEntries]
    by_cases hfull : 184 ≤ used + e.bytes.length
    · rw [if_pos hfull, and_iff_left (fun hroom => absurd hroom (Nat.not_lt_of_le hfull))]
      simp only [List.nil_append, singleton_filter_iff]
      constructor
      · rintro (hnone | ⟨n, hn, hroom⟩) - m hm
        · have hhead := List.head?_filter (p := isListed pids) (l := e :: es)
          rw [hm, ← hnone] at hhead
          cases hhead
        · rw [hn] at hm
          cases hm
          exact hroom
      · intro h
        cases hn : (e :: es).find? (isListed pids) with
        | none =>
          have hempty : (e :: es).filter (isListed pids) = [] := by
            rw [← List.head?_eq_none_iff, List.head?_filter, hn]
          exact .inl hempty.symm
        | some n => exact .inr ⟨n, rfl, h hfull n hn⟩
    · have hroom := Nat.lt_of_not_le hfull
      rw [if_neg hfull, timesListed_of_nodup hnodup, List.filter_cons,
        and_iff_right (fun h => absurd h hfull), imp_iff_right hroom]
      by_cases hlisted : isListed pids e
      · rw [if_pos hlisted, if_pos hlisted, if_pos hlisted, ← ih]
        have hsize : (entryBytes (e :: keptEntries pids (used + e.bytes.length) es)).length =
            e.bytes.length +
              (entryBytes (keptEntries pids (used + e.bytes.length) es)).length := by
          simp [entryBytes]
        simp only [List.cons_append, List.cons.injEq, true_and, List.prefix_cons_inj, hsize,
          Nat.add_assoc]
      · rw [if_neg hlisted, if_neg hlisted, if_neg hlisted, Nat.add_zero]
        exact ih

/-- Entries that lie inside are the same wherever the bytes stand. -/
theorem esEntries_shift {mem' : Memory}
    (hlen : (entryBytes (esEntries mem' off esLen)).length = esLen)
    (h : ∀ k, off ≤ k → k < off + esLen → mem (5 + k) = mem' k) :
    esEntries mem (5 + off) esLen = esEntries mem' off esLen := by
  induction hn : esLen using Nat.strongRecOn generalizing off esLen with
  | _ n ih =>
    subst hn
    by_cases hpos : 0 < esLen
    · have hsize := length_entryAt mem' off
      rw [esEntries_cons hpos] at hlen ⊢
      rw [esEntries_cons hpos]
      have hsum : (entryAt mem' off).bytes.length +
          (entryBytes (esEntries mem' (off + (entryAt mem' off).bytes.length)
            (esLen - (entryAt mem' off).bytes.length))).length = esLen := by
        simpa [entryBytes] using hlen
      have hinfo : bytesFrom mem (5 + off) 5 = bytesFrom mem' off 5 :=
        bytesFrom_congr fun k hk => by rw [Nat.add_assoc, h (off + k) (by omega) (by omega)]
      have hentry : entryAt mem (5 + off) = entryAt mem' off := by
        have hbytes : bytesFrom mem (5 + off) (5 + esInfoLength (bytesFrom mem' off 5)) =
            bytesFrom mem' off (5 + esInfoLength (bytesFrom mem' off 5)) :=
          bytesFrom_congr fun k hk => by rw [Nat.add_assoc, h (off + k) (by omega) (by omega)]
        simp only [entryAt, pmtInfoLen, hinfo, hbytes]
      rw [hentry, Nat.add_assoc,
        ih _ (by omega) (by omega) (fun k hk hk' => h k (by omega) (by omega)) rfl]
    · rw [esEntries_nil hpos, esEntries_nil hpos]

theorem headerFrom_opened (mem : Memory) (body : List UInt8) :
    Opened (bytesFrom mem 0 17) (headerFrom mem ++ body) := by
  have hlen : ((startFrom mem).cells.drop 5).length = 12 := by simp
  have hopen := @opened_header 17 ⟨bytesFrom mem 0 17, length_bytesFrom mem 0 17⟩
    ((startFrom mem).cells.drop 5) 12 (by decide) (by rw [hlen]; decide) (by decide)
  have hall : (makeOnlySection ((startFrom mem).cells.drop 5)).take 12 =
      makeOnlySection ((startFrom mem).cells.drop 5) :=
    List.take_of_length_le (Nat.le_of_eq (by rw [length_makeOnlySection, hlen]))
  rw [hall] at hopen
  exact hopen.append body

theorem byteAt_startFrom (mem : Memory) {k : Nat} (hk : k < 12) :
    byteAt ((startFrom mem).cells.drop 5) k = mem (5 + k) := by
  have hbyte := @byteAt_startHeader 17 (5 + k) ⟨bytesFrom mem 0 17, length_bytesFrom mem 0 17⟩
    (by omega) (by omega)
  rw [byteAt_drop, startFrom, hbyte, byteAt_bytesFrom (by omega), Nat.zero_add]

theorem byteAt_section_headerFrom (mem : Memory) (k : Nat) :
    byteAt (headerFrom mem) (5 + k) =
      byteAt (makeOnlySection ((startFrom mem).cells.drop 5)) k := by
  have hlen : ((startFrom mem).cells.take 5).length = 5 := by simp
  have hright := @byteAt_append_right ((startFrom mem).cells.take 5)
    (makeOnlySection ((startFrom mem).cells.drop 5)) k
  rwa [hlen, ← headerFrom_eq] at hright

/-- The header is the one of the section, but for what the rewriter sets. -/
theorem byteAt_headerFrom (mem : Memory) {k : Nat} (hk : k < 12) (h5 : k ≠ 5) (h6 : k ≠ 6)
    (h7 : k ≠ 7) : byteAt (headerFrom mem) (5 + k) = mem (5 + k) := by
  rw [byteAt_section_headerFrom, byteAt_makeOnlySection h5 h6 h7, byteAt_startFrom mem hk]

theorem version_headerFrom (mem : Memory) :
    (byteAt (headerFrom mem) 10).toNat / 2 % 32 = (mem 10).toNat / 2 % 32 := by
  have hversion := @versionNumber_makeOnlySection ((startFrom mem).cells.drop 5) (by simp)
  rw [versionNumber, versionNumber, ← byteAt_section_headerFrom, byteAt_startFrom mem (by decide)]
    at hversion
  exact hversion

variable {p : Packet} {body : List UInt8}

theorem length_builtSection (hclose : closeSection (headerFrom mem ++ body) = .ok p) :
    (sectionOf p).length = 16 + body.length := by
  have h13 := (headerFrom_opened mem body).atLeast
  rw [sectionOf_closeSection h13 hclose, length_closedSection h13, List.length_append,
    length_headerFrom]
  omega

/-- The section that is built, behind its header. -/
theorem body_builtSection (hclose : closeSection (headerFrom mem ++ body) = .ok p) :
    ((sectionOf p).drop 12).take ((sectionOf p).length - 16) = body := by
  have h13 := (headerFrom_opened mem body).atLeast
  have hleft : (headerFrom mem ++ body).drop 17 = body := List.drop_left' (length_headerFrom mem)
  have hopen : (openSection (headerFrom mem ++ body)).drop 12 = body := by
    rw [openSection_eq, List.drop_set_of_lt (by decide), List.drop_set_of_lt (by decide),
      List.drop_drop]
    exact hleft
  have hsize : 12 ≤ (openSection (headerFrom mem ++ body)).length := by
    rw [length_openSection, List.length_append, length_headerFrom]
    omega
  rw [length_builtSection hclose, sectionOf_closeSection h13 hclose,
    List.drop_append_of_le_length hsize, hopen, Nat.add_sub_cancel_left, List.take_left]

theorem header_builtSection (hclose : closeSection (headerFrom mem ++ body) = .ok p) {k : Nat}
    (hk : k < 12) (h1 : k ≠ 1) (h2 : k ≠ 2) :
    byteAt (sectionOf p) k = byteAt (headerFrom mem) (5 + k) := by
  have h13 := (headerFrom_opened mem body).atLeast
  rw [sectionOf_closeSection h13 hclose,
    byteAt_append_left (by rw [length_openSection, List.length_append, length_headerFrom]; omega),
    byteAt_openSection h1 h2, byteAt_drop, byteAt_append_left (by rw [length_headerFrom]; omega)]

theorem bytes_pos (h : e ∈ esEntries mem off esLen) : 0 < e.bytes.length := by
  induction hn : esLen using Nat.strongRecOn generalizing off esLen with
  | _ n ih =>
    subst hn
    by_cases hpos : 0 < esLen
    · have hsize := length_entryAt mem off
      rw [esEntries_cons hpos] at h
      rcases List.mem_cons.mp h with rfl | h
      · omega
      · exact ih _ (by omega) h rfl
    · rw [esEntries_nil hpos] at h
      cases h

/-- As many bytes are as many entries. -/
theorem eq_of_entryBytes {all kept kept' : List EsEntry} (hpos : ∀ e ∈ all, 0 < e.bytes.length)
    (h : kept <+: all) (h' : kept' <+: all) (heq : entryBytes kept = entryBytes kept') :
    kept = kept' := by
  have hmore : ∀ {a b : List EsEntry}, a <+: b → b <+: all → entryBytes a = entryBytes b →
      a = b := by
    rintro a - ⟨t, rfl⟩ hall hbytes
    cases t with
    | nil => exact (List.append_nil a).symm
    | cons e t =>
      have he := hpos e (hall.subset (List.mem_append_right a List.mem_cons_self))
      rw [entryBytes_append, List.self_eq_append_right, entryBytes_cons,
        List.append_eq_nil_iff] at hbytes
      rw [hbytes.1] at he
      cases he
  rcases List.prefix_or_prefix_of_prefix h h' with hle | hle
  · exact hmore hle h' heq
  · exact (hmore hle h heq.symm).symm

theorem esLength_stored (hs : IsPmt s) (hstored : StoredAt mem s) :
    esLength mem = s.length - 16 := by
  have hlow := hs.atLeast
  have hbytes : ∀ k, k < 12 → byteAt (bytesFrom mem 5 12) k = byteAt s k := fun k hk => by
    rw [byteAt_bytesFrom hk, hstored k (by omega)]
  have hsize := hs.length
  rw [sectionSize, sectionLength] at hsize
  rw [esLength, sectionLength]
  simp only [tsHeaderLen, pmtLen, bytesBfrSecLen] at hsize ⊢
  rw [hbytes 1 (by decide), hbytes 2 (by decide), hsize]
  omega

/-- The packet that is built from a stored PMT. -/
theorem pmtBuild_stored (hnodup : pids.Nodup) (hs : IsPmt s) (hstored : StoredAt mem s) :
    ∃ p, pmtBuild mem pids = .ok (some p) ∧
      closeSection (headerFrom mem ++
        entryBytes (keptEntries pids 17 (esEntries mem 17 (s.length - 16)))) = .ok p := by
  have hlow := hs.atLeast
  have htable : tableId (bytesFrom mem 5 12) = 0x02 := by
    rw [tableId, byteAt_bytesFrom (by decide), hstored 0 (by omega)]
    exact hs.tableId
  obtain ⟨r, hbuild⟩ := (pmtBuild_inside_iff mem pids).mpr fun _ => copiesFit_of_nodup hnodup _
  have hbuild' := hbuild
  unfold pmtBuild at hbuild'
  simp only [tsHeaderLen, pmtLen] at hbuild'
  rw [if_neg (not_not_intro htable)] at hbuild'
  obtain ⟨dest₀, happ, hbuild'⟩ := bind_eq_ok.mp hbuild'
  obtain ⟨dest, hloop, hbuild'⟩ := bind_eq_ok.mp hbuild'
  obtain ⟨p, hclose, hbuild'⟩ := bind_eq_ok.mp hbuild'
  cases hbuild'
  have hdest := pmtStreamsFrom_eq_ok hloop
  rw [appendDest_ok (by rw [List.length_nil, length_headerFrom]; decide), List.nil_append] at happ
  cases happ
  rw [copyEntries_of_nodup hnodup, length_headerFrom, Nat.add_zero, Nat.sub_zero,
    esLength_stored hs hstored] at hdest
  exact ⟨p, hbuild, by rw [← hdest]; exact hclose⟩

/-- Only what stands behind the header of the built section can be wrong. -/
theorem filtered_iff (hs : WellFormed s) (hstored : StoredAt mem s) {p : Packet} {body : List UInt8}
    (hclose : closeSection (headerFrom mem ++ body) = .ok p) :
    Filtered s pids (sectionOf p) ↔
      ∃ kept, CutWhenFull pids s kept ∧ body = programInfo s ++ entryBytes kept := by
  have hlow := hs.isPmt.atLeast
  have hbody := body_builtSection hclose
  constructor
  · rintro ⟨-, -, -, kept, hkept, heq⟩
    exact ⟨kept, hkept, by rw [← hbody, heq]⟩
  · rintro ⟨kept, hkept, heq⟩
    refine ⟨(closeSection_opened (headerFrom_opened mem body) hclose).1,
      fun k hk h1 h2 h5 h6 h7 => ?_, ?_, kept, hkept, by rw [hbody, heq]⟩
    · rw [header_builtSection hclose hk h1 h2, byteAt_headerFrom mem hk h5 h6 h7,
        hstored k (by omega)]
    · rw [versionNumber, header_builtSection hclose (by decide) (by decide) (by decide),
        version_headerFrom, versionNumber, ← hstored 5 (by omega)]

end filter

/-- A section behind the header of a packet. -/
def stored (s : List UInt8) : Memory := byteAt ([0x47, 0x41, 0x00, 0x10, 0x00] ++ s)

theorem storedAt_stored (s : List UInt8) : StoredAt (stored s) s := fun k _ =>
  @byteAt_append_right [0x47, 0x41, 0x00, 0x10, 0x00] s k

/-- A PMT with streams on the PIDs 257 and 258. -/
def twoStreams : List UInt8 :=
  [0x02, 0xb0, 0x17, 0x00, 0x01, 0xc1, 0x00, 0x00, 0xe1, 0x01, 0xf0, 0x00, 0x02, 0xe1, 0x01, 0xf0,
    0x00, 0x04, 0xe1, 0x02, 0xf0, 0x00, 0xbc, 0xc5, 0x57, 0x07]

/-- A PMT with an empty program descriptor, and a stream on the PID 257. -/
def programDescriptor : List UInt8 :=
  [0x02, 0xb0, 0x14, 0x00, 0x01, 0xc1, 0x00, 0x00, 0xe1, 0x01, 0xf0, 0x02, 0x0e, 0x00, 0x02, 0xe1,
    0x01, 0xf0, 0x00, 0xdc, 0xee, 0x8c, 0x70]

end MuMuDVB.PmtFilter
