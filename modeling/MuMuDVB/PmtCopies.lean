import MuMuDVB.RewritePmt

/-!
# What the PMT rewriter copies

The rewriter walks over the elementary streams in `original_pmt` and copies an
entry once for every PID of the channel that is equal to its own. A PMT that
says it is longer than the buffer is read on in the memory behind it, so that
the walk is followed over any memory; only the writes to `buf_dest` are checked
here.
-/
namespace MuMuDVB.PmtCopies

open CheckedMemory MuMuDVB.TsHeader MuMuDVB.Ts MuMuDVB.TsAssembler MuMuDVB.Channel
open MuMuDVB.RewriteSection MuMuDVB.RewritePmt

/-- The memory from `original_pmt` on. -/
abbrev Memory := Nat → UInt8

def bytesFrom (mem : Memory) (off len : Nat) : List UInt8 :=
  (List.range len).map fun k => mem (off + k)

@[simp] theorem length_bytesFrom (mem : Memory) (off len : Nat) :
    (bytesFrom mem off len).length = len := by simp [bytesFrom]

/-- An entry of the loop over the elementary streams. -/
structure EsEntry where
  pid : Nat
  bytes : List UInt8

def entryAt (mem : Memory) (off : Nat) : EsEntry :=
  ⟨elementaryPid (bytesFrom mem off pmtInfoLen),
    bytesFrom mem off (pmtInfoLen + esInfoLength (bytesFrom mem off pmtInfoLen))⟩

theorem length_entryAt (mem : Memory) (off : Nat) :
    (entryAt mem off).bytes.length = 5 + esInfoLength (bytesFrom mem off 5) :=
  length_bytesFrom mem off _

/-- The loop over the PIDs of the channel. -/
def copyStreamFrom (e : EsEntry) : List Int → List UInt8 → Checked (List UInt8)
  | [], dest => .ok dest
  | p :: pids, dest =>
    if (e.pid : Int) = p then do
      let dest ← appendDest dest e.bytes
      copyStreamFrom e pids dest
    else copyStreamFrom e pids dest

/-- The loop over the elementary streams, as `pmtStreams` has it for the buffer alone. -/
def pmtStreamsFrom (fuel : Nat) (pids : List Int) (mem : Memory) (esLen i : Nat)
    (dest : List UInt8) : Checked (List UInt8) :=
  match fuel with
  | 0 => .error .endless
  | fuel + 1 =>
    if i < esLen then
      let e := entryAt mem (tsHeaderLen + pmtLen + i)
      if tsPacketSize - 4 ≤ dest.length + e.bytes.length then .ok dest
      else do
        let dest ← copyStreamFrom e pids dest
        pmtStreamsFrom fuel pids mem esLen (i + e.bytes.length) dest
    else .ok dest

/-- The first bytes, with the header of the packet made that of a start. -/
def startFrom (mem : Memory) : Buffer UInt8 17 :=
  startHeader ⟨bytesFrom mem 0 17, length_bytesFrom mem 0 17⟩

/-- What `buf_dest` begins with. -/
def headerFrom (mem : Memory) : List UInt8 := (onlySectionAt (startFrom mem) tsHeaderLen).cells

/-- The length of the loops over the elementary streams, from the header of the section. -/
def esLength (mem : Memory) : Nat :=
  sectionLength (bytesFrom mem tsHeaderLen pmtLen) + 3 - pmtLen - 4

/-- `pmt_channel_rewrite` up to the generated packet, if the table is a PMT. -/
def pmtBuild (mem : Memory) (pids : List Int) : Checked (Option Packet) :=
  if tableId (bytesFrom mem tsHeaderLen pmtLen) ≠ 0x02 then .ok none
  else do
    let dest ← appendDest [] (headerFrom mem)
    let dest ← pmtStreamsFrom (maxTsSize + 1) pids mem (esLength mem) 0 dest
    let generated ← closeSection dest
    return some generated

/-- What is read in the buffer, with zeros behind it. -/
def memoryOf (pmt : Buffer UInt8 originalPmtSize) : Memory := fun k => byteAt pmt.cells k

/-- The entries that lie in the `esLen` bytes from `off` on; the last one may reach further. -/
def esEntries (mem : Memory) (off esLen : Nat) : List EsEntry :=
  if 0 < esLen then
    let e := entryAt mem off
    e :: esEntries mem (off + e.bytes.length) (esLen - e.bytes.length)
  else []
termination_by esLen
decreasing_by
  rw [length_entryAt]
  omega

/-- How often the PID of the entry is in the list of the channel. -/
def timesListed (pids : List Int) (e : EsEntry) : Nat := pids.count (e.pid : Int)

def copies (pids : List Int) (e : EsEntry) : List UInt8 :=
  (List.replicate (timesListed pids e) e.bytes).flatten

/-- The number of bytes that are copied for these entries. -/
def copiedSize (pids : List Int) : List EsEntry → Nat
  | [] => 0
  | e :: es => timesListed pids e * e.bytes.length + copiedSize pids es

/-- Everything that is copied, whatever there is room for. -/
def copyEntries (pids : List Int) : List EsEntry → List UInt8 → List UInt8
  | [], dest => dest
  | e :: es, dest =>
    if 184 ≤ dest.length + e.bytes.length then dest
    else copyEntries pids es (dest ++ copies pids e)

/-- The test against a write overflow lets all of these entries pass, the first one with `used`
bytes in `buf_dest`. -/
def Passes (pids : List Int) (used : Nat) (es : List EsEntry) : Prop :=
  ∀ before e after, es = before ++ e :: after →
    used + copiedSize pids before + e.bytes.length < 184

/-- The entries that pass the test fit with all their copies. -/
def CopiesFit (pids : List Int) (used : Nat) (es : List EsEntry) : Prop :=
  ∀ before e after, es = before ++ e :: after → Passes pids used (before ++ [e]) →
    used + copiedSize pids (before ++ [e]) ≤ 184

section copies

variable {pids : List Int} {mem : Memory} {e : EsEntry} {es : List EsEntry}
  {dest dest' : List UInt8} {used off esLen i : Nat}

theorem length_copies (pids : List Int) (e : EsEntry) :
    (copies pids e).length = timesListed pids e * e.bytes.length := by
  simp [copies]

theorem copyStreamFrom_eq_ok (h : copyStreamFrom e pids dest = .ok dest') :
    dest' = dest ++ copies pids e := by
  induction pids generalizing dest with
  | nil =>
    cases h
    simp [copies, timesListed]
  | cons p pids ih =>
    rw [copyStreamFrom] at h
    split at h
    case isTrue heq =>
      obtain ⟨dest₁, happ, h⟩ := bind_eq_ok.mp h
      have hdest : dest₁ = dest ++ e.bytes := by
        unfold appendDest at happ
        split at happ
        · cases happ
          rfl
        · cases happ
      rw [ih h, hdest]
      simp [copies, timesListed, ← heq, List.replicate_succ]
    case isFalse hne =>
      rw [ih h]
      simp [copies, timesListed, Ne.symm hne]

theorem copyStreamFrom_ok (h : (dest ++ copies pids e).length ≤ 188) :
    copyStreamFrom e pids dest = .ok (dest ++ copies pids e) := by
  induction pids generalizing dest with
  | nil => simp [copyStreamFrom, copies, timesListed]
  | cons p pids ih =>
    rw [copyStreamFrom]
    split
    case isTrue heq =>
      have hsplit : dest ++ copies (p :: pids) e =
          (dest ++ e.bytes) ++ copies pids e := by
        simp [copies, timesListed, ← heq, List.replicate_succ]
      rw [hsplit] at h ⊢
      have hfirst : dest.length + e.bytes.length ≤ 188 := by
        rw [List.length_append, List.length_append] at h
        omega
      rw [appendDest_ok hfirst, bind_ok, ih h]
    case isFalse hne =>
      have hsame : copies (p :: pids) e = copies pids e := by
        simp [copies, timesListed, Ne.symm hne]
      rw [hsame] at h ⊢
      exact ih h

theorem copyEntries_extends (pids : List Int) (es : List EsEntry) (dest : List UInt8) :
    dest <+: copyEntries pids es dest := by
  induction es generalizing dest with
  | nil => exact List.prefix_refl _
  | cons e es ih =>
    rw [copyEntries]
    split
    · exact List.prefix_refl _
    · exact (List.prefix_append _ _).trans (ih _)

theorem esEntries_cons (h : 0 < esLen) :
    esEntries mem off esLen = entryAt mem off ::
      esEntries mem (off + (entryAt mem off).bytes.length)
        (esLen - (entryAt mem off).bytes.length) := by
  rw [esEntries, if_pos h]

theorem esEntries_nil (h : ¬0 < esLen) : esEntries mem off esLen = [] := by
  rw [esEntries, if_neg h]

theorem pmtStreamsFrom_more (fuel : Nat) (h : i < esLen) :
    pmtStreamsFrom (fuel + 1) pids mem esLen i dest =
      if 184 ≤ dest.length + (entryAt mem (17 + i)).bytes.length then .ok dest
      else copyStreamFrom (entryAt mem (17 + i)) pids dest >>=
        pmtStreamsFrom fuel pids mem esLen (i + (entryAt mem (17 + i)).bytes.length) := by
  rw [pmtStreamsFrom, if_pos h]
  rfl

/-- The loop copies what the entries have, if it returns. -/
theorem pmtStreamsFrom_eq_ok {fuel : Nat}
    (h : pmtStreamsFrom fuel pids mem esLen i dest = .ok dest') :
    dest' = copyEntries pids (esEntries mem (17 + i) (esLen - i)) dest := by
  induction fuel generalizing i dest with
  | zero => cases h
  | succ fuel ih =>
    by_cases hmore : i < esLen
    · rw [pmtStreamsFrom_more fuel hmore] at h
      rw [esEntries_cons (by omega), copyEntries]
      split at h
      case isTrue hfull =>
        cases h
        rw [if_pos hfull]
      case isFalse hroom =>
        obtain ⟨dest₁, hcopy, h⟩ := bind_eq_ok.mp h
        rw [if_neg hroom, ih h, copyStreamFrom_eq_ok hcopy, Nat.add_assoc, Nat.sub_sub]
    · rw [pmtStreamsFrom, if_neg hmore] at h
      cases h
      rw [esEntries_nil (by omega), copyEntries]

/-- It returns if everything that it copies fits. -/
theorem pmtStreamsFrom_ok {fuel : Nat} (hfuel : esLen - i < fuel)
    (h : (copyEntries pids (esEntries mem (17 + i) (esLen - i)) dest).length ≤ 188) :
    ∃ dest', pmtStreamsFrom fuel pids mem esLen i dest = .ok dest' := by
  induction fuel generalizing i dest with
  | zero => omega
  | succ fuel ih =>
    by_cases hmore : i < esLen
    · rw [pmtStreamsFrom_more fuel hmore]
      rw [esEntries_cons (by omega), copyEntries] at h
      split
      case isTrue hfull => exact ⟨dest, rfl⟩
      case isFalse hroom =>
        rw [if_neg hroom] at h
        have hpre := Nat.le_trans (copyEntries_extends pids _ _).length_le h
        have hlen := length_entryAt mem (17 + i)
        rw [copyStreamFrom_ok hpre, bind_ok]
        refine ih (by omega) ?_
        rwa [← Nat.add_assoc, ← Nat.sub_sub]
    · rw [pmtStreamsFrom, if_neg hmore]
      exact ⟨dest, rfl⟩

theorem length_headerFrom (mem : Memory) : (headerFrom mem).length = 17 := Buffer.length_cells _

theorem esLength_lt (mem : Memory) : esLength mem < 4096 := by
  have hlen := sectionLength_lt (bytesFrom mem 5 12)
  simp only [esLength, tsHeaderLen, pmtLen]
  omega

/-- The generated packet is built if what is copied leaves room for the CRC. -/
theorem pmtBuild_ok_iff (mem : Memory) (pids : List Int) :
    (∃ r, pmtBuild mem pids = .ok r) ↔
      (tableId (bytesFrom mem 5 12) = 0x02 →
        (copyEntries pids (esEntries mem 17 (esLength mem)) (headerFrom mem)).length ≤ 184) := by
  have happ : appendDest [] (headerFrom mem) = .ok (headerFrom mem) :=
    appendDest_ok (by rw [List.length_nil, length_headerFrom]; decide)
  unfold pmtBuild
  by_cases htable : tableId (bytesFrom mem 5 12) = 0x02
  · simp only [tsHeaderLen, pmtLen, maxTsSize]
    rw [if_neg (not_not_intro htable), happ, bind_ok]
    constructor
    · rintro ⟨r, h⟩ -
      obtain ⟨dest, hloop, h⟩ := bind_eq_ok.mp h
      obtain ⟨p, hclose, -⟩ := bind_eq_ok.mp h
      have hdest := pmtStreamsFrom_eq_ok hloop
      rw [Nat.add_zero, Nat.sub_zero] at hdest
      rw [← hdest]
      exact (closeSection_eq_ok hclose).1
    · intro h
      have hfits := h htable
      have hlength := esLength_lt mem
      have hloop : ∃ dest, pmtStreamsFrom (4096 + 1) pids mem (esLength mem) 0 (headerFrom mem) =
          .ok dest := by
        refine pmtStreamsFrom_ok (by omega) ?_
        rw [Nat.add_zero, Nat.sub_zero]
        omega
      obtain ⟨dest, hloop⟩ := hloop
      have hdest := pmtStreamsFrom_eq_ok hloop
      rw [Nat.add_zero, Nat.sub_zero] at hdest
      rw [← hdest] at hfits
      obtain ⟨p, hclose, -⟩ := closeSection_ok hfits
      exact ⟨some p, by rw [hloop, bind_ok, hclose]; rfl⟩
  · simp only [tsHeaderLen, pmtLen]
    rw [if_pos htable]
    exact iff_of_true ⟨none, rfl⟩ fun h => absurd h htable

theorem passes_cons : Passes pids used (e :: es) ↔
    used + e.bytes.length < 184 ∧
      Passes pids (used + timesListed pids e * e.bytes.length) es := by
  constructor
  · intro h
    refine ⟨h [] e es rfl, fun before e' after heq => ?_⟩
    have hlater := h (e :: before) e' after (by rw [heq]; rfl)
    rw [copiedSize] at hlater
    omega
  · rintro ⟨hfirst, hlater⟩ before e' after heq
    cases before with
    | nil =>
      cases heq
      exact hfirst
    | cons e₁ before =>
      cases heq
      have hnext := hlater before e' after rfl
      rw [copiedSize]
      omega

theorem copiesFit_cons : CopiesFit pids used (e :: es) ↔
    (used + e.bytes.length < 184 →
      used + timesListed pids e * e.bytes.length ≤ 184 ∧
        CopiesFit pids (used + timesListed pids e * e.bytes.length) es) := by
  have hnone : ∀ used, Passes pids used [] := fun used before e' after heq => by simp at heq
  constructor
  · intro h hroom
    refine ⟨h [] e es rfl (passes_cons.mpr ⟨hroom, hnone _⟩), fun before e' after heq hpass => ?_⟩
    have hlater := h (e :: before) e' after (by rw [heq]; rfl) (passes_cons.mpr ⟨hroom, hpass⟩)
    rw [List.cons_append, copiedSize] at hlater
    omega
  · intro h before e' after heq hpass
    cases before with
    | nil =>
      cases heq
      exact (h (passes_cons.mp hpass).1).1
    | cons e₁ before =>
      cases heq
      obtain ⟨hroom, hpass⟩ := passes_cons.mp hpass
      have hnext := (h hroom).2 before e' after rfl hpass
      rw [List.cons_append, copiedSize]
      omega

theorem copyEntries_fits_iff (hdest : dest.length ≤ 184) :
    (copyEntries pids es dest).length ≤ 184 ↔ CopiesFit pids dest.length es := by
  induction es generalizing dest with
  | nil => exact iff_of_true hdest fun before e' after heq => by simp at heq
  | cons e es ih =>
    rw [copiesFit_cons, copyEntries]
    by_cases hfull : 184 ≤ dest.length + e.bytes.length
    · rw [if_pos hfull]
      exact iff_of_true hdest fun hroom => absurd hroom (Nat.not_lt_of_le hfull)
    · have hnext : (dest ++ copies pids e).length =
          dest.length + timesListed pids e * e.bytes.length := by
        rw [List.length_append, length_copies]
      rw [if_neg hfull]
      constructor
      · intro h _
        have hpre := Nat.le_trans (copyEntries_extends pids es (dest ++ copies pids e)).length_le h
        rw [← hnext]
        exact ⟨hpre, (ih hpre).mp h⟩
      · intro h
        have hfits := h (Nat.lt_of_not_le hfull)
        rw [← hnext] at hfits
        exact (ih hfits.1).mpr hfits.2

end copies

/-- Every write of `pmt_channel_rewrite` stays inside `buf_dest` exactly when the entries that pass
the test against an overflow fit with all the copies that are made of them. -/
theorem pmtBuild_inside_iff (mem : Memory) (pids : List Int) :
    (∃ r, pmtBuild mem pids = .ok r) ↔
      (tableId (bytesFrom mem 5 12) = 0x02 →
        CopiesFit pids 17 (esEntries mem 17 (esLength mem))) := by
  rw [pmtBuild_ok_iff]
  refine imp_congr_right fun _ => ?_
  have hfits := @copyEntries_fits_iff pids (esEntries mem 17 (esLength mem)) (headerFrom mem)
    (by rw [length_headerFrom]; decide)
  rwa [length_headerFrom] at hfits

/-- A PMT with one stream of 105 bytes, on PID 257. -/
def largeStream : Memory := fun k =>
  ([0x47, 0x41, 0x00, 0x10, 0x00, 0x02, 0xb0, 0x76, 0x00, 0x01, 0xc1, 0x00, 0x00, 0xe1, 0x01, 0xf0,
    0x00, 0x02, 0xe1, 0x01, 0xf0, 0x64] : List UInt8).getD k 0

/-- Its PID is in the list twice: the second copy goes beyond the packet. -/
theorem pmtBuild_not_inside :
    ([256, 257, 257] : List Int).length ≤ 128 ∧
      ¬∃ r, pmtBuild largeStream [256, 257, 257] = .ok r := by
  refine ⟨by decide, fun h => ?_⟩
  have hfits := (pmtBuild_ok_iff largeStream [256, 257, 257]).mp h (by decide +kernel)
  revert hfits
  decide +kernel

/-- Without repeated PIDs there is always room. -/
theorem copiesFit_of_nodup {pids : List Int} (hnodup : pids.Nodup) {used : Nat}
    (es : List EsEntry) : CopiesFit pids used es := by
  induction es generalizing used with
  | nil => exact fun before e' after heq => by simp at heq
  | cons e es ih =>
    refine copiesFit_cons.mpr fun hroom => ⟨?_, ih⟩
    have hone : timesListed pids e ≤ 1 := List.nodup_iff_count.mp hnodup _
    have hsize := Nat.mul_le_mul_right e.bytes.length hone
    omega

/-! Inside of the buffer the rewriting of a channel is the rewriting of its memory. -/

section buffer

variable {pids : List Int} {mem : Memory} {pmt : Buffer UInt8 originalPmtSize}
  {dest dest' : List UInt8} {off len esLen i pid fuel : Nat}

theorem byteAt_bytesFrom {len k : Nat} (hk : k < len) :
    byteAt (bytesFrom mem off len) k = mem (off + k) := by
  rw [byteAt, bytesFrom, List.getD_eq_getElem?_getD, List.getElem?_map, List.getElem?_range hk]
  rfl

theorem bytesFrom_congr {mem' : Memory} {off' len : Nat}
    (h : ∀ k < len, mem (off + k) = mem' (off' + k)) :
    bytesFrom mem off len = bytesFrom mem' off' len :=
  List.map_congr_left fun k hk => h k (List.mem_range.mp hk)

theorem bytesFrom_byteAt (s : List UInt8) {len : Nat} (h : off + len ≤ s.length) :
    bytesFrom (byteAt s) off len = (s.drop off).take len := by
  refine List.ext_getElem (by simp; omega) fun k hk hk' => ?_
  rw [length_bytesFrom] at hk
  simp only [bytesFrom, List.getElem_map, List.getElem_range, List.getElem_take, List.getElem_drop,
    byteAt, List.getD_eq_getElem?_getD]
  rw [List.getElem?_eq_getElem (by omega), Option.getD_some]

theorem headerFrom_eq (mem : Memory) : headerFrom mem =
    (startFrom mem).cells.take 5 ++ makeOnlySection ((startFrom mem).cells.drop 5) := rfl

theorem slice_from (hagree : ∀ k, 17 ≤ k → k < 1880 → mem k = byteAt pmt.cells k) (hoff : 17 ≤ off)
    (h : off + len ≤ 1880) : pmt.slice off len = .ok (bytesFrom mem off len) := by
  have hsize := pmt.length_cells
  have hsame : bytesFrom mem off len = bytesFrom (byteAt pmt.cells) off len :=
    bytesFrom_congr fun k hk => hagree (off + k) (by omega) (by omega)
  rw [pmt.slice_ok h, hsame, bytesFrom_byteAt _ (by rw [hsize]; exact h)]

/-- Inside of the buffer an entry is copied as from the memory. -/
theorem copyStream_from (hagree : ∀ k, 17 ≤ k → k < 1880 → mem k = byteAt pmt.cells k)
    (hoff : 17 ≤ off) (h : off + len ≤ 1880) :
    copyStream pmt off len pid pids dest =
      copyStreamFrom ⟨pid, bytesFrom mem off len⟩ pids dest := by
  induction pids generalizing dest with
  | nil => rfl
  | cons p pids ih =>
    rw [copyStream, copyStreamFrom]
    split
    · rw [slice_from hagree hoff h, bind_ok]
      simp only [ih]
    · exact ih

/-- The loop inside of the buffer. -/
theorem pmtStreams_from (hagree : ∀ k, 17 ≤ k → k < 1880 → mem k = byteAt pmt.cells k)
    (h : 17 + esLen + 188 ≤ 1880) :
    pmtStreams fuel pids pmt esLen i dest = pmtStreamsFrom fuel pids mem esLen i dest := by
  induction fuel generalizing i dest with
  | zero => rfl
  | succ fuel ih =>
    rw [pmtStreams, pmtStreamsFrom]
    split
    case isTrue hmore =>
      have hslice : pmt.slice (17 + i) 5 = .ok (bytesFrom mem (17 + i) 5) :=
        slice_from hagree (Nat.le_add_right 17 i) (by omega)
      have hsize := length_entryAt mem (17 + i)
      simp only [tsHeaderLen, pmtLen, pmtInfoLen, tsPacketSize, hsize]
      rw [hslice, bind_ok]
      by_cases hfull : 184 ≤ dest.length + (5 + esInfoLength (bytesFrom mem (17 + i) 5))
      · rw [if_pos hfull, if_pos (by omega)]
        rfl
      · rw [if_neg hfull, if_neg (by omega),
          copyStream_from hagree (Nat.le_add_right 17 i) (by omega)]
        simp only [ih]
        rfl
    case isFalse => rfl

theorem onlySection_take (s : List UInt8) :
    (makeOnlySection s).take 12 = makeOnlySection (s.take 12) := by
  rw [makeOnlySection, makeOnlySection, List.take_set, List.take_set, List.take_set,
    byteAt_take (by decide)]

theorem startFrom_memoryOf (pmt : Buffer UInt8 originalPmtSize) :
    (startFrom (memoryOf pmt)).cells = (startHeader pmt).cells.take 17 := by
  have hbytes : bytesFrom (memoryOf pmt) 0 17 = pmt.cells.take 17 := by
    have hread := @bytesFrom_byteAt 0 pmt.cells 17 (by rw [pmt.length_cells]; decide)
    rwa [List.drop_zero] at hread
  have hbyte : byteAt (pmt.cells.take 17) 1 = byteAt pmt.cells 1 := byteAt_take (by decide)
  simp only [startFrom, startHeader, setPayloadUnitStart, hbytes, hbyte, List.take_set]

/-- `buf_dest` begins with what stands in the buffer. -/
theorem headerFrom_memoryOf (pmt : Buffer UInt8 originalPmtSize) :
    (onlySectionAt (startHeader pmt) tsHeaderLen).cells.take (tsHeaderLen + pmtLen) =
      headerFrom (memoryOf pmt) := by
  have hlen : ((startHeader pmt).cells.take 5).length = 5 := by simp
  have htake := @List.take_length_add_append _ ((startHeader pmt).cells.take 5)
    (makeOnlySection ((startHeader pmt).cells.drop 5)) 12
  rw [hlen] at htake
  rw [headerFrom_eq, startFrom_memoryOf, List.take_take, List.drop_take, ← onlySection_take]
  exact htake

theorem memoryOf_agrees (pmt : Buffer UInt8 originalPmtSize) {k : Nat} (hk : 17 ≤ k) :
    memoryOf pmt k = byteAt (onlySectionAt (startHeader pmt) tsHeaderLen).cells k := by
  have hlen : ((startHeader pmt).cells.take 5).length = 5 := by simp
  have hright := @byteAt_append_right ((startHeader pmt).cells.take 5)
    (makeOnlySection ((startHeader pmt).cells.drop 5)) (k - 5)
  rw [hlen, Nat.add_sub_cancel' (by omega), byteAt_makeOnlySection (by omega) (by omega) (by omega),
    byteAt_drop, Nat.add_sub_cancel' (by omega), byteAt_startHeader pmt (by omega) (by omega)]
    at hright
  exact hright.symm

/-- The channel after `pmt_channel_rewrite` has built a packet, or none. -/
def rewritten (channel : MumudvbChannel) : Option Packet → Bool × MumudvbChannel
  | none => (false, channel)
  | some p =>
    let originalPmt := onlySectionAt (startHeader channel.originalPmt) tsHeaderLen
    (true, { channel with
      originalPmt := originalPmt
      generatedPmtVersion := versionNumber (originalPmt.cells.drop tsHeaderLen)
      generatedPmt := p })

/-- While the PMT does not say that it is longer than the buffer, `pmt_channel_rewrite` of a channel
is the rewriting of its memory. -/
theorem pmtChannelRewrite_build (channel : MumudvbChannel)
    (h : 17 + esLength (memoryOf channel.originalPmt) + 188 ≤ 1880) :
    pmtChannelRewrite channel = do
      let r ← pmtBuild (memoryOf channel.originalPmt) channel.pids
      return rewritten channel r := by
  have hsize := channel.originalPmt.length_cells
  have hhead : bytesFrom (memoryOf channel.originalPmt) 5 12 =
      (channel.originalPmt.cells.drop 5).take 12 :=
    bytesFrom_byteAt channel.originalPmt.cells (by rw [hsize]; decide)
  have htable : tableId (bytesFrom (memoryOf channel.originalPmt) 5 12) =
      tableId (channel.originalPmt.cells.drop 5) := by
    rw [hhead, tableId, tableId, byteAt_take (by decide)]
  have hlength : esLength (memoryOf channel.originalPmt) =
      sectionLength (channel.originalPmt.cells.drop 5) + 3 - pmtLen - 4 := by
    rw [esLength, hhead, sectionLength, sectionLength, byteAt_take (by decide),
      byteAt_take (by decide)]
  unfold pmtChannelRewrite pmtBuild
  simp only [tsHeaderLen, pmtLen] at hlength htable ⊢
  rw [htable, ← hlength]
  split
  · rfl
  · have hstreams := fun fuel i dest => @pmtStreams_from channel.pids (memoryOf channel.originalPmt)
      (onlySectionAt (startHeader channel.originalPmt) 5) dest
      (esLength (memoryOf channel.originalPmt)) i fuel
      (fun k hk _ => memoryOf_agrees channel.originalPmt hk) h
    have hfirst := headerFrom_memoryOf channel.originalPmt
    simp only [tsHeaderLen, pmtLen] at hfirst
    simp only [hfirst, hstreams, bind_assoc]
    rfl

end buffer

end MuMuDVB.PmtCopies
