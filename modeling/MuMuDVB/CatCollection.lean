import Mathlib.Data.List.Perm.Subperm
import MuMuDVB.DescriptorWalks

/-!
# Collecting the CA systems of a CAT

A version of the CAT may come in several sections. `autoconf_read_cat` notes
which of them it has read, and fills the list of CA systems from the section it
reads. What the list holds in the end depends on the order in which the
sections arrive.
-/
namespace MuMuDVB.CatCollection

open CheckedMemory FuelLoop MuMuDVB.TsHeader MuMuDVB.Ts MuMuDVB.TsAssembler
open MuMuDVB.RewriteSdt MuMuDVB.AutoconfCat MuMuDVB.DescriptorWalks

/-- A well-formed CAT section in force. -/
structure CatSection where
  header : List UInt8
  descriptors : List (List UInt8)
  crc : List UInt8
  headerLength : header.length = catLen
  crcLength : crc.length = 4
  tableId : tableId header = 0x01
  current : currentNextIndicator header = 1
  isDescriptor : ∀ d ∈ descriptors, IsDescriptor d
  caLength : ∀ d ∈ descriptors, byteAt d 0 = 0x09 → descrCaLen ≤ d.length
  size : (header ++ (descriptors.flatten ++ crc)).length = sectionSize header
  crcValid : crc32 (header ++ (descriptors.flatten ++ crc)) = 0

def CatSection.bytes (cat : CatSection) : List UInt8 :=
  cat.header ++ (cat.descriptors.flatten ++ cat.crc)

/-- The CA systems that some descriptors give. -/
def caSystems (descriptors : List (List UInt8)) : List CaSystem :=
  (descriptors.filter fun d => byteAt d 0 = 0x09).map fun d => ⟨caType d, caPid d⟩

/-- One version of the CAT, its sections numbered from 0. -/
structure CatTable where
  version : Nat
  sections : List CatSection
  nonempty : sections ≠ []
  atMost : sections.length ≤ 256
  numbered : ∀ i cat, sections[i]? = some cat → versionNumber cat.header = version ∧
    sectionNumber cat.header = i ∧ lastSectionNumber cat.header = sections.length - 1

/-- All CA systems of the version. -/
def CatTable.all (table : CatTable) : List CaSystem :=
  table.sections.flatMap fun cat => caSystems cat.descriptors

/-- A section of the version arrives: it is what `data_full` holds. -/
structure Arrival (table : CatTable) where
  index : Nat
  cat : CatSection
  found : table.sections[index]? = some cat
  pkt : MumudvbTsPacket
  lenFull : pkt.lenFull = cat.bytes.length
  holds : pkt.dataFull.cells.take pkt.lenFull = cat.bytes

/-- The autoconfiguration before the version comes. -/
structure Before (table : CatTable) where
  autoP : AutoP
  other : autoP.catVersion ≠ table.version

def readArrival {table : CatTable} (s : AutoP × List CaChannel) (a : Arrival table) :
    Checked (AutoP × List CaChannel) :=
  autoconfReadCat { s.1 with autoconfTempCat := a.pkt } s.2

/-- The sections are read in the order in which they arrive. -/
def readArrivals {table : CatTable} (s : AutoP × List CaChannel) (arrivals : List (Arrival table)) :
    Checked (AutoP × List CaChannel) :=
  arrivals.foldlM readArrival s

/-- The entries of the list, up to the first free one, as `autoconf_get_ca_system` reads it. -/
def held (list : Buffer CaSystem maxCaSystems) : List CaSystem :=
  list.cells.takeWhile fun ca => ca.id ≠ -1

/-- The version has been read completely. -/
def Completed (table : CatTable) (autoP : AutoP) : Prop :=
  autoP.catVersion = table.version ∧ autoP.catAllSectionsSeen = true

/-- The list holds the CA systems of all sections, as many as there is room for. -/
structure Collected (table : CatTable) (autoP : AutoP) : Prop where
  fromSections : (held autoP.caSystemList).Subperm table.all
  number : (held autoP.caSystemList).length = min maxCaSystems table.all.length

/-- The numbers of the sections that have arrived, by their first arrival, the last one first. -/
def firsts {table : CatTable} (arrivals : List (Arrival table)) : List Nat :=
  arrivals.foldl (fun seen a => if a.index ∈ seen then seen else a.index :: seen) []

/-- Of the sections that give CA systems, the last to arrive first gives all that are held. -/
def LastGivesAll (table : CatTable) (arrivals : List (Arrival table)) : Prop :=
  (∀ i < table.sections.length, i ∈ firsts arrivals) → ∀ i cat, (firsts arrivals).head? = some i →
    table.sections[i]? = some cat →
    min maxCaSystems (caSystems cat.descriptors).length = min maxCaSystems table.all.length

variable {data : Buffer UInt8 maxTsSize} {lenFull : Nat}

/-- A turn at a CA descriptor when the list is full. -/
theorem catTurn_full {w : CatWalk} {b : UInt8} (hlen : lenFull ≤ maxTsSize)
    (hinside : w.delta + 2 < sectionLength data.cells) (htag : data.cells[w.delta]? = some 0x09)
    (hb : data.cells[w.delta + 1]? = some b) (hfits : w.delta + (b + 2).toNat < lenFull)
    (hcaFits : w.delta + descrCaLen < lenFull) (hfull : w.caSystemListIndex = maxCaSystems) :
    catTurn data lenFull w = .ok (.done w.caSystemList) := by
  have hslice : w.delta + descrCaLen ≤ maxTsSize := by omega
  rw [catTurn, if_pos hinside, Buffer.read_eq_ok.mpr htag, bind_ok, Buffer.read_eq_ok.mpr hb,
    bind_ok, if_neg (by omega), if_pos rfl, if_neg (by omega), Buffer.slice_ok data hslice, bind_ok,
    if_pos (by omega)]
  rfl

theorem run_done {σ α : Type} {body : σ → Checked (Turn σ α)} {s : σ} {a : α}
    (h : body s = .ok (.done a)) (fuel : Nat) : run body (fuel + 1) s = .ok a := by
  rw [run, h, bind_ok]
  rfl

theorem caSystems_cons_other {d : List UInt8} (h : byteAt d 0 ≠ 0x09) (ds : List (List UInt8)) :
    caSystems (d :: ds) = caSystems ds := by
  simp [caSystems, h]

theorem caSystems_cons_ca {d : List UInt8} (h : byteAt d 0 = 0x09) (ds : List (List UInt8)) :
    caSystems (d :: ds) = ⟨caType d, caPid d⟩ :: caSystems ds := by
  simp [caSystems, h]

/-- The part of a CA descriptor that is read, where the descriptor lies in the section. -/
theorem caSystem_slice {d ys : List UInt8} (h : descrCaLen ≤ d.length) :
    (⟨caType ((d ++ ys).take descrCaLen), caPid ((d ++ ys).take descrCaLen)⟩ : CaSystem) =
      ⟨caType d, caPid d⟩ := by
  have hbyte : ∀ k < 6, byteAt ((d ++ ys).take descrCaLen) k = byteAt d k := fun k hk => by
    rw [byteAt_take hk, byteAt_append_left (Nat.lt_of_lt_of_le hk h)]
  simp only [caType, caPid, hbyte 2 (by decide), hbyte 3 (by decide), hbyte 4 (by decide),
    hbyte 5 (by decide)]

/-- The loop over well-formed descriptors ends with their CA systems in the list, as long as there
is room. -/
theorem run_catTurn_descriptors {list : Buffer CaSystem maxCaSystems} {ds : List (List UInt8)}
    {ys : List UInt8} (hds : ∀ d ∈ ds, IsDescriptor d)
    (hca : ∀ d ∈ ds, byteAt d 0 = 0x09 → descrCaLen ≤ d.length)
    (hmax : lenFull ≤ maxTsSize) (fuel : Nat) (hfuel : ds.length < fuel) (xs : List UInt8)
    (before : List CaSystem) (w : CatWalk) (hdata : data.cells = xs ++ (ds.flatten ++ ys))
    (hlen : lenFull = xs.length + ds.flatten.length + 4)
    (hsize : sectionLength data.cells + 3 = lenFull) (hdelta : w.delta = xs.length)
    (hindex : w.caSystemListIndex = before.length) (hroom : before.length ≤ maxCaSystems)
    (hlist : w.caSystemList.cells = splice list.cells 0 before) :
    ∃ list', run (catTurn data lenFull) fuel w = .ok list' ∧
      list'.cells = splice list.cells 0 ((before ++ caSystems ds).take maxCaSystems) := by
  obtain ⟨fuel, rfl⟩ : ∃ n, fuel = n + 1 := ⟨fuel - 1, by omega⟩
  induction ds generalizing fuel xs before w with
  | nil =>
    have hend : ¬ w.delta + 2 < sectionLength data.cells := by
      simp only [List.flatten_nil, List.length_nil] at hlen
      omega
    refine ⟨w.caSystemList, run_done (by rw [catTurn, if_neg hend]) fuel, ?_⟩
    rw [hlist, show caSystems [] = [] from rfl, List.append_nil, List.take_of_length_le hroom]
  | cons d ds ih =>
    have hd := hds d List.mem_cons_self
    have hdlen := hd.length
    rw [List.flatten_cons, List.append_assoc] at hdata
    rw [List.flatten_cons, List.length_append] at hlen
    rw [List.length_cons] at hfuel
    obtain ⟨fuel, rfl⟩ : ∃ n, fuel = n + 1 := ⟨fuel - 1, by omega⟩
    have hbyte : ∀ k < d.length, data.cells[w.delta + k]? = some (byteAt d k) := fun k hk => by
      rw [hdata, hdelta, List.getElem?_append_right (Nat.le_add_right _ _),
        Nat.add_sub_cancel_left, List.getElem?_append_left hk, getElem?_of_byteAt hk]
    have hinside : w.delta + 2 < sectionLength data.cells := by omega
    have htag : data.cells[w.delta]? = some (byteAt d 0) := hbyte 0 (by omega)
    have hb := hbyte 1 (by omega)
    have hadvance := hd.toNat_add_two
    have hfits : w.delta + (byteAt d 1 + 2).toNat < lenFull := by omega
    have hrest := fun before w => ih (fun d' hd' => hds d' (.tail _ hd'))
      (fun d' hd' => hca d' (.tail _ hd')) (xs ++ d) before w (by rw [hdata, List.append_assoc])
      (by rw [List.length_append]; omega)
    by_cases htagCa : byteAt d 0 = 0x09
    · rw [htagCa] at htag
      have hsix := hca d List.mem_cons_self htagCa
      have hcaFits : w.delta + descrCaLen < lenFull := by omega
      rw [caSystems_cons_ca htagCa]
      by_cases hfull : before.length = maxCaSystems
      · refine ⟨w.caSystemList, run_done (catTurn_full hmax hinside htag hb hfits hcaFits
          (hindex.trans hfull)) _, ?_⟩
        rw [hlist, List.take_append_of_le_length (Nat.le_of_eq hfull.symm),
          List.take_of_length_le hroom]
      · obtain ⟨list₁, hturn, hcells⟩ := catTurn_ca hmax hinside htag hb hfits hcaFits
          (hindex ▸ Nat.lt_of_le_of_ne hroom hfull)
        have hdrop : data.cells.drop w.delta = d ++ (ds.flatten ++ ys) := by
          rw [hdata, hdelta, List.drop_left]
        rw [hdrop, caSystem_slice hsix, hlist, hindex] at hcells
        obtain ⟨list', hrun, hcells'⟩ := hrest (before ++ [⟨caType d, caPid d⟩])
          ⟨w.delta + (byteAt d 1 + 2).toNat, w.caSystemListIndex + 1, list₁⟩
          (by simp only [List.length_append]; omega) (by simp [hindex])
          (by
            rw [List.length_append, List.length_singleton]
            exact Nat.lt_of_le_of_ne hroom hfull)
          (by rw [hcells, ← splice_splice (by simp; omega), Nat.zero_add])
          fuel (by omega)
        refine ⟨list', by rw [run_again hturn, hrun], ?_⟩
        rw [hcells', List.append_assoc, List.singleton_append]
    · obtain ⟨list', hrun, hcells'⟩ := hrest before
        { w with delta := w.delta + (byteAt d 1 + 2).toNat }
        (by simp only [List.length_append]; omega) hindex hroom hlist fuel (by omega)
      refine ⟨list', by rw [run_again (catTurn_other hinside htag hb hfits htagCa), hrun], ?_⟩
      rw [hcells', caSystems_cons_other htagCa]

theorem length_le_flatten {ds : List (List UInt8)} (hds : ∀ d ∈ ds, IsDescriptor d) :
    ds.length ≤ ds.flatten.length := by
  induction ds with
  | nil => exact Nat.le_refl 0
  | cons d ds ih =>
    have hd := (hds d List.mem_cons_self).length
    have hrest := ih fun d' hd' => hds d' (.tail _ hd')
    rw [List.flatten_cons, List.length_append, List.length_cons]
    omega

theorem caSystems_id {ds : List (List UInt8)} : ∀ ca ∈ caSystems ds, ca.id ≠ -1 := by
  intro ca hca
  obtain ⟨d, -, rfl⟩ := List.mem_map.mp hca
  simp only
  omega

/-- A list that was cleared before some CA systems were stored holds those. -/
theorem held_stored {list list' : Buffer CaSystem maxCaSystems} {systems : List CaSystem}
    (hids : ∀ ca ∈ systems, ca.id ≠ -1)
    (hcells : list'.cells = splice (autoconfClearCaSystemList list).cells 0 systems) :
    held list' = systems := by
  have hfree : ((autoconfClearCaSystemList list).cells.drop systems.length).takeWhile
      (fun ca => decide (ca.id ≠ -1)) = [] := by
    cases hdrop : (autoconfClearCaSystemList list).cells.drop systems.length with
    | nil => rfl
    | cons ca rest =>
      have hmem : ca ∈ (autoconfClearCaSystemList list).cells :=
        List.mem_of_mem_drop (hdrop ▸ List.mem_cons_self)
      obtain ⟨ca', -, rfl⟩ := List.mem_map.mp hmem
      simp
  rw [held, hcells, splice, List.take_zero, List.nil_append, Nat.zero_add,
    List.takeWhile_append_of_pos (by simpa using hids), hfree, List.append_nil]

section read

variable {table : CatTable}

theorem CatSection.length_bytes (cat : CatSection) :
    cat.bytes.length = catLen + cat.descriptors.flatten.length + 4 := by
  simp only [CatSection.bytes, List.length_append, cat.headerLength, cat.crcLength]
  omega

/-- `data_full` begins with the section. -/
theorem Arrival.cells (a : Arrival table) :
    ∃ rest, a.pkt.dataFull.cells = a.cat.header ++ (a.cat.descriptors.flatten ++
      (a.cat.crc ++ rest)) := by
  refine ⟨a.pkt.dataFull.cells.drop a.pkt.lenFull, ?_⟩
  have hsplit := List.take_append_drop a.pkt.lenFull a.pkt.dataFull.cells
  rw [a.holds, CatSection.bytes] at hsplit
  simpa only [List.append_assoc] using hsplit.symm

theorem Arrival.byteAt (a : Arrival table) {i : Nat} (hi : i < 8) :
    byteAt a.pkt.dataFull.cells i = TsHeader.byteAt a.cat.header i := by
  obtain ⟨rest, hcells⟩ := a.cells
  rw [hcells, byteAt_append_left (by rw [a.cat.headerLength]; exact hi)]

theorem Arrival.lenFull_le (a : Arrival table) : a.pkt.lenFull ≤ maxTsSize := by
  have hlen := congrArg List.length a.holds
  rw [List.length_take, a.pkt.dataFull.length_cells, ← a.lenFull] at hlen
  omega

/-- The CA systems of the section that arrives are in the list when the loop ends. -/
theorem Arrival.run_catTurn (a : Arrival table) (list : Buffer CaSystem maxCaSystems) :
    ∃ list', run (catTurn a.pkt.dataFull a.pkt.lenFull) catFuel
        ⟨catLen, 0, autoconfClearCaSystemList list⟩ = .ok list' ∧
      held list' = (caSystems a.cat.descriptors).take maxCaSystems := by
  obtain ⟨rest, hcells⟩ := a.cells
  have hlength := a.cat.length_bytes
  have hlen := a.lenFull
  have hmax := a.lenFull_le
  have hsize : sectionLength a.pkt.dataFull.cells + 3 = a.pkt.lenFull := by
    have htotal := a.cat.size
    rw [sectionSize, bytesBfrSecLen] at htotal
    rw [hlen, CatSection.bytes, htotal, hcells,
      sectionLength_append (by rw [a.cat.headerLength]; decide)]
  have hcount := length_le_flatten a.cat.isDescriptor
  obtain ⟨list', hrun, hcells'⟩ := @run_catTurn_descriptors _ _
    (autoconfClearCaSystemList list) _ _ a.cat.isDescriptor a.cat.caLength hmax catFuel
    (by simp at hmax ⊢; omega) a.cat.header []
    ⟨catLen, 0, autoconfClearCaSystemList list⟩ hcells (by rw [a.cat.headerLength]; omega) hsize
    a.cat.headerLength.symm rfl (by decide) (by simp)
  refine ⟨list', hrun, @held_stored list _ _
    (fun ca hca => caSystems_id ca (List.mem_of_mem_take hca)) ?_⟩
  rw [hcells', List.nil_append]

/-- The table of the sections seen, as a list of their numbers. -/
def SeenTable (seen : List Nat) (cells : List Bool) : Prop :=
  ∀ j < 256, cells[j]? = some (decide (j ∈ seen))

theorem seenTable_fill : SeenTable [] (Buffer.fill 256 false).cells := by
  intro j hj
  rw [Buffer.fill, List.getElem?_replicate, if_pos hj]
  simp

theorem SeenTable.set {seen : List Nat} {cells : List Bool} (h : SeenTable seen cells)
    (hlen : cells.length = 256) {i : Nat} (hi : i < 256) :
    SeenTable (i :: seen) (splice cells i [true]) := by
  intro j hj
  rw [splice_singleton (by omega)]
  by_cases hij : i = j
  · subst hij
    rw [List.getElem?_set_self (by omega)]
    simp
  · rw [List.getElem?_set_ne hij, h j hj]
    simp [Ne.symm hij]

theorem SeenTable.none_missing {seen : List Nat} {cells : List Bool} (h : SeenTable seen cells)
    (hlen : cells.length = 256) {n : Nat} (hn : n ≤ 256) :
    (cells.take n).count false = 0 ↔ ∀ j < n, j ∈ seen := by
  rw [List.count_eq_zero, List.mem_iff_getElem?, not_exists]
  constructor
  · intro hnone j hj
    by_contra hmem
    refine hnone j ?_
    rw [List.getElem?_take_of_lt hj, h j (by omega)]
    simp [hmem]
  · intro hall j hj
    have hlt : j < n := by
      have := (List.getElem?_eq_some_iff.mp hj).1
      rw [List.length_take] at this
      omega
    rw [List.getElem?_take_of_lt hlt, h j (by omega)] at hj
    simp [hall j hlt] at hj

/-- Some sections of the version have been read, the last one for the first time at the head. -/
structure Progress (table : CatTable) (seen : List Nat) (autoP : AutoP) : Prop where
  version : autoP.catVersion = table.version
  seenTable : SeenTable seen autoP.catSectionsSeen.cells
  held : ∀ i cat, seen.head? = some i → table.sections[i]? = some cat →
    held autoP.caSystemList = (caSystems cat.descriptors).take maxCaSystems
  complete : autoP.catAllSectionsSeen = true ↔ ∀ i < table.sections.length, i ∈ seen
  found : ∀ i ∈ seen, ∃ cat, table.sections[i]? = some cat

/-- Where the reading of the version stands. -/
def Stands (table : CatTable) (seen : List Nat) (autoP : AutoP) : Prop :=
  seen = [] ∧ autoP.catVersion ≠ table.version ∨ seen ≠ [] ∧ Progress table seen autoP

theorem Arrival.numbers (a : Arrival table) :
    versionNumber a.pkt.dataFull.cells = table.version ∧
      sectionNumber a.pkt.dataFull.cells = a.index ∧
      lastSectionNumber a.pkt.dataFull.cells + 1 = table.sections.length ∧
      currentNextIndicator a.pkt.dataFull.cells = 1 ∧ a.index < table.sections.length := by
  obtain ⟨hversion, hnumber, hlast⟩ := table.numbered a.index a.cat a.found
  have hindex := (List.getElem?_eq_some_iff.mp a.found).1
  have hcurrent := a.cat.current
  simp only [versionNumber, sectionNumber, lastSectionNumber, currentNextIndicator] at *
  rw [a.byteAt (show 5 < 8 by decide), a.byteAt (show 6 < 8 by decide),
    a.byteAt (show 7 < 8 by decide)]
  exact ⟨hversion, hnumber, by omega, hcurrent, hindex⟩

/-- The head of `autoconf_read_cat` for a section that has not been seen. -/
theorem noteCatSection_spec {autoP : AutoP} {seen : List Nat} (hstands : Stands table seen autoP)
    (a : Arrival table) (hnew : a.index ∉ seen) :
    ∃ autoP', noteCatSection { autoP with autoconfTempCat := a.pkt } a.pkt.dataFull.cells =
        .ok autoP' ∧ autoP'.catVersion = table.version ∧
      SeenTable (a.index :: seen) autoP'.catSectionsSeen.cells ∧
      autoP'.catAllSectionsSeen = false ∧ autoP'.autoconfTempCat = a.pkt := by
  obtain ⟨hversion, hnumber, hlast, hcurrent, hindex⟩ := a.numbers
  have hmost := table.atMost
  have hset : ∀ table : Buffer Bool 256, SeenTable seen table.cells →
      ∃ seen', table.write (sectionNumber a.pkt.dataFull.cells) [true] = .ok seen' ∧
        SeenTable (a.index :: seen) seen'.cells := by
    intro table htable
    obtain ⟨seen', hwrite, hcells⟩ := table.write_ok
      (sectionNumber a.pkt.dataFull.cells) [true] (by rw [hnumber, List.length_singleton]; omega)
    refine ⟨seen', hwrite, ?_⟩
    rw [hcells, hnumber]
    exact htable.set table.length_cells (by omega)
  rw [noteCatSection]
  rcases hstands with ⟨rfl, hother⟩ | ⟨-, hprogress⟩
  · obtain ⟨seen', hwrite, htable⟩ := hset (Buffer.fill _ false) seenTable_fill
    rw [if_neg (by rw [hversion]; exact Ne.symm hother)]
    exact ⟨{ autoP with
        autoconfTempCat := a.pkt
        catAllSectionsSeen := false
        sdtVersion := -1
        catSectionsSeen := seen'
        catVersion := versionNumber a.pkt.dataFull.cells }, by rw [hwrite]; rfl, by rw [hversion],
      htable, rfl, rfl⟩
  · obtain ⟨seen', hwrite, htable⟩ := hset autoP.catSectionsSeen hprogress.seenTable
    rw [if_pos (by rw [hversion]; exact hprogress.version.symm)]
    refine ⟨{ autoP with autoconfTempCat := a.pkt, catSectionsSeen := seen' }, by rw [hwrite]; rfl,
      hprogress.version, htable, ?_, rfl⟩
    rw [← Bool.not_eq_true]
    exact fun hall => hnew (hprogress.complete.mp hall a.index hindex)

/-- A section that arrives is read, unless it has been. -/
theorem Stands.read {s : AutoP × List CaChannel} {seen : List Nat} (h : Stands table seen s.1)
    (a : Arrival table) : ∃ s', readArrival s a = .ok s' ∧
      Stands table (if a.index ∈ seen then seen else a.index :: seen) s'.1 := by
  obtain ⟨hversion, hnumber, hlast, hcurrent, hindex⟩ := a.numbers
  have hmost := table.atMost
  have hread : ∃ b, s.1.catSectionsSeen.read (sectionNumber a.pkt.dataFull.cells) = .ok b ∧
      (s.1.catVersion = table.version → b = decide (a.index ∈ seen)) := by
    rw [hnumber]
    obtain ⟨b, hb⟩ : ∃ b, s.1.catSectionsSeen.cells[a.index]? = some b :=
      ⟨_, List.getElem?_eq_getElem (by rw [s.1.catSectionsSeen.length_cells]; omega)⟩
    refine ⟨b, Buffer.read_ok _ hb, fun hsame => ?_⟩
    rcases h with ⟨-, hother⟩ | ⟨-, hprogress⟩
    · exact absurd hsame hother
    · exact Option.some.inj (hb.symm.trans (hprogress.seenTable a.index (by omega)))
  obtain ⟨b, hread, hb⟩ := hread
  simp only [readArrival, autoconfReadCat, hread, bind_ok]
  by_cases hold : a.index ∈ seen
  · rcases h with ⟨rfl, -⟩ | ⟨hne, hprogress⟩
    · cases hold
    rw [if_pos ⟨by rw [hversion]; exact hprogress.version.symm, by
      rw [hb hprogress.version, decide_eq_true hold]⟩, if_pos hold]
    exact ⟨_, rfl, .inr ⟨hne, hprogress.version, hprogress.seenTable, hprogress.held,
      hprogress.complete, hprogress.found⟩⟩
  · obtain ⟨autoP', hnote, hversion', htable, hall, hpkt⟩ := noteCatSection_spec h a hold
    rw [if_neg (by
      rintro ⟨hsame, rfl⟩
      rw [hversion] at hsame
      exact absurd (hb hsame.symm) (by simp [hold])), if_neg hold, hnote, bind_ok,
      if_neg (by rw [hcurrent]; decide), hpkt]
    obtain ⟨list', hrun, hheld⟩ := a.run_catTurn autoP'.caSystemList
    simp only [hrun, bind_ok, finishCat]
    have hheld' : ∀ i cat, (a.index :: seen).head? = some i → table.sections[i]? = some cat →
        held list' = (caSystems cat.descriptors).take maxCaSystems := by
      rintro i cat ⟨⟩ hfound
      cases a.found.symm.trans hfound
      exact hheld
    have hfound : ∀ i ∈ a.index :: seen, ∃ cat, table.sections[i]? = some cat := by
      intro i hi
      rcases List.mem_cons.mp hi with rfl | hi
      · exact ⟨a.cat, a.found⟩
      · rcases h with ⟨rfl, -⟩ | ⟨-, hprogress⟩
        · cases hi
        · exact hprogress.found i hi
    have hmissing := htable.none_missing autoP'.catSectionsSeen.length_cells hmost
    rw [hlast]
    split
    case isTrue hsome =>
      refine ⟨_, rfl, .inr ⟨List.cons_ne_nil _ _, hversion', htable, hheld', ?_, hfound⟩⟩
      exact ⟨fun hflag => absurd (hall.symm.trans hflag) Bool.false_ne_true,
        fun hevery => absurd (hmissing.mpr hevery) hsome⟩
    case isFalse hnone =>
      refine ⟨_, rfl, .inr ⟨List.cons_ne_nil _ _, hversion', htable, hheld', ?_, hfound⟩⟩
      exact ⟨fun _ => hmissing.mp (Decidable.not_not.mp hnone), fun _ => rfl⟩

theorem Stands.readAll {s : AutoP × List CaChannel} {seen : List Nat} (h : Stands table seen s.1)
    (arrivals : List (Arrival table)) : ∃ s', readArrivals s arrivals = .ok s' ∧
      Stands table (arrivals.foldl
        (fun seen a => if a.index ∈ seen then seen else a.index :: seen) seen) s'.1 := by
  induction arrivals generalizing s seen with
  | nil => exact ⟨s, rfl, h⟩
  | cons a arrivals ih =>
    obtain ⟨s₁, hread, hstands⟩ := h.read a
    obtain ⟨s', hrest, hstands'⟩ := ih hstands
    refine ⟨s', ?_, hstands'⟩
    rw [readArrivals, List.foldlM_cons, hread]
    exact hrest

/-- What the last section gives is among the CA systems of the version. -/
theorem subperm_all {i : Nat} {cat : CatSection} (h : table.sections[i]? = some cat) :
    ((caSystems cat.descriptors).take maxCaSystems).Subperm table.all := by
  obtain ⟨before, after, hsplit⟩ := List.append_of_mem (List.mem_of_getElem? h)
  have hall : table.all = before.flatMap (fun cat => caSystems cat.descriptors) ++
      (caSystems cat.descriptors ++ after.flatMap fun cat => caSystems cat.descriptors) := by
    rw [CatTable.all, hsplit, List.flatMap_append, List.flatMap_cons]
  rw [hall]
  exact (((List.take_sublist _ _).trans (List.sublist_append_left _ _)).trans
    (List.sublist_append_right _ _)).subperm

/-- Once a version has been read completely, the list holds the CA systems of all its sections if
and only if the last section to arrive first gives all that are held. -/
theorem collected_iff (table : CatTable) (before : Before table) (channels : List CaChannel)
    (arrivals : List (Arrival table)) :
    ∃ s, readArrivals (before.autoP, channels) arrivals = .ok s ∧
      ((Completed table s.1 → Collected table s.1) ↔ LastGivesAll table arrivals) := by
  obtain ⟨s, hread, hstands⟩ := Stands.readAll (s := (before.autoP, channels))
    (.inl ⟨rfl, before.other⟩) arrivals
  refine ⟨s, hread, ?_⟩
  change Stands table (firsts arrivals) s.1 at hstands
  rcases hstands with ⟨hnone, hother⟩ | ⟨-, hprogress⟩
  · refine ⟨fun _ hall => ?_, fun _ hdone => absurd hdone.1 hother⟩
    have hlen := List.length_pos_iff.mpr table.nonempty
    rw [hnone] at hall
    cases hall 0 hlen
  · constructor
    · intro hcollected hall i cat hi hcat
      have hheld := hprogress.held i cat hi hcat
      have hnumber := (hcollected ⟨hprogress.version, hprogress.complete.mpr hall⟩).number
      rw [hheld, List.length_take] at hnumber
      exact hnumber
    · intro hlast hdone
      have hall := hprogress.complete.mp hdone.2
      obtain ⟨i, rest, hfirsts⟩ : ∃ i rest, firsts arrivals = i :: rest := by
        cases hfirsts : firsts arrivals with
        | nil =>
          rw [hfirsts] at hall
          cases hall 0 (List.length_pos_iff.mpr table.nonempty)
        | cons i rest => exact ⟨i, rest, rfl⟩
      have hhead : (firsts arrivals).head? = some i := by rw [hfirsts, List.head?_cons]
      obtain ⟨cat, hcat⟩ := hprogress.found i (hfirsts ▸ List.mem_cons_self)
      have hheld := hprogress.held i cat hhead hcat
      refine ⟨hheld ▸ subperm_all hcat, ?_⟩
      rw [hheld, List.length_take]
      exact hlast hall i cat hhead hcat

end read

def header (number : UInt8) : List UInt8 := [0x01, 0xb0, 0x0f, 0xff, 0xff, 0xc3, number, 0x01]

def descriptor (number : UInt8) : List UInt8 := [0x09, 0x04, 0x01, number, 0xe0, 0x50]

/-- One of two sections, with one CA descriptor. -/
def oneDescriptor (number : UInt8) (crc : List UInt8) (h4 : crc.length = 4)
    (h : crc32 (header number ++ ([descriptor number].flatten ++ crc)) = 0) : CatSection where
  header := header number
  descriptors := [descriptor number]
  crc := crc
  headerLength := rfl
  crcLength := h4
  tableId := rfl
  current := show (0xc3 : UInt8).toNat % 2 = 1 by decide
  isDescriptor d hd := List.mem_singleton.mp hd ▸ ⟨rfl, show 4 ≤ 253 by decide⟩
  caLength d hd _ := List.mem_singleton.mp hd ▸ show 6 ≤ 6 by decide
  size := by simp [header, descriptor, h4, sectionSize, sectionLength, byteAt, hilo]
  crcValid := h

def firstSection : CatSection :=
  oneDescriptor 0 [0x2b, 0x61, 0x3b, 0x43] rfl (by decide +kernel)
def secondSection : CatSection :=
  oneDescriptor 1 [0x71, 0x18, 0x4b, 0x0e] rfl (by decide +kernel)

def twoSections : CatTable where
  version := 1
  sections := [firstSection, secondSection]
  nonempty := by decide
  atMost := by decide
  numbered i cat h := by
    rcases i with _ | _ | i
    · cases h
      exact ⟨by decide +kernel, by decide +kernel, by decide +kernel⟩
    · cases h
      exact ⟨by decide +kernel, by decide +kernel, by decide +kernel⟩
    · cases h

/-- A structure that has handed out a section. -/
def handedOut (bytes : List UInt8) (h : bytes.length ≤ maxTsSize) : MumudvbTsPacket :=
  { zeroed with
    dataFull := ⟨bytes ++ List.replicate (maxTsSize - bytes.length) 0, by
      rw [List.length_append, List.length_replicate]
      omega⟩
    lenFull := bytes.length }

def arrive (i : Nat) (cat : CatSection) (found : twoSections.sections[i]? = some cat)
    (h : cat.bytes.length ≤ maxTsSize) : Arrival twoSections where
  index := i
  cat := cat
  found := found
  pkt := handedOut cat.bytes h
  lenFull := rfl
  holds := List.take_left

/-- Nothing has been read. -/
def nothingRead : Before twoSections where
  autoP := ⟨zeroed, true, 0, Buffer.fill _ false, false, 0, Buffer.fill _ ⟨-1, 0⟩⟩
  other := by decide

def bothSections : List (Arrival twoSections) :=
  [arrive 0 firstSection rfl (by decide), arrive 1 secondSection rfl (by decide)]

/-- After the second section the CA system of the first one is gone. -/
theorem not_collected_both : ∃ s, readArrivals (nothingRead.autoP, []) bothSections = .ok s ∧
    Completed twoSections s.1 ∧ ¬ Collected twoSections s.1 := by
  have h : (readArrivals (nothingRead.autoP, []) bothSections).map (fun s =>
      (s.1.catVersion, s.1.catAllSectionsSeen, (held s.1.caSystemList).length,
        twoSections.all.length)) = .ok (1, true, 1, 2) := by decide +kernel
  obtain ⟨s, hread, hvalues⟩ := map_eq_ok h
  simp only [Prod.mk.injEq] at hvalues
  obtain ⟨hversion, hcomplete, hheld, hall⟩ := hvalues
  refine ⟨s, hread, ⟨hversion, hcomplete⟩, fun hcollected => ?_⟩
  have hnumber := hcollected.number
  rw [hheld, hall] at hnumber
  exact absurd hnumber (by decide)

end MuMuDVB.CatCollection
