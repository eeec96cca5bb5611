import MuMuDVB.AutoconfCat
import MuMuDVB.RewriteSdt

/-!
# The walks over descriptors

The loops of `sdt_channel_rewrite` and `autoconf_read_cat` go from one
descriptor to the next by the length byte plus two, kept in eight bits. The
only length that does not advance is 254: a loop that comes to one stands
still, unless a test of its own ends it there.
-/
namespace MuMuDVB.DescriptorWalks

open CheckedMemory FuelLoop MuMuDVB.TsHeader MuMuDVB.Ts MuMuDVB.TsAssembler MuMuDVB.Channel
open MuMuDVB.RewriteSection MuMuDVB.RewriteSdt MuMuDVB.AutoconfCat

theorem advance_eq_zero {b : UInt8} : (b + 2).toNat = 0 ↔ b = 254 := by
  have h2 : (2 : UInt8).toNat = 2 := rfl
  have h254 : (254 : UInt8).toNat = 254 := rfl
  have hb := b.toNat_lt
  rw [UInt8.toNat_add, h2, ← UInt8.toNat_inj, h254]
  omega

/-- The offsets that a walk over the descriptors from `start` on comes to. -/
inductive Comes (data : List UInt8) (start len : Nat) : Nat → Prop where
  | first : Comes data start len 0
  | next {pos : Nat} {b : UInt8} (comes : Comes data start len pos) (inside : pos < len)
      (length : data[start + pos + 1]? = some b) : Comes data start len (pos + (b + 2).toNat)

/-- The walk over the descriptors of a service comes to the length 254. -/
def SdtStill (data : List UInt8) (start len : Nat) : Prop :=
  ∃ pos, Comes data start len pos ∧ pos < len ∧ data[start + pos + 1]? = some 254

/-- The offsets that the walk over a CAT comes to, with the CA systems found before. -/
inductive CatComes (data : List UInt8) (lenFull : Nat) : Nat → Nat → Prop where
  | first : CatComes data lenFull catLen 0
  | other {delta n : Nat} {tag b : UInt8} (comes : CatComes data lenFull delta n)
      (inside : delta + 2 < sectionLength data) (tagAt : data[delta]? = some tag)
      (length : data[delta + 1]? = some b) (fits : delta + (b + 2).toNat < lenFull)
      (isOther : tag ≠ 0x09) : CatComes data lenFull (delta + (b + 2).toNat) n
  | ca {delta n : Nat} {tag b : UInt8} (comes : CatComes data lenFull delta n)
      (inside : delta + 2 < sectionLength data) (tagAt : data[delta]? = some tag)
      (length : data[delta + 1]? = some b) (fits : delta + (b + 2).toNat < lenFull)
      (isCa : tag = 0x09) (caFits : delta + descrCaLen < lenFull) (room : n < maxCaSystems) :
      CatComes data lenFull (delta + (b + 2).toNat) (n + 1)

/-- The walk over a CAT comes, inside the section, to the length 254 of a descriptor that is not
a CA descriptor. A CA descriptor of that length is taken until the list of systems is full. -/
def CatStill (data : List UInt8) (lenFull : Nat) : Prop :=
  ∃ delta n tag, CatComes data lenFull delta n ∧ delta + 2 < sectionLength data ∧
    delta < lenFull ∧ data[delta]? = some tag ∧ tag ≠ 0x09 ∧ data[delta + 1]? = some 254

section sdt

variable {data : Buffer UInt8 maxTsSize} {start len : Nat}

/-- One turn of the loop over the descriptors of a service. -/
def copyTurn (data : Buffer UInt8 maxTsSize) (start len : Nat) (w : Nat × List UInt8) :
    Checked (Turn (Nat × List UInt8) (List UInt8)) :=
  if w.1 < len then do
    let descriptorTag ← data.read (start + w.1)
    let b ← data.read (start + w.1 + 1)
    let kept ← (if sdtRewriteCopyDescriptor descriptorTag then do
        let src ← data.slice (start + w.1) (b + 2).toNat
        if sdtDescrLen + w.2.length + (b + 2).toNat ≤ maxTsSize then return w.2 ++ src
        else .error .outOfBounds
      else .ok w.2 : Checked (List UInt8))
    return .again (w.1 + (b + 2).toNat, kept)
  else .ok (.done w.2)

theorem copyDescriptors_eq_run (fuel pos : Nat) (kept : List UInt8) :
    copyDescriptors fuel data start len pos kept =
      run (copyTurn data start len) fuel (pos, kept) := by
  induction fuel generalizing pos kept with
  | zero => rfl
  | succ fuel ih =>
    rw [copyDescriptors, run, copyTurn]
    split
    · simp only [bind_assoc]
      refine bind_congr fun tag => bind_congr fun b => bind_congr fun kept' => ?_
      rw [ih, pure_ok, bind_ok]
    · rfl

/-- All that a turn which goes round again can do. -/
theorem copyTurn_again {w w' : Nat × List UInt8} (h : copyTurn data start len w = .ok (.again w')) :
    w.1 < len ∧ ∃ b, data.cells[start + w.1 + 1]? = some b ∧ w'.1 = w.1 + (b + 2).toNat ∧
      w'.2.length ≤ w.2.length + (b + 2).toNat ∧ (b = 254 → w' = w) := by
  rw [copyTurn] at h
  split at h
  · simp only [bind_eq_ok] at h
    obtain ⟨tag, _, b, hb, kept, hkept, h⟩ := h
    cases h
    refine ⟨‹_›, b, Buffer.read_eq_ok.mp hb, rfl, ?_⟩
    have hzero : b = 254 → (b + 2).toNat = 0 := advance_eq_zero.mpr
    split at hkept
    · simp only [bind_eq_ok] at hkept
      obtain ⟨src, hsrc, hkept⟩ := hkept
      have hlen : src.length = (b + 2).toNat := by
        rw [Buffer.slice] at hsrc
        split at hsrc
        · cases hsrc
          rw [List.length_take, List.length_drop, data.length_cells]
          omega
        · cases hsrc
      split at hkept
      · cases hkept
        refine ⟨Nat.le_of_eq (by rw [List.length_append, hlen]), fun h254 => ?_⟩
        rw [hzero h254] at hlen ⊢
        rw [List.length_eq_zero_iff.mp hlen, List.append_nil]
        rfl
      · cases hkept
    · cases hkept
      refine ⟨Nat.le_add_right _ _, fun h254 => ?_⟩
      rw [hzero h254]
      rfl
  · cases h

/-- A turn at a descriptor that lies inside the array goes round again. -/
theorem copyTurn_ok {w : Nat × List UInt8} {b : UInt8} (hinside : w.1 < len)
    (hb : data.cells[start + w.1 + 1]? = some b) (hend : start + w.1 + (b + 2).toNat ≤ 4096)
    (hroom : 5 + w.2.length + (b + 2).toNat ≤ 4096) :
    ∃ kept, copyTurn data start len w = .ok (.again (w.1 + (b + 2).toNat, kept)) := by
  obtain ⟨hlt, _⟩ := List.getElem?_eq_some_iff.mp hb
  have htag : data.read (start + w.1) = .ok data.cells[start + w.1] :=
    Buffer.read_eq_ok.mpr (List.getElem?_eq_getElem (by omega))
  rw [copyTurn, if_pos hinside, htag, bind_ok, Buffer.read_eq_ok.mpr hb, bind_ok]
  by_cases hcopy : sdtRewriteCopyDescriptor data.cells[start + w.1] = true
  · rw [if_pos hcopy, Buffer.slice_ok data hend, bind_ok, if_pos hroom]
    exact ⟨_, rfl⟩
  · rw [if_neg hcopy]
    exact ⟨_, rfl⟩

theorem Comes.of_meets {w : Nat × List UInt8} (h : Meets (copyTurn data start len) (0, []) w) :
    Comes data.cells start len w.1 ∧ w.2.length ≤ w.1 := by
  induction h with
  | refl => exact ⟨.first, Nat.le_refl _⟩
  | tail _ hturn ih =>
    obtain ⟨hinside, b, hb, hpos, hlen, _⟩ := copyTurn_again hturn
    rw [hpos]
    exact ⟨.next ih.1 hinside hb, by omega⟩

/-- The loop meets each offset of the walk, provided that there is a descriptor in the array. -/
theorem Comes.meets {pos : Nat} (hstart : 5 ≤ start) (h : Comes data.cells start len pos)
    (hlast : start + pos + 1 < 4096) :
    ∃ kept, Meets (copyTurn data start len) (0, []) (pos, kept) := by
  induction h with
  | first => exact ⟨[], .refl⟩
  | @next pos b _ hinside hb ih =>
    obtain ⟨kept, hmeets⟩ := ih (by omega)
    have hlen : kept.length ≤ pos := (Comes.of_meets hmeets).2
    obtain ⟨kept', hturn⟩ := @copyTurn_ok _ _ _ (pos, kept) _ hinside hb
      (show start + pos + (b + 2).toNat ≤ 4096 by omega)
      (show 5 + kept.length + (b + 2).toNat ≤ 4096 by omega)
    exact ⟨kept', .tail hmeets hturn⟩

theorem copyTurn_ne_endless (w : Nat × List UInt8) :
    copyTurn data start len w ≠ .error .endless := by
  rw [copyTurn]
  split
  · refine bind_ne_error (data.read_ne_endless _) fun tag _ => ?_
    refine bind_ne_error (data.read_ne_endless _) fun b _ => ?_
    refine bind_ne_error ?_ fun kept _ => by simp
    split
    · refine bind_ne_error (data.slice_ne_endless _ _) fun src _ => ?_
      split <;> simp
    · simp
  · simp

theorem copyTurn_measure {w w' : Nat × List UInt8}
    (h : copyTurn data start len w = .ok (.again w')) : w' = w ∨ len - w'.1 < len - w.1 := by
  obtain ⟨hinside, b, _, hpos, _, hsame⟩ := copyTurn_again h
  by_cases hb : b = 254
  · exact Or.inl (hsame hb)
  · have hadvance : (b + 2).toNat ≠ 0 := fun h0 => hb (advance_eq_zero.mp h0)
    omega

theorem standsStill_copyTurn (hstart : 5 ≤ start) :
    StandsStill (copyTurn data start len) (0, []) ↔ SdtStill data.cells start len := by
  constructor
  · rintro ⟨w, hmeets, hturn⟩
    obtain ⟨hinside, b, hb, hpos, _⟩ := copyTurn_again hturn
    rw [advance_eq_zero.mp (show (b + 2).toNat = 0 by omega)] at hb
    exact ⟨w.1, (Comes.of_meets hmeets).1, hinside, hb⟩
  · rintro ⟨pos, hcomes, hinside, hb⟩
    obtain ⟨hlast, _⟩ := List.getElem?_eq_some_iff.mp hb
    rw [data.length_cells, maxTsSize] at hlast
    obtain ⟨kept, hmeets⟩ := hcomes.meets hstart hlast
    have hlen : kept.length ≤ pos := (Comes.of_meets hmeets).2
    obtain ⟨kept', hturn⟩ := @copyTurn_ok _ _ _ (pos, kept) _ hinside hb
      (show start + pos + 0 ≤ 4096 by omega) (show 5 + kept.length + 0 ≤ 4096 by omega)
    obtain ⟨_, b, hb', _, _, hsame⟩ := copyTurn_again hturn
    rw [hb, Option.some.injEq] at hb'
    have hkept := hsame hb'.symm
    rw [hkept] at hturn
    exact ⟨(pos, kept), hmeets, hturn⟩

/-- The loop over the descriptors of a service ends exactly when its walk does not come to the
length 254. -/
theorem copyDescriptors_ends_iff (hstart : 5 ≤ start) :
    (∃ fuel, copyDescriptors fuel data start len 0 [] ≠ .error .endless) ↔
      ¬ SdtStill data.cells start len := by
  simp only [copyDescriptors_eq_run]
  rw [← standsStill_copyTurn hstart]
  exact ends_iff copyTurn_ne_endless fun w w' => copyTurn_measure

/-- The turns it is given are enough. -/
theorem copyDescriptors_ne_endless (hstart : 5 ≤ start) (hlen : len ≤ 4096)
    (hmoves : ¬ SdtStill data.cells start len) :
    copyDescriptors (maxTsSize + 1) data start len 0 [] ≠ .error .endless := by
  rw [copyDescriptors_eq_run]
  rw [← standsStill_copyTurn hstart] at hmoves
  exact run_of_moves copyTurn_ne_endless (fun w w' => copyTurn_measure) hmoves
    (show len - 0 < 4096 + 1 by omega)

end sdt

section cat

variable {data : Buffer UInt8 maxTsSize} {lenFull : Nat}

/-- All that a turn which goes round again can do. -/
theorem catTurn_again {w w' : CatWalk} (h : catTurn data lenFull w = .ok (.again w')) :
    w.delta + 2 < sectionLength data.cells ∧ ∃ tag b, data.cells[w.delta]? = some tag ∧
      data.cells[w.delta + 1]? = some b ∧ w.delta + (b + 2).toNat < lenFull ∧
      w'.delta = w.delta + (b + 2).toNat ∧
      (tag ≠ 0x09 ∧ w'.caSystemListIndex = w.caSystemListIndex ∧
          w'.caSystemList = w.caSystemList ∨
        tag = 0x09 ∧ w.delta + descrCaLen < lenFull ∧ w.caSystemListIndex < maxCaSystems ∧
          w'.caSystemListIndex = w.caSystemListIndex + 1) := by
  rw [catTurn] at h
  split at h
  · simp only [bind_eq_ok] at h
    obtain ⟨tag, htag, b, hb, h⟩ := h
    refine ⟨‹_›, tag, b, Buffer.read_eq_ok.mp htag, Buffer.read_eq_ok.mp hb, ?_⟩
    split at h
    · cases h
    · split at h
      · split at h
        · cases h
        · simp only [bind_eq_ok] at h
          obtain ⟨_, _, h⟩ := h
          split at h
          · cases h
          · simp only [bind_eq_ok] at h
            obtain ⟨list, _, h⟩ := h
            cases h
            exact ⟨by omega, rfl, Or.inr ⟨‹_›, by omega, by omega, rfl⟩⟩
      · cases h
        exact ⟨by omega, rfl, Or.inl ⟨‹_›, rfl, rfl⟩⟩
  · cases h

/-- A turn at a descriptor of another kind that fits into the section. -/
theorem catTurn_other {w : CatWalk} {tag b : UInt8}
    (hinside : w.delta + 2 < sectionLength data.cells) (htag : data.cells[w.delta]? = some tag)
    (hb : data.cells[w.delta + 1]? = some b) (hfits : w.delta + (b + 2).toNat < lenFull)
    (hother : tag ≠ 0x09) :
    catTurn data lenFull w = .ok (.again { w with delta := w.delta + (b + 2).toNat }) := by
  rw [catTurn, if_pos hinside, Buffer.read_eq_ok.mpr htag, bind_ok, Buffer.read_eq_ok.mpr hb,
    bind_ok, if_neg (by omega), if_neg hother]
  rfl

/-- A turn at a CA descriptor for which there is a place in the list. -/
theorem catTurn_ca {w : CatWalk} {b : UInt8} (hlen : lenFull ≤ maxTsSize)
    (hinside : w.delta + 2 < sectionLength data.cells) (htag : data.cells[w.delta]? = some 0x09)
    (hb : data.cells[w.delta + 1]? = some b) (hfits : w.delta + (b + 2).toNat < lenFull)
    (hcaFits : w.delta + descrCaLen < lenFull) (hroom : w.caSystemListIndex < maxCaSystems) :
    ∃ list, catTurn data lenFull w =
        .ok (.again ⟨w.delta + (b + 2).toNat, w.caSystemListIndex + 1, list⟩) ∧
      list.cells = splice w.caSystemList.cells w.caSystemListIndex
        [⟨caType ((data.cells.drop w.delta).take descrCaLen),
          caPid ((data.cells.drop w.delta).take descrCaLen)⟩] := by
  have hslice : w.delta + descrCaLen ≤ maxTsSize := by omega
  rw [catTurn, if_pos hinside, Buffer.read_eq_ok.mpr htag, bind_ok, Buffer.read_eq_ok.mpr hb,
    bind_ok, if_neg (by omega), if_pos rfl, if_neg (by omega), Buffer.slice_ok data hslice, bind_ok,
    if_neg (by omega)]
  obtain ⟨list, hlist, hcells⟩ := w.caSystemList.write_ok w.caSystemListIndex
    [⟨caType ((data.cells.drop w.delta).take descrCaLen),
      caPid ((data.cells.drop w.delta).take descrCaLen)⟩] hroom
  rw [hlist, bind_ok]
  exact ⟨list, rfl, hcells⟩

theorem CatComes.of_meets {list : Buffer CaSystem maxCaSystems} {w : CatWalk}
    (h : Meets (catTurn data lenFull) ⟨catLen, 0, list⟩ w) :
    CatComes data.cells lenFull w.delta w.caSystemListIndex := by
  induction h with
  | refl => exact .first
  | tail _ hturn ih =>
    obtain ⟨hinside, tag, b, htag, hb, hfits, hdelta, hcase⟩ := catTurn_again hturn
    rw [hdelta]
    rcases hcase with ⟨hother, hindex, _⟩ | ⟨hca, hcaFits, hroom, hindex⟩
    · rw [hindex]
      exact .other ih hinside htag hb hfits hother
    · rw [hindex]
      exact .ca ih hinside htag hb hfits hca hcaFits hroom

theorem CatComes.meets (hlen : lenFull ≤ maxTsSize) (list : Buffer CaSystem maxCaSystems)
    {delta n : Nat} (h : CatComes data.cells lenFull delta n) :
    ∃ list', Meets (catTurn data lenFull) ⟨catLen, 0, list⟩ ⟨delta, n, list'⟩ := by
  induction h with
  | first => exact ⟨list, .refl⟩
  | other _ hinside htag hb hfits hother ih =>
    obtain ⟨list', hmeets⟩ := ih
    exact ⟨list', .tail hmeets (catTurn_other hinside htag hb hfits hother)⟩
  | ca _ hinside htag hb hfits hca hcaFits hroom ih =>
    obtain ⟨list', hmeets⟩ := ih
    rw [hca] at htag
    obtain ⟨list'', hturn, -⟩ := @catTurn_ca _ _ ⟨_, _, list'⟩ _ hlen hinside htag hb hfits hcaFits
      hroom
    exact ⟨list'', .tail hmeets hturn⟩

theorem catTurn_ne_endless (w : CatWalk) : catTurn data lenFull w ≠ .error .endless := by
  rw [catTurn]
  split
  · refine bind_ne_error (data.read_ne_endless _) fun tag _ => ?_
    refine bind_ne_error (data.read_ne_endless _) fun b _ => ?_
    dsimp only
    split
    · simp
    · split
      · split
        · simp
        · refine bind_ne_error (data.slice_ne_endless _ _) fun d _ => ?_
          split
          · simp
          · exact bind_ne_error (w.caSystemList.write_ne_endless _ _) fun list _ => by simp
      · simp
  · simp

/-- A turn takes a byte of the section or a place of the list. -/
def catMeasure (data : Buffer UInt8 maxTsSize) (w : CatWalk) : Nat :=
  (sectionLength data.cells - w.delta) + (maxCaSystems - w.caSystemListIndex)

theorem catTurn_measure {w w' : CatWalk} (h : catTurn data lenFull w = .ok (.again w')) :
    w' = w ∨ catMeasure data w' < catMeasure data w := by
  obtain ⟨hinside, tag, b, _, _, _, hdelta, hcase⟩ := catTurn_again h
  simp only [catMeasure]
  rcases hcase with ⟨_, hindex, hlist⟩ | ⟨_, _, hroom, hindex⟩
  · by_cases hb : b = 254
    · rw [hb, show ((254 : UInt8) + 2).toNat = 0 from rfl, Nat.add_zero] at hdelta
      left
      cases w'
      simp_all
    · have hadvance : (b + 2).toNat ≠ 0 := fun h0 => hb (advance_eq_zero.mp h0)
      omega
  · omega

theorem standsStill_catTurn (hlen : lenFull ≤ maxTsSize) {list : Buffer CaSystem maxCaSystems} :
    StandsStill (catTurn data lenFull) ⟨catLen, 0, list⟩ ↔ CatStill data.cells lenFull := by
  constructor
  · rintro ⟨w, hmeets, hturn⟩
    obtain ⟨hinside, tag, b, htag, hb, hfits, hdelta, hcase⟩ := catTurn_again hturn
    rw [advance_eq_zero.mp (show (b + 2).toNat = 0 by omega)] at hb
    rcases hcase with ⟨hother, _⟩ | ⟨_, _, _, hindex⟩
    · exact ⟨_, _, tag, .of_meets hmeets, hinside, by omega, htag, hother, hb⟩
    · omega
  · rintro ⟨delta, n, tag, hcomes, hinside, hfits, htag, hother, hb⟩
    obtain ⟨list', hmeets⟩ := hcomes.meets hlen list
    have hturn := @catTurn_other _ _ ⟨delta, n, list'⟩ _ _ hinside htag hb hfits hother
    exact ⟨⟨delta, n, list'⟩, hmeets, hturn⟩

/-- The loop over the CAT ends exactly when its walk does not come to the length 254. -/
theorem catTurn_ends_iff (hlen : lenFull ≤ maxTsSize) {list : Buffer CaSystem maxCaSystems} :
    Ends (catTurn data lenFull) ⟨catLen, 0, list⟩ ↔ ¬ CatStill data.cells lenFull := by
  rw [← standsStill_catTurn hlen]
  exact ends_iff catTurn_ne_endless fun w w' => catTurn_measure

theorem run_catTurn_endless_iff (hlen : lenFull ≤ maxTsSize)
    {list : Buffer CaSystem maxCaSystems} :
    run (catTurn data lenFull) catFuel ⟨catLen, 0, list⟩ = .error .endless ↔
      CatStill data.cells lenFull := by
  rw [← @standsStill_catTurn _ _ hlen list]
  constructor
  · intro hrun
    by_contra hmoves
    have hmeasure : catMeasure data ⟨catLen, 0, list⟩ < catFuel := by
      have hlt := sectionLength_lt data.cells
      simp only [catMeasure, catFuel, maxTsSize, maxCaSystems]
      omega
    exact run_of_moves catTurn_ne_endless (fun w w' => catTurn_measure) hmoves hmeasure hrun
  · exact fun hstill => hstill.run _

/-- `autoconf_read_cat` does not return exactly when it gets as far as the loop, with a section
that is new and current, and the loop stands still. -/
theorem autoconfReadCat_endless_iff {autoP : AutoP} (channels : List CaChannel)
    (hlen : autoP.autoconfTempCat.lenFull ≤ maxTsSize) :
    let cat := autoP.autoconfTempCat.dataFull.cells
    autoconfReadCat autoP channels = .error .endless ↔
      ¬ ((versionNumber cat : Int) = autoP.catVersion ∧
          autoP.catSectionsSeen.cells[sectionNumber cat]? = some true) ∧
        currentNextIndicator cat ≠ 0 ∧ CatStill cat autoP.autoconfTempCat.lenFull := by
  intro cat
  have hsection : sectionNumber cat < 256 := (byteAt cat 6).toNat_lt
  obtain ⟨seen, hseen⟩ : ∃ seen, autoP.catSectionsSeen.cells[sectionNumber cat]? = some seen :=
    ⟨_, List.getElem?_eq_getElem (by rw [autoP.catSectionsSeen.length_cells]; exact hsection)⟩
  obtain ⟨autoP', hnote⟩ : ∃ autoP', noteCatSection autoP cat = .ok autoP' := by
    rw [noteCatSection]
    obtain ⟨b, hb, _⟩ := Buffer.write_ok (if (versionNumber cat : Int) = autoP.catVersion then autoP
      else { autoP with
        catAllSectionsSeen := false, sdtVersion := -1
        catSectionsSeen := Buffer.fill _ false
        catVersion := versionNumber cat }).catSectionsSeen (sectionNumber cat) [true] hsection
    rw [hb]
    exact ⟨_, rfl⟩
  have htemp : autoP'.autoconfTempCat = autoP.autoconfTempCat := by
    rw [noteCatSection, bind_eq_ok] at hnote
    obtain ⟨_, _, hnote⟩ := hnote
    cases hnote
    simp only
    split <;> rfl
  rw [autoconfReadCat, Buffer.read_eq_ok.mpr hseen, bind_ok, hseen, Option.some.injEq]
  by_cases hold : (versionNumber cat : Int) = autoP.catVersion ∧ seen = true
  · rw [if_pos hold]
    simp [hold]
  · rw [if_neg hold, hnote, bind_ok]
    by_cases hcurrent : currentNextIndicator cat = 0
    · rw [if_pos hcurrent]
      simp [hcurrent]
    · rw [if_neg hcurrent, htemp]
      have hrun := @run_catTurn_endless_iff autoP.autoconfTempCat.dataFull _ hlen
        (autoconfClearCaSystemList autoP'.caSystemList)
      rw [← hrun]
      simp only [hold, hcurrent, not_false_eq_true, ne_eq, true_and]
      cases run (catTurn autoP.autoconfTempCat.dataFull autoP.autoconfTempCat.lenFull) catFuel
        ⟨catLen, 0, autoconfClearCaSystemList autoP'.caSystemList⟩ <;> simp

end cat

section services

variable {data : List UInt8}

/-- The offsets of the services of an SDT, as its length fields tell them. -/
inductive SdtEntry (data : List UInt8) : Nat → Prop where
  | first : SdtEntry data sdtLen
  | next {pos : Nat} (entry : SdtEntry data pos) (inside : pos + sdtDescrLen < sectionLength data) :
      SdtEntry data (pos + (sdtDescrLen + descriptorsLoopLength (data.drop pos)))

theorem SdtEntry.sdtLen_le {pos : Nat} (h : SdtEntry data pos) : sdtLen ≤ pos := by
  induction h with
  | first => exact Nat.le_refl _
  | next _ _ ih => omega

/-- The walk reads nothing before its start. -/
theorem Comes.congr {data' : List UInt8} {start len pos : Nat}
    (hsame : ∀ i, start ≤ i → data[i]? = data'[i]?) (h : Comes data start len pos) :
    Comes data' start len pos := by
  induction h with
  | first => exact .first
  | next _ inside length ih => exact .next ih inside (by rw [← hsame _ (by omega), length])

theorem SdtStill.congr {data' : List UInt8} {start len : Nat}
    (hsame : ∀ i, start ≤ i → data[i]? = data'[i]?) (h : SdtStill data start len) :
    SdtStill data' start len := by
  obtain ⟨pos, hcomes, hinside, hlength⟩ := h
  exact ⟨pos, hcomes.congr hsame, hinside, by rw [← hsame _ (by omega), hlength]⟩

theorem getElem?_makeOnlySection {i : Nat} (h : 8 ≤ i) : (makeOnlySection data)[i]? = data[i]? := by
  rw [makeOnlySection, List.getElem?_set_ne (by omega), List.getElem?_set_ne (by omega),
    List.getElem?_set_ne (by omega)]

theorem sectionLength_makeOnlySection : sectionLength (makeOnlySection data) = sectionLength data := by
  rw [sectionLength, byteAt_makeOnlySection (by decide) (by decide) (by decide),
    byteAt_makeOnlySection (by decide) (by decide) (by decide)]
  rfl

theorem descriptorsLoopLength_makeOnlySection {pos : Nat} (h : 8 ≤ pos) :
    descriptorsLoopLength ((makeOnlySection data).drop pos) =
      descriptorsLoopLength (data.drop pos) := by
  simp only [descriptorsLoopLength, byteAt_drop]
  rw [byteAt_makeOnlySection (by omega) (by omega) (by omega),
    byteAt_makeOnlySection (by omega) (by omega) (by omega)]

theorem SdtEntry.of_makeOnlySection {pos : Nat} (h : SdtEntry (makeOnlySection data) pos) :
    SdtEntry data pos := by
  induction h with
  | first => exact .first
  | @next pos _ inside ih =>
    rw [sectionLength_makeOnlySection] at inside
    have hle := ih.sdtLen_le
    simp only [sdtLen] at hle
    rw [descriptorsLoopLength_makeOnlySection (by omega)]
    exact .next ih inside

/-- No service of the section has a descriptor at which the loop stands still. -/
def ServicesMove (data : List UInt8) : Prop :=
  ∀ pos, SdtEntry data pos → pos + sdtDescrLen < sectionLength data →
    ¬ SdtStill data (pos + sdtDescrLen) (descriptorsLoopLength (data.drop pos))

theorem ServicesMove.makeOnlySection (h : ServicesMove data) :
    ServicesMove (makeOnlySection data) := by
  intro pos hentry hinside hstill
  have hle := hentry.sdtLen_le
  simp only [sdtLen] at hle
  rw [sectionLength_makeOnlySection] at hinside
  rw [descriptorsLoopLength_makeOnlySection (by omega)] at hstill
  exact h pos hentry.of_makeOnlySection hinside
    (hstill.congr fun i hi => getElem?_makeOnlySection (by simp only [sdtDescrLen] at hi; omega))

theorem descriptorsLoopLength_lt (d : List UInt8) : descriptorsLoopLength d < 4096 :=
  hilo_lt (Nat.mod_lt _ (by decide)) (byteAt d 4).toNat_lt

theorem descriptorsLoopLength_take {d : List UInt8} {k : Nat} (h : 5 ≤ k) :
    descriptorsLoopLength (d.take k) = descriptorsLoopLength d := by
  simp only [descriptorsLoopLength, byteAt_take (show 3 < k by omega),
    byteAt_take (show 4 < k by omega)]

/-- The loop over the services has enough turns where the loops inside it end. -/
theorem sdtServices_ne_endless {data : Buffer UInt8 maxTsSize} {forceEit : OptionStatus}
    {serviceId : Int} {fuel pos : Nat} {dest : List UInt8} (hmoves : ServicesMove data.cells)
    (hentry : SdtEntry data.cells pos) (hfuel : sectionLength data.cells - pos < fuel) :
    sdtServices fuel forceEit serviceId data (sectionLength data.cells) pos dest ≠
      .error .endless := by
  induction fuel generalizing pos dest with
  | zero => omega
  | succ fuel ih =>
    rw [sdtServices]
    by_cases hinside : pos + sdtDescrLen < sectionLength data.cells
    · rw [if_pos hinside]
      refine bind_ne_error (data.slice_ne_endless _ _) fun descr hdescr => ?_
      have hloop : descriptorsLoopLength descr = descriptorsLoopLength (data.cells.drop pos) := by
        rw [Buffer.slice] at hdescr
        split at hdescr <;> cases hdescr
        exact descriptorsLoopLength_take (Nat.le_refl _)
      have hnext : ∀ dest', sdtServices fuel forceEit serviceId data (sectionLength data.cells)
          (pos + (sdtDescrLen + descriptorsLoopLength descr)) dest' ≠ .error .endless := by
        intro dest'
        rw [hloop]
        exact ih (.next hentry hinside) (by simp only [sdtDescrLen] at hinside ⊢; omega)
      split
      · refine bind_ne_error ?_ fun kept _ => ?_
        · rw [hloop]
          exact copyDescriptors_ne_endless (Nat.le_add_left _ _)
            (Nat.le_of_lt (descriptorsLoopLength_lt _)) (hmoves pos hentry hinside)
        · split
          · exact hnext dest
          · split
            · simp
            · refine bind_ne_error ?_ fun dest' _ => by simp
              rw [appendDest]
              split <;> simp
      · exact hnext dest
    · rw [if_neg hinside]
      simp

theorem appendDest_ne_endless (dest src : List UInt8) : appendDest dest src ≠ .error .endless := by
  rw [appendDest]
  split <;> simp

theorem allSectionsSeen_ne_endless (vars : RewriteParameters) :
    sdtRewriteAllSectionsSeen vars ≠ .error .endless := by
  have hloop : ∀ (sections : List Nat) (allSeen : Bool),
      sections.foldlM (fun allSeen i => do
        let seen ← vars.sdtSectionNumbersSeen.read i
        return allSeen && seen) allSeen ≠ (.error .endless : Checked Bool) := by
    intro sections
    induction sections with
    | nil => simp
    | cons i sections ih =>
      intro allSeen
      rw [List.foldlM_cons]
      refine bind_ne_error ?_ fun allSeen' _ => ih allSeen'
      exact bind_ne_error (Buffer.read_ne_endless _ _) fun seen _ => by simp
  exact hloop _ _

theorem sdtFinish_ne_endless (st : RewriteState) (found : Bool) (dest : List UInt8) :
    sdtFinish st found dest ≠ .error .endless := by
  rw [sdtFinish]
  refine bind_ne_error ?_ fun generated _ => ?_
  · rw [closeSection]
    split <;> simp
  · split
    · simp
    · refine bind_ne_error (allSectionsSeen_ne_endless _) fun allSeen _ => ?_
      split <;> simp

/-- The rewriting of an SDT whose services have no such descriptor ends for every channel. -/
theorem sdtChannelRewrite_ne_endless {vars : RewriteParameters} (channel : MumudvbChannel)
    (buf : Packet) (hmoves : ServicesMove vars.fullSdt.dataFull.cells) :
    sdtChannelRewrite vars channel buf ≠ .error .endless := by
  have hmoves' := hmoves.makeOnlySection
  rw [← onlySectionAt_zero] at hmoves'
  have hsection : sectionLength (onlySectionAt vars.fullSdt.dataFull 0).cells =
      sectionLength vars.fullSdt.dataFull.cells := by
    rw [onlySectionAt_zero, sectionLength_makeOnlySection]
  have hservices : ∀ dest, sdtServices (maxTsSize + 1) vars.sdtForceEit channel.serviceId
      (onlySectionAt vars.fullSdt.dataFull 0) (sectionLength vars.fullSdt.dataFull.cells) sdtLen
      dest ≠ .error .endless := by
    intro dest
    rw [← hsection]
    refine sdtServices_ne_endless hmoves' .first ?_
    have hlt := sectionLength_lt (onlySectionAt vars.fullSdt.dataFull 0).cells
    simp only [sdtLen, maxTsSize]
    omega
  rw [sdtChannelRewrite]
  split
  · simp
  · refine bind_ne_error (appendDest_ne_endless _ _) fun dest _ => ?_
    refine bind_ne_error (appendDest_ne_endless _ _) fun dest _ => ?_
    split
    · simp
    · refine bind_ne_error (hservices dest) fun search _ => ?_
      cases search with
      | bug => simp
      | ended found dest => exact sdtFinish_ne_endless _ _ _

end services

/-- The loops over the descriptors of the section in `data_full` end: that of
`sdt_channel_rewrite` for each service, and that of `autoconf_read_cat`. -/
def DescriptorWalksEnd (data : Buffer UInt8 maxTsSize) (lenFull : Nat) : Prop :=
  (∀ pos, SdtEntry data.cells pos → pos + sdtDescrLen < sectionLength data.cells →
    ∃ fuel, copyDescriptors fuel data (pos + sdtDescrLen)
      (descriptorsLoopLength (data.cells.drop pos)) 0 [] ≠ .error .endless) ∧
  ∀ list, Ends (catTurn data lenFull) ⟨catLen, 0, list⟩

/-- The walks over the descriptors of a stored section end exactly when none of them comes to the
length 254, which the loop over a CAT accepts for a CA descriptor. -/
theorem descriptorWalksEnd_iff {data : Buffer UInt8 maxTsSize} {s : List UInt8}
    (h : s <+: data.cells) :
    DescriptorWalksEnd data s.length ↔
      ServicesMove data.cells ∧ ¬ CatStill data.cells s.length := by
  have hlen : s.length ≤ maxTsSize := by
    rw [← data.length_cells]
    exact h.length_le
  have hsdt : ∀ pos len, (∃ fuel, copyDescriptors fuel data (pos + sdtDescrLen) len 0 [] ≠
      .error .endless) ↔ ¬ SdtStill data.cells (pos + sdtDescrLen) len :=
    fun pos len => copyDescriptors_ends_iff (Nat.le_add_left _ _)
  have hcat : ∀ list, Ends (catTurn data s.length) ⟨catLen, 0, list⟩ ↔
      ¬ CatStill data.cells s.length := fun list => catTurn_ends_iff hlen
  simp only [DescriptorWalksEnd, ServicesMove, hsdt, hcat]
  exact and_congr_right fun _ => ⟨fun hall => hall (Buffer.fill _ ⟨0, 0⟩), fun hmoves _ => hmoves⟩

/-- `data_full` with section `s` at its start. -/
def fullOf (s : List UInt8) (h : s.length ≤ 4096) : Buffer UInt8 maxTsSize :=
  ⟨s ++ List.replicate (4096 - s.length) 0, by
    rw [List.length_append, List.length_replicate]
    simp only [maxTsSize]
    omega⟩

theorem fullOf_prefixed {s : List UInt8} (h : s.length ≤ 4096) : s <+: (fullOf s h).cells :=
  List.prefix_append _ _

/-- A CAT with one CA system. -/
def oneSystemCat : List UInt8 :=
  [0x01, 0xb0, 0x0f, 0xff, 0xff, 0xc1, 0x00, 0x00, 0x09, 0x04, 0x01, 0x00, 0xe1, 0x23, 0xbb, 0x18, 0xe0, 0xcb]

theorem descriptorWalksEnd_oneSystem :
    Accepted oneSystemCat ∧
      DescriptorWalksEnd (fullOf oneSystemCat (by decide)) oneSystemCat.length := by
  refine ⟨by decide +kernel, (descriptorWalksEnd_iff (fullOf_prefixed _)).mpr ⟨?_, ?_⟩⟩
  · intro pos hentry hinside
    have hle := hentry.sdtLen_le
    rw [show sectionLength (fullOf oneSystemCat (by decide)).cells = 15 from rfl] at hinside
    simp only [sdtLen, sdtDescrLen] at hle hinside
    omega
  · have hcomes : ∀ delta n, CatComes (fullOf oneSystemCat (by decide)).cells oneSystemCat.length
        delta n → delta = 8 ∨ 13 < delta := by
      intro delta n h
      induction h with
      | first => exact Or.inl rfl
      | @other delta n tag b _ _ _ length _ _ ih =>
        rcases ih with rfl | hlt
        · cases length
          exact Or.inr (by decide)
        · exact Or.inr (by omega)
      | @ca delta n tag b _ _ _ length _ _ _ _ ih =>
        rcases ih with rfl | hlt
        · cases length
          exact Or.inr (by decide)
        · exact Or.inr (by omega)
    rintro ⟨delta, n, tag, h, hinside, _, htag, hother, _⟩
    rw [show sectionLength (fullOf oneSystemCat (by decide)).cells = 15 from rfl] at hinside
    rcases hcomes delta n h with rfl | hlt
    · cases htag
      exact hother rfl
    · omega

/-- A service with one descriptor that announces 254 bytes. -/
def frozenSdt : List UInt8 :=
  [0x42, 0xf0, 0x13, 0x00, 0x01, 0xc1, 0x00, 0x00, 0x00, 0x01, 0xff, 0x00, 0x01, 0xfc, 0x80, 0x02,
   0x48, 0xfe, 0xc0, 0x8f, 0xd3, 0xce]

/-- A CAT with one descriptor, not a CA descriptor, that announces 254 bytes. -/
def frozenCat : List UInt8 :=
  [0x01, 0xb0, 0x0b, 0xff, 0xff, 0xc1, 0x00, 0x00, 0x10, 0xfe, 0x1b, 0x43, 0xaf, 0xa1]

/-- Both sections pass the CRC check, and on each of them one of the loops does not end. -/
theorem not_descriptorWalksEnd_frozen :
    (Accepted frozenSdt ∧ ¬ DescriptorWalksEnd (fullOf frozenSdt (by decide)) frozenSdt.length) ∧
      Accepted frozenCat ∧ ¬ DescriptorWalksEnd (fullOf frozenCat (by decide)) frozenCat.length := by
  refine ⟨⟨by decide +kernel, ?_⟩, by decide +kernel, ?_⟩
  · rintro ⟨hends, _⟩
    exact (copyDescriptors_ends_iff (by decide)).mp (hends 11 .first (by decide))
      ⟨0, .first, by decide, rfl⟩
  · rintro ⟨_, hends⟩
    exact (catTurn_ends_iff (by decide)).mp (hends (Buffer.fill _ ⟨0, 0⟩))
      ⟨8, 0, 0x10, .first, by decide, by decide, rfl, by decide, rfl⟩

end MuMuDVB.DescriptorWalks
