import MuMuDVB.AutoconfTables
import MuMuDVB.CatCollection

/-!
# What reading a section does

A section is ignored, or its version is stored and its number marked, before
anything looks at `current_next_indicator`. A section that is not yet applicable
is therefore noted like any other one.
-/
namespace MuMuDVB.TableReads

open CheckedMemory MuMuDVB.TsHeader MuMuDVB.Ts MuMuDVB.TsAssembler MuMuDVB.Autoconf
open MuMuDVB.AutoconfPat MuMuDVB.AutoconfTables

/-- The section that `data_full` holds for a table. -/
def sectionOf (s : AutoP) (kind : Kind) : List UInt8 := (tracker s kind).temp.dataFull.cells

/-- A section of another table, which the reading does not look at. -/
def Foreign (s : AutoP) : Kind → Prop
  | .pat | .cat => False
  | .sdt => tableId (sectionOf s .sdt) ≠ 0x42
  | .nit => tableId (sectionOf s .nit) ≠ 0x40
  | .psip => tableId (sectionOf s .psip) ≠ 0xc8 ∧ tableId (sectionOf s .psip) ≠ 0xc9 ∨
    s.transportStreamId < 0 ∨ (transportStreamId (sectionOf s .psip) : Int) ≠ s.transportStreamId

/-- The reading of the section ends before it notes anything. -/
def Ignored (kind : Kind) (s : AutoP) : Prop :=
  Foreign s kind ∨ (tracker s kind).Skips (sectionOf s kind)

/-- The section has been noted, and perhaps it was the last one that was missing. -/
structure ReadInto (t : Tracker) (header : List UInt8) (t' : Tracker) : Prop where
  version : t'.version = versionNumber header
  marked : t'.sectionsSeen.cells[sectionNumber header]? = some true
  outcome : t'.needUpdate = t.needUpdate ∧ t'.lastRead = t.lastRead ∧
      (t'.allSectionsSeen = true ↔ t.allSectionsSeen = true ∧ t.version = versionNumber header) ∨
    t'.needUpdate = false ∧ t'.allSectionsSeen = true ∧
      (t.needUpdate = true → t'.lastRead = some (versionNumber header : Int))

/-- A section has been read; the PAT and the CAT also have the SDT read again. -/
structure ReadTable (kind : Kind) (s s' : AutoP) : Prop where
  read : ReadInto (tracker s kind) (sectionOf s kind) (tracker s' kind)
  others : ∀ other, other ≠ kind → tracker s' other = tracker s other ∨
    other = .sdt ∧ tracker s' .sdt = { tracker s .sdt with version := -1 }

theorem readInto_of_noted {t t' : Tracker} {header : List UInt8} (h : Noted t header t') :
    ReadInto t header t' :=
  ⟨h.version, h.marked, .inl ⟨h.needUpdate, h.lastRead, h.allSectionsSeen⟩⟩

theorem readInto_finish {t t' : Tracker} {header : List UInt8} (h : Noted t header t') :
    ReadInto t header t'.finish :=
  ⟨h.version, h.marked, .inr ⟨rfl, rfl, fun _ => congrArg some h.version⟩⟩

variable {env : Surroundings} {s s' : AutoP} {chanP chanP' : MumuChanP}

/-- Only the reading of the SDT starts again. -/
structure SdtAgain (s s' : AutoP) : Prop where
  cat : s'.cat = s.cat
  nit : s'.nit = s.nit
  psip : s'.psip = s.psip
  sdt : s'.sdt = s.sdt ∨ s'.sdt = { s.sdt with version := -1 }

theorem SdtAgain.others (h : SdtAgain s s') (other : Kind) (hne : other ≠ .pat) :
    tracker s' other = tracker s other ∨
      other = .sdt ∧ tracker s' .sdt = { tracker s .sdt with version := -1 } := by
  cases other with
  | pat => exact absurd rfl hne
  | cat => exact .inl h.cat
  | sdt => exact h.sdt.imp_right fun h => ⟨rfl, h⟩
  | nit => exact .inl h.nit
  | psip => exact .inl h.psip

theorem startSection_again (s : AutoP) (chanP : MumuChanP) (pat : List UInt8) (noted : Tracker) :
    (startSection s chanP pat noted).1.pat = noted ∧
      SdtAgain s (startSection s chanP pat noted).1 := by
  rw [startSection]
  split
  · exact ⟨rfl, rfl, rfl, rfl, .inl rfl⟩
  · exact ⟨rfl, rfl, rfl, rfl, .inr rfl⟩

theorem finishPat_spec {s₁ : AutoP} {pat : List UInt8} (hnoted : Noted s.pat pat s₁.pat)
    (hagain : SdtAgain s s₁) (tsid : Int) :
    ReadInto s.pat pat (finishPat { s₁ with transportStreamId := tsid } chanP pat).1.pat ∧
      SdtAgain s (finishPat { s₁ with transportStreamId := tsid } chanP pat).1 := by
  obtain ⟨hcat, hnit, hpsip, hsdt⟩ := hagain
  rw [finishPat]
  split
  · exact ⟨readInto_of_noted hnoted, hcat, hnit, hpsip, hsdt⟩
  · refine ⟨readInto_finish hnoted, hcat, hnit, hpsip, .inr ?_⟩
    rcases hsdt with hsame | hreset
    · simp only [hsame]
    · simp only [hreset]

theorem autoconfReadPat_outcome (h : autoconfReadPat s chanP = .ok (s', chanP')) :
    Ignored .pat s ∧ s' = s ∧ chanP' = chanP ∨ ReadTable .pat s s' := by
  have hnoted : ∀ noted, (s.pat.renew s.pat.temp.dataFull.cells).store s.pat.temp.dataFull.cells =
      .ok noted → Noted s.pat s.pat.temp.dataFull.cells
        (startSection s chanP s.pat.temp.dataFull.cells noted).1.pat := by
    intro noted hstored
    obtain ⟨t', hstore, hnoted⟩ := s.pat.store_renew s.pat.temp.dataFull.cells
    rw [hstored] at hstore
    cases hstore
    rw [(startSection_again s chanP _ noted).1]
    exact hnoted
  cases autoconfReadPat_cases h with
  | skipped skip => exact .inl ⟨.inr skip, rfl, rfl⟩
  | next unseen stored next =>
    exact .inr ⟨readInto_of_noted (hnoted _ stored), (startSection_again s chanP _ _).2.others⟩
  | @read noted chanP₁ unseen stored current programs =>
    obtain ⟨hread, hagain⟩ := finishPat_spec (hnoted noted stored)
      (startSection_again s chanP _ noted).2 (transportStreamId s.pat.temp.dataFull.cells)
    exact .inr ⟨hread, hagain.others⟩

/-- The head of `autoconf_read_cat`. -/
theorem noteCatSection_noted (a : AutoconfCat.AutoP) (cat : List UInt8) :
    ∃ a', AutoconfCat.noteCatSection a cat = .ok a' ∧ a'.catVersion = versionNumber cat ∧
      a'.catSectionsSeen.cells[sectionNumber cat]? = some true ∧
      a'.catNeedUpdate = a.catNeedUpdate ∧ (a'.catAllSectionsSeen = true ↔
        a.catAllSectionsSeen = true ∧ a.catVersion = versionNumber cat) ∧
      (a'.sdtVersion = a.sdtVersion ∨ a'.sdtVersion = -1) := by
  have hlt := sectionNumber_lt cat
  rw [AutoconfCat.noteCatSection]
  by_cases hsame : (versionNumber cat : Int) = a.catVersion
  · obtain ⟨seen', hwrite, hmarked, -⟩ := a.catSectionsSeen.write_cell true hlt
    rw [if_pos hsame, hwrite]
    exact ⟨_, rfl, hsame.symm, hmarked, rfl, ⟨fun h => ⟨h, hsame.symm⟩, And.left⟩, .inl rfl⟩
  · obtain ⟨seen', hwrite, hmarked, -⟩ := (Buffer.fill 256 false).write_cell true hlt
    rw [if_neg hsame]
    simp only [hwrite]
    exact ⟨_, rfl, rfl, hmarked, rfl, ⟨fun h => absurd h Bool.false_ne_true,
      fun h => absurd h.2.symm hsame⟩, .inr rfl⟩

/-- A section of the CAT has been read. -/
structure CatRead (a a' : AutoconfCat.AutoP) (cat : List UInt8) : Prop where
  version : a'.catVersion = versionNumber cat
  marked : a'.catSectionsSeen.cells[sectionNumber cat]? = some true
  outcome : a'.catNeedUpdate = a.catNeedUpdate ∧ (a'.catAllSectionsSeen = true ↔
      a.catAllSectionsSeen = true ∧ a.catVersion = versionNumber cat) ∨
    a'.catNeedUpdate = false ∧ a'.catAllSectionsSeen = true
  sdt : a'.sdtVersion = a.sdtVersion ∨ a'.sdtVersion = -1

theorem catRead_cases {a a' : AutoconfCat.AutoP} {channels channels' : List AutoconfCat.CaChannel}
    {cat : List UInt8} (hcat : a.autoconfTempCat.dataFull.cells = cat)
    (h : AutoconfCat.autoconfReadCat a channels = .ok (a', channels')) :
    ((versionNumber cat : Int) = a.catVersion ∧
      a.catSectionsSeen.cells[sectionNumber cat]? = some true) ∧ a' = a ∧ channels' = channels ∨
    CatRead a a' cat := by
  rw [AutoconfCat.autoconfReadCat, hcat] at h
  obtain ⟨seen, hseen, h⟩ := bind_eq_ok.mp h
  rw [Buffer.read_eq_ok] at hseen
  split at h
  case isTrue hskip =>
    cases h
    rw [hskip.2] at hseen
    exact .inl ⟨⟨hskip.1, hseen⟩, rfl, rfl⟩
  case isFalse =>
    obtain ⟨a₁, hnote, hversion, hmarked, hneed, hall, hsdt⟩ := noteCatSection_noted a cat
    rw [hnote, bind_ok] at h
    refine .inr ?_
    split at h
    · cases h
      exact ⟨hversion, hmarked, .inl ⟨hneed, hall⟩, hsdt⟩
    · obtain ⟨list, -, h⟩ := bind_eq_ok.mp h
      obtain rfl : _ = a' := congrArg Prod.fst (Except.ok.inj h)
      rw [AutoconfCat.finishCat]
      dsimp only
      split
      · exact ⟨hversion, hmarked, .inl ⟨hneed, hall⟩, hsdt⟩
      · exact ⟨hversion, hmarked, .inr ⟨rfl, rfl⟩, hsdt⟩

theorem putCat_catPart (s : AutoP) : putCat s (catPart s) = s := by
  have hno : ¬ (s.cat.needUpdate = true ∧ (catPart s).catNeedUpdate = false) := by
    rintro ⟨hneed, hdone⟩
    exact absurd (hneed.symm.trans hdone) (by decide)
  rw [putCat, if_neg hno]
  rfl

theorem putCaChannels_self (chanP : MumuChanP) :
    putCaChannels chanP (chanP.channels.map AutoChannel.toCaChannel) = chanP := by
  obtain ⟨channels, hmost⟩ := chanP
  simp only [putCaChannels, MumuChanP.mk.injEq]
  clear hmost
  induction channels with
  | nil => rfl
  | cons chan channels ih => rw [List.map_cons, List.zipWith_cons_cons, ih]

/-- What a section of the CAT has changed, put back. -/
theorem CatRead.readTable {a' : AutoconfCat.AutoP}
    (h : CatRead (catPart s) a' (sectionOf s .cat)) : ReadTable .cat s (putCat s a') := by
  refine ⟨⟨h.version, h.marked, ?_⟩, fun other hne => ?_⟩
  · rcases h.outcome with ⟨hneed, hall⟩ | ⟨hdone, hall⟩
    · refine .inl ⟨hneed, if_neg ?_, hall⟩
      rintro ⟨hbefore, hafter⟩
      exact absurd (hbefore.symm.trans (hneed.symm.trans hafter)) (by decide)
    · refine .inr ⟨hdone, hall, fun hneed => ?_⟩
      exact (if_pos ⟨hneed, hdone⟩).trans (congrArg some h.version)
  · cases other with
    | pat => exact .inl rfl
    | cat => exact absurd rfl hne
    | sdt =>
      rcases h.sdt with hsame | hreset
      · exact .inl (by simp only [tracker, putCat, hsame, catPart])
      · exact .inr ⟨rfl, by simp only [tracker, putCat, hreset]⟩
    | nit => exact .inl rfl
    | psip => exact .inl rfl

theorem autoconfReadCat_outcome (h : autoconfReadCat s chanP = .ok (s', chanP')) :
    Ignored .cat s ∧ s' = s ∧ chanP' = chanP ∨ ReadTable .cat s s' := by
  rw [autoconfReadCat] at h
  obtain ⟨⟨a', channels'⟩, hread, h⟩ := bind_eq_ok.mp h
  obtain rfl : putCat s a' = s' := congrArg Prod.fst (Except.ok.inj h)
  obtain rfl : putCaChannels chanP channels' = chanP' := congrArg Prod.snd (Except.ok.inj h)
  rcases catRead_cases rfl hread with ⟨hskip, rfl, rfl⟩ | hcat
  · exact .inl ⟨.inr hskip, putCat_catPart s, putCaChannels_self chanP⟩
  · exact .inr hcat.readTable

/-- A reading that changes no other tracker, whether it was the last section or not. -/
theorem readTable_of_noted {kind : Kind} {t' : Tracker} (hnoted : Noted (tracker s kind)
    (sectionOf s kind) t') (hread : tracker s' kind = t' ∨ tracker s' kind = t'.finish)
    (hothers : ∀ other, other ≠ kind → tracker s' other = tracker s other) :
    ReadTable kind s s' := by
  refine ⟨?_, fun other hne => .inl (hothers other hne)⟩
  rcases hread with hread | hread
  · rw [hread]
    exact readInto_of_noted hnoted
  · rw [hread]
    exact readInto_finish hnoted

theorem autoconfReadSdt_outcome (h : autoconfReadSdt env s chanP = .ok (s', chanP')) :
    Ignored .sdt s ∧ s' = s ∧ chanP' = chanP ∨ ReadTable .sdt s s' := by
  rw [autoconfReadSdt] at h
  split at h
  case isTrue htable =>
    cases h
    exact .inl ⟨.inl htable, rfl, rfl⟩
  rcases Tracker.read_cases h with ⟨hskip, hsame⟩ | ⟨-, t', -, hnoted, h⟩
  · cases hsame
    exact .inl ⟨.inr hskip, rfl, rfl⟩
  obtain ⟨networkId, -, h⟩ := bind_eq_ok.mp h
  obtain ⟨chanP₁, -, h⟩ := bind_eq_ok.mp h
  dsimp only at h
  split at h
  all_goals
    cases h
    exact .inr (readTable_of_noted hnoted (by simp [tracker])
      fun other hne => by cases other <;> first | rfl | exact absurd rfl hne)

theorem autoconfReadNit_outcome (h : autoconfReadNit env s chanP = .ok (s', chanP')) :
    Ignored .nit s ∧ s' = s ∧ chanP' = chanP ∨ ReadTable .nit s s' := by
  rw [autoconfReadNit] at h
  split at h
  case isTrue htable =>
    cases h
    exact .inl ⟨.inl htable, rfl, rfl⟩
  rcases Tracker.read_cases h with ⟨hskip, hsame⟩ | ⟨-, t', -, hnoted, h⟩
  · cases hsame
    exact .inl ⟨.inr hskip, rfl, rfl⟩
  split at h
  · cases h
    exact .inr (readTable_of_noted hnoted (by simp [tracker])
      fun other hne => by cases other <;> first | rfl | exact absurd rfl hne)
  obtain ⟨networkId, -, h⟩ := bind_eq_ok.mp h
  obtain ⟨descriptorsLength, -, h⟩ := bind_eq_ok.mp h
  obtain ⟨loopLength, -, h⟩ := bind_eq_ok.mp h
  obtain ⟨chanP₁, -, h⟩ := bind_eq_ok.mp h
  dsimp only at h
  split at h
  all_goals
    cases h
    exact .inr (readTable_of_noted hnoted (by simp [tracker])
      fun other hne => by cases other <;> first | rfl | exact absurd rfl hne)

theorem autoconfReadPsip_outcome (h : autoconfReadPsip env s chanP = .ok (s', chanP')) :
    Ignored .psip s ∧ s' = s ∧ chanP' = chanP ∨ ReadTable .psip s s' := by
  rw [autoconfReadPsip] at h
  split at h
  case isTrue htable =>
    cases h
    exact .inl ⟨.inl (.inl htable), rfl, rfl⟩
  split at h
  case isTrue hnone =>
    cases h
    exact .inl ⟨.inl (.inr (.inl hnone)), rfl, rfl⟩
  split at h
  case isTrue hother =>
    cases h
    exact .inl ⟨.inl (.inr (.inr hother)), rfl, rfl⟩
  rcases Tracker.read_cases h with ⟨hskip, hsame⟩ | ⟨-, t', -, hnoted, h⟩
  · cases hsame
    exact .inl ⟨.inr hskip, rfl, rfl⟩
  obtain ⟨channels, -, h⟩ := bind_eq_ok.mp h
  obtain ⟨chanP₁, -, h⟩ := bind_eq_ok.mp h
  dsimp only at h
  split at h
  all_goals
    cases h
    exact .inr (readTable_of_noted hnoted (by simp [tracker])
      fun other hne => by cases other <;> first | rfl | exact absurd rfl hne)

/-- Reading a section: it is ignored, or it has been noted. -/
theorem readTable_outcome {kind : Kind} (h : readTable env kind s chanP = .ok (s', chanP')) :
    Ignored kind s ∧ s' = s ∧ chanP' = chanP ∨ ReadTable kind s s' := by
  cases kind with
  | pat => exact autoconfReadPat_outcome h
  | cat => exact autoconfReadCat_outcome h
  | sdt => exact autoconfReadSdt_outcome h
  | nit => exact autoconfReadNit_outcome h
  | psip => exact autoconfReadPsip_outcome h

theorem autoconfReadCat_ignored (h : s.cat.Skips s.cat.temp.dataFull.cells) :
    autoconfReadCat s chanP = .ok (s, chanP) := by
  have hread : AutoconfCat.autoconfReadCat (catPart s)
      (chanP.channels.map AutoChannel.toCaChannel) =
      .ok (catPart s, chanP.channels.map AutoChannel.toCaChannel) := by
    rw [AutoconfCat.autoconfReadCat, catPart, Buffer.read_ok _ h.2, bind_ok, if_pos ⟨h.1, rfl⟩]
    rfl
  rw [autoconfReadCat, hread, bind_ok]
  simp only [putCat_catPart, putCaChannels_self, pure_ok]

/-- What is ignored leaves everything as it is. -/
theorem readTable_ignored {kind : Kind} (h : Ignored kind s) :
    readTable env kind s chanP = .ok (s, chanP) := by
  cases kind with
  | pat =>
    have hskip : s.pat.Skips s.pat.temp.dataFull.cells := h.resolve_left id
    rw [readTable, autoconfReadPat, Tracker.alreadySeen_eq, bind_ok, decide_eq_true hskip,
      if_pos rfl]
    rfl
  | cat => exact autoconfReadCat_ignored (h.resolve_left id)
  | sdt =>
    rw [readTable, autoconfReadSdt, Tracker.alreadySeen_eq, bind_ok]
    split
    · rfl
    case isFalse htable =>
      have hskip : s.sdt.Skips s.sdt.temp.dataFull.cells := h.resolve_left htable
      rw [decide_eq_true hskip, if_pos rfl]
      rfl
  | nit =>
    rw [readTable, autoconfReadNit, Tracker.alreadySeen_eq, bind_ok]
    split
    · rfl
    case isFalse htable =>
      have hskip : s.nit.Skips s.nit.temp.dataFull.cells := h.resolve_left htable
      rw [decide_eq_true hskip, if_pos rfl]
      rfl
  | psip =>
    rw [readTable, autoconfReadPsip, Tracker.alreadySeen_eq, bind_ok]
    split
    · rfl
    case isFalse htable =>
      split
      · rfl
      case isFalse hknown =>
        split
        · rfl
        case isFalse hsame =>
          have hskip : s.psip.Skips s.psip.temp.dataFull.cells :=
            h.resolve_left fun hforeign => hforeign.elim htable fun h => h.elim hknown hsame
          rw [decide_eq_true hskip, if_pos rfl]
          rfl

/-- Nothing of the stored version, of its sections and of the channels has changed. -/
structure Unchanged (kind : Kind) (s s' : AutoP) (chanP chanP' : MumuChanP) : Prop where
  version : (tracker s' kind).version = (tracker s kind).version
  sectionsSeen : (tracker s' kind).sectionsSeen = (tracker s kind).sectionsSeen
  allSectionsSeen : (tracker s' kind).allSectionsSeen = (tracker s kind).allSectionsSeen
  channels : chanP' = chanP

/-- Reading the section in `data_full` has no effect. -/
def NoEffect (env : Surroundings) (kind : Kind) (s : AutoP) (chanP : MumuChanP) : Prop :=
  ∃ s' chanP', readTable env kind s chanP = .ok (s', chanP') ∧ Unchanged kind s s' chanP chanP'

/-- A section has no effect if and only if it is ignored, whether it is applicable or not. -/
theorem noEffect_iff (env : Surroundings) (kind : Kind) (s : AutoP) (chanP : MumuChanP) :
    NoEffect env kind s chanP ↔ Ignored kind s := by
  constructor
  · rintro ⟨s', chanP', hread, hunchanged⟩
    rcases readTable_outcome hread with ⟨hignored, -, -⟩ | hread
    · exact hignored
    · have hversion := hread.read.version
      have hmarked := hread.read.marked
      rw [hunchanged.version] at hversion
      rw [hunchanged.sectionsSeen] at hmarked
      exact .inr ⟨hversion.symm, hmarked⟩
  · intro h
    exact ⟨s, chanP, readTable_ignored h, rfl, rfl, rfl, rfl⟩

/-- A PAT section with one program. -/
def onePat (versionByte : UInt8) (crc : List UInt8) : List UInt8 :=
  [0x00, 0xb0, 0x0d, 0x00, 0x01, versionByte, 0x00, 0x00, 0x00, 0x01, 0xe1, 0x00] ++ crc

def nextPat : List UInt8 := onePat 0xc2 [0x39, 0x00, 0xe6, 0x4e]
/-- The same section, when it is applicable. -/
def currentPat : List UInt8 := onePat 0xc3 [0x76, 0x57, 0x8e, 0x5f]

/-- Behind the structure there are zeros, and text stays as it is. -/
def plain : Surroundings where
  byte pkt i := .ok (byteAt pkt.dataFull.cells i)
  convertEn300468String := id
  vctName shortName _ := shortName
  atsc := false

def holdPat (s : AutoP) (bytes : List UInt8) (h : bytes.length ≤ maxTsSize) : AutoP :=
  { s with pat := { s.pat with temp := CatCollection.handedOut bytes h } }

def started : AutoP := initAconfV ⟨false, false, [], []⟩

def noChannels : MumuChanP := ⟨[], Nat.zero_le _⟩

/-- The section stores its version, and when it is applicable it is ignored. -/
theorem not_noEffect_next : Accepted nextPat ∧ currentNextIndicator nextPat = 0 ∧
    ¬ NoEffect plain .pat (holdPat started nextPat (by decide)) noChannels ∧
    Accepted currentPat ∧ currentNextIndicator currentPat = 1 ∧
    ∃ s' chanP', readTable plain .pat (holdPat started nextPat (by decide)) noChannels =
      .ok (s', chanP') ∧ Ignored .pat (holdPat s' currentPat (by decide)) := by
  have h : (readTable plain .pat (holdPat started nextPat (by decide)) noChannels).map (fun r =>
      (r.1.pat.version, r.1.pat.sectionsSeen.cells[0]?)) = .ok (1, some true) := by decide +kernel
  obtain ⟨⟨s', chanP'⟩, hread, hvalues⟩ := map_eq_ok h
  simp only [Prod.mk.injEq] at hvalues
  obtain ⟨hversion, hmarked⟩ := hvalues
  refine ⟨by decide +kernel, by decide +kernel, ?_, by decide +kernel, by decide +kernel,
    s', chanP', hread, .inr ⟨?_, hmarked⟩⟩
  · rintro ⟨s₁, chanP₁, hread₁, hunchanged⟩
    rw [hread] at hread₁
    cases hread₁
    exact absurd (hunchanged.version.symm.trans hversion) (by decide)
  · have hcurrent : (versionNumber (CatCollection.handedOut currentPat (by decide)).dataFull.cells
        : Int) = 1 := by decide +kernel
    exact hcurrent.trans hversion.symm

end MuMuDVB.TableReads
