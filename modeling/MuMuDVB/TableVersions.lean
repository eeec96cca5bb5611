import MuMuDVB.RecordedRun
import MuMuDVB.TableReads

/-!
# Which versions of a table are read

The first section of a packet decides whether the table has to be read: its
version is compared with the stored one. While a table is not being read, the
stored version is the one that was read completely last, or the one that stands
for none.
-/
namespace MuMuDVB.TableVersions

open CheckedMemory RecordedRun MuMuDVB.TsHeader MuMuDVB.Ts MuMuDVB.Autoconf
open MuMuDVB.AutoconfTables MuMuDVB.TableReads

inductive Event where
  | packet (pid : Nat) (mem : TableMemory)
  | rest

/-- A packet comes, or the rest of the program does something to the channels. -/
inductive Step (env : Surroundings) : AutoP × MumuChanP → Event → AutoP × MumuChanP → Prop where
  | packet {s s' : AutoP × MumuChanP} {pid : Nat} {mem : TableMemory}
      (call : newPacketTables env pid mem s.1 s.2 = .ok s') : Step env s (.packet pid mem) s'
  | rest {s s' : AutoP × MumuChanP} (same : ∀ kind, tracker s'.1 kind = tracker s.1 kind) :
      Step env s .rest s'

def system (env : Surroundings) : System (AutoP × MumuChanP) Event where
  Initial s := ∃ options, s.1 = initAconfV options
  Step := Step env

def IsTable (header : List UInt8) : Kind → Prop
  | .pat => tableId header = 0x00
  | .cat => tableId header = 0x01
  | .sdt => tableId header = 0x42
  | .nit => tableId header = 0x40
  | .psip => tableId header = 0xc8 ∨ tableId header = 0xc9

/-- The first section of the packet is an applicable one of the table. -/
structure Announces (mem : TableMemory) (kind : Kind) (header : List UInt8) : Prop where
  first : ∃ off, getTsBegin mem = .ok (some off) ∧ mem.slice off 8 = .ok header
  isTable : IsTable header kind
  current : currentNextIndicator header = 1

/-- The version that stands for none at the start. -/
def initialVersion : Kind → Int
  | .cat | .psip => 0
  | _ => -1

/-- The NIT and the VCT are read once; version 0 of a CAT or a VCT may be the one that stands for
none. -/
def Watched (t : Tracker) (version : Nat) : Kind → Prop
  | .pat | .sdt => True
  | .cat => t.lastRead = none → version ≠ 0
  | .nit => t.lastRead = none
  | .psip => t.lastRead = none ∧ version ≠ 0

/-- What holds of the tracker of a kind whenever the table is not just being looked at. -/
structure Inv (kind : Kind) (t : Tracker) : Prop where
  seen : t.allSectionsSeen = true →
    ∃ v, t.lastRead = some v ∧ (t.version = v ∨ kind = .sdt ∧ t.version = -1)
  idle : t.needUpdate = false →
    t.allSectionsSeen = true ∨ t.lastRead = none ∧ t.version = initialVersion kind

variable {env : Surroundings} {kind other : Kind} {s s' : AutoP} {chanP chanP' : MumuChanP}
  {t t' : Tracker}

@[simp] theorem tracker_setTracker_self : tracker (setTracker s t kind) kind = t := by
  cases kind <;> rfl

theorem tracker_setTracker_other (h : other ≠ kind) :
    tracker (setTracker s t kind) other = tracker s other := by
  cases kind <;> cases other <;> first | rfl | exact absurd rfl h

theorem inv_unread (kind : Kind) : Inv kind (unread (initialVersion kind)) :=
  ⟨fun h => absurd h Bool.false_ne_true, fun _ => .inr ⟨rfl, rfl⟩⟩

theorem Inv.needs (h : Inv kind t) : Inv kind { t with needUpdate := true } :=
  ⟨h.seen, fun hidle => absurd hidle.symm Bool.false_ne_true⟩

theorem Inv.checkVersion (h : Inv kind t) (isTable : Bool) (header : List UInt8) :
    Inv kind (checkVersion t isTable header) := by
  rw [AutoconfTables.checkVersion]
  split
  · split
    · exact h
    · exact h.needs
  · split
    case isTrue hall => exact ⟨h.seen, fun _ => .inl hall.1⟩
    case isFalse => exact h

theorem Inv.checkUnread (h : Inv kind t) (isTable : Bool) (header : List UInt8) :
    Inv kind (checkUnread t isTable header) := by
  rw [AutoconfTables.checkUnread]
  split
  · split
    · exact h
    · exact h.needs
  · exact h

theorem Inv.checkHeader (h : Inv kind t) (header : List UInt8) :
    Inv kind (checkHeader header t kind) := by
  cases kind with
  | pat => exact h.checkVersion _ _
  | cat => exact h.checkVersion _ _
  | sdt => exact h.checkVersion _ _
  | nit => exact h.checkUnread _ _
  | psip => exact h.checkUnread _ _

theorem Inv.withTemp (h : Inv kind t) (temp : MumudvbTsPacket) : Inv kind { t with temp := temp } :=
  ⟨h.seen, h.idle⟩

/-- "We force the SDT update as the PAT was updated" -/
theorem Inv.again (h : Inv .sdt t) : Inv .sdt { t with version := -1 } := by
  refine ⟨fun hall => ?_, fun hidle => ?_⟩
  · obtain ⟨v, hlast, -⟩ := h.seen hall
    exact ⟨v, hlast, .inr ⟨rfl, rfl⟩⟩
  · exact (h.idle hidle).imp_right fun hnone => ⟨hnone.1, rfl⟩

theorem Inv.read {header : List UInt8} (h : Inv kind t) (hneed : t.needUpdate = true)
    (hread : ReadInto t header t') : Inv kind t' := by
  rcases hread.outcome with ⟨hneed', hlast, hall⟩ | ⟨hdone, hall, hlast⟩
  · refine ⟨fun hseen => ?_, fun hidle => absurd (hneed.symm.trans (hneed'.symm.trans hidle))
      (by decide)⟩
    obtain ⟨hbefore, hversion⟩ := hall.mp hseen
    obtain ⟨v, hv, hstored | ⟨-, hreset⟩⟩ := h.seen hbefore
    · exact ⟨v, hlast.trans hv, .inl (hread.version.trans (hversion.symm.trans hstored))⟩
    · rw [hreset] at hversion
      omega
  · exact ⟨fun _ => ⟨_, hlast hneed, .inl hread.version⟩, fun _ => .inl hall⟩

/-- The invariant of all kinds. -/
def AllInv (s : AutoP) : Prop := ∀ kind, Inv kind (tracker s kind)

theorem allInv_init (options : ChannelStatus.AutoP) : AllInv (initAconfV options) := by
  intro kind
  cases kind <;> exact inv_unread _

theorem AllInv.setTracker (h : AllInv s) (ht : Inv kind t) : AllInv (setTracker s t kind) := by
  intro other
  by_cases hother : other = kind
  · subst hother
    rw [tracker_setTracker_self]
    exact ht
  · rw [tracker_setTracker_other hother]
    exact h other

theorem AllInv.needUpdate {mem : TableMemory} (h : AllInv s)
    (hcheck : needUpdate mem kind s = .ok s') : AllInv s' := by
  obtain ⟨first, -, hcheck⟩ := bind_eq_ok.mp hcheck
  cases first with
  | none =>
    cases hcheck
    exact h
  | some off =>
    obtain ⟨header, -, hcheck⟩ := bind_eq_ok.mp hcheck
    cases hcheck
    exact h.setTracker ((h kind).checkHeader header)

theorem AllInv.readTable (h : AllInv s) (hneed : (tracker s kind).needUpdate = true)
    (hread : readTable env kind s chanP = .ok (s', chanP')) : AllInv s' := by
  rcases readTable_outcome hread with ⟨-, rfl, -⟩ | hread
  · exact h
  · intro other
    by_cases hother : other = kind
    · subst hother
      exact (h other).read hneed hread.read
    · rcases hread.others other hother with hsame | ⟨rfl, hreset⟩
      · rw [hsame]
        exact h other
      · rw [hreset]
        exact (h .sdt).again

theorem AllInv.readLoop {fuel : Nat} {buf : Option Packet} (h : AllInv s)
    (hloop : readLoop env kind fuel buf s chanP = .ok (s', chanP')) : AllInv s' := by
  induction fuel generalizing buf s chanP with
  | zero => cases hloop
  | succ fuel ih =>
    rw [AutoconfTables.readLoop] at hloop
    split at hloop
    case isFalse =>
      cases hloop
      exact h
    case isTrue hneed =>
      obtain ⟨⟨avail, temp⟩, -, hloop⟩ := bind_eq_ok.mp hloop
      have hset := h.setTracker ((h kind).withTemp temp)
      dsimp only at hloop
      split at hloop
      · obtain ⟨⟨s₁, chanP₁⟩, hread, hloop⟩ := bind_eq_ok.mp hloop
        refine ih (hset.readTable ?_ hread) hloop
        rw [tracker_setTracker_self]
        exact hneed
      · cases hloop
        exact hset

theorem AllInv.newPacketTables {pid : Nat} {mem : TableMemory} (h : AllInv s)
    (hcall : newPacketTables env pid mem s chanP = .ok (s', chanP')) : AllInv s' := by
  rw [AutoconfTables.newPacketTables] at hcall
  split at hcall
  · cases hcall
    exact h
  · split at hcall
    · obtain ⟨s₁, hcheck, hloop⟩ := bind_eq_ok.mp hcall
      refine AllInv.readLoop ?_ hloop
      split at hcheck
      · exact h.needUpdate hcheck
      · cases hcheck
        exact h
    · cases hcall
      exact h

theorem allInv_run {past : List Event} {s : AutoP × MumuChanP} (hrun : Run (system env) past s) :
    AllInv s.1 := by
  refine hrun.invariant (P := fun _ s => AllInv s.1) ?_ ?_
  · rintro s ⟨options, hs⟩
    rw [hs]
    exact allInv_init options
  · intro past s e s' h hstep
    cases hstep with
    | packet call => exact h.newPacketTables call
    | rest same =>
      intro kind
      rw [same kind]
      exact h kind

/-- The check raises the flag for a version that is not stored, unless a NIT or a VCT has been
read. -/
theorem checkHeader_needs {header : List UInt8} (htable : IsTable header kind)
    (hcurrent : currentNextIndicator header = 1) (hversion : t.version ≠ versionNumber header)
    (honce : kind = .nit ∨ kind = .psip → t.allSectionsSeen = false) :
    (checkHeader header t kind).needUpdate = true := by
  have hne : (versionNumber header : Int) ≠ t.version := Ne.symm hversion
  have hcni : ¬ currentNextIndicator header = 0 := by rw [hcurrent]; decide
  cases kind with
  | pat => rw [AutoconfTables.checkHeader, checkVersion, if_pos ⟨hne, rfl⟩, if_neg hcni]
  | cat => rw [AutoconfTables.checkHeader, checkVersion, if_pos ⟨hne, rfl⟩, if_neg hcni]
  | sdt =>
    rw [AutoconfTables.checkHeader, checkVersion, if_pos ⟨hne, decide_eq_true htable⟩, if_neg hcni]
  | nit =>
    rw [AutoconfTables.checkHeader, checkUnread,
      if_pos ⟨hne, decide_eq_true htable, honce (.inl rfl)⟩, if_neg hcni]
  | psip =>
    rw [AutoconfTables.checkHeader, checkUnread, if_pos ⟨hne, rfl, honce (.inr rfl)⟩, if_neg hcni]

/-- What the invariant says about a table that is not being read, for a version that is watched. -/
theorem Inv.not_stored (h : Inv kind t) (hidle : t.needUpdate = false) {version : Nat}
    (hnew : t.lastRead ≠ some (version : Int)) (hwatched : Watched t version kind) :
    t.version ≠ version ∧ (kind = .nit ∨ kind = .psip → t.allSectionsSeen = false) := by
  rcases h.idle hidle with hall | ⟨hnone, hinitial⟩
  · obtain ⟨v, hv, hstored⟩ := h.seen hall
    refine ⟨?_, ?_⟩
    · rintro hsame
      rcases hstored with hstored | ⟨-, hreset⟩
      · exact hnew (hv.trans (congrArg some (hstored.symm.trans hsame)))
      · omega
    · rintro (rfl | rfl)
      · exact absurd (hv.symm.trans hwatched) (Option.some_ne_none v)
      · exact absurd (hv.symm.trans hwatched.1) (Option.some_ne_none v)
  · refine ⟨?_, fun honce => ?_⟩
    · rw [hinitial]
      cases kind with
      | cat => exact fun h => hwatched hnone (Int.ofNat_eq_zero.mp h.symm)
      | psip => exact fun h => hwatched.2 (Int.ofNat_eq_zero.mp h.symm)
      | _ => exact fun h => absurd h (by simp only [initialVersion]; omega)
    · rw [← Bool.not_eq_true]
      intro hall
      obtain ⟨v, hv, -⟩ := h.seen hall
      exact absurd (hv.symm.trans hnone) (Option.some_ne_none v)

/-- While a table is not being read, a packet whose first section is an applicable one of a version
that is watched and was not read completely last raises the flag. -/
theorem version_needed {past : List Event} {s : AutoP × MumuChanP} {mem : TableMemory}
    {header : List UInt8} (hrun : Run (system env) past s)
    (hidle : (tracker s.1 kind).needUpdate = false) (hannounce : Announces mem kind header)
    (hnew : (tracker s.1 kind).lastRead ≠ some (versionNumber header : Int))
    (hwatched : Watched (tracker s.1 kind) (versionNumber header) kind) :
    ∃ s', needUpdate mem kind s.1 = .ok s' ∧ (tracker s' kind).needUpdate = true := by
  obtain ⟨off, hbegin, hslice⟩ := hannounce.first
  obtain ⟨hversion, honce⟩ := (allInv_run hrun kind).not_stored hidle hnew hwatched
  refine ⟨setTracker s.1 (checkHeader header (tracker s.1 kind) kind) kind, ?_, ?_⟩
  · rw [AutoconfTables.needUpdate, hbegin, bind_ok]
    dsimp only
    rw [hslice]
    rfl
  · rw [tracker_setTracker_self]
    exact checkHeader_needs hannounce.isTable hannounce.current hversion honce

/-- A packet with one section. -/
def onePacket (pid : UInt8) (bytes : List UInt8) (h : bytes.length ≤ 191) : TableMemory :=
  ⟨[0x47, 0x40, pid, 0x10, 0x00] ++ bytes ++ List.replicate (191 - bytes.length) 0xff, by
    simp only [List.length_append, List.length_cons, List.length_nil, List.length_replicate]
    omega⟩

/-- An NIT section that lists nothing. -/
def oneNit (versionByte : UInt8) (crc : List UInt8) : List UInt8 :=
  [0x40, 0xf0, 0x0d, 0x00, 0x01, versionByte, 0x00, 0x00, 0xf0, 0x00, 0xf0, 0x00] ++ crc

def patPacket : TableMemory := onePacket 0x00 currentPat (by decide)
def firstNit : TableMemory := onePacket 0x10 (oneNit 0xc1 [0x3b, 0x85, 0x84, 0x02]) (by decide)
def secondNit : TableMemory := onePacket 0x10 (oneNit 0xc3 [0xa5, 0x2b, 0x54, 0x20]) (by decide)

/-- The packets on these PIDs. -/
def receive (s : AutoP × MumuChanP) (packets : List (Nat × TableMemory)) :
    Checked (AutoP × MumuChanP) :=
  packets.foldlM (fun s packet => newPacketTables plain packet.1 packet.2 s.1 s.2) s

theorem run_receive {packets : List (Nat × TableMemory)} {past : List Event}
    {s s' : AutoP × MumuChanP} (hrun : Run (system plain) past s)
    (h : receive s packets = .ok s') : ∃ past', Run (system plain) past' s' :=
  ⟨_, hrun.foldlM (fun packet => .packet packet.1 packet.2) (fun _ _ _ hcall => Step.packet hcall) h⟩

/-- The first PAT is read. -/
theorem version_needed_pat : ∃ s', needUpdate patPacket .pat started = .ok s' ∧
    (tracker s' .pat).needUpdate = true :=
  have hrun : Run (system plain) [] (started, noChannels) := .start ⟨_, rfl⟩
  version_needed hrun rfl
    ⟨⟨5, by decide +kernel, rfl⟩, show tableId _ = 0x00 by decide +kernel, by decide +kernel⟩
    (Option.some_ne_none _).symm trivial

/-- After version 0 of the NIT version 1 is not read. -/
theorem not_needed_nit : ∃ past s header, Run (system plain) past s ∧
    (tracker s.1 .nit).needUpdate = false ∧ (tracker s.1 .nit).lastRead = some 0 ∧
    Announces secondNit .nit header ∧ versionNumber header = 1 ∧
    ∀ s', needUpdate secondNit .nit s.1 = .ok s' → (tracker s' .nit).needUpdate = false := by
  have h : (receive (started, noChannels)
      [(0, patPacket), (0, patPacket), (16, firstNit), (16, firstNit)]).map (fun s =>
      (s.1.nit.needUpdate, s.1.nit.lastRead, (needUpdate secondNit .nit s.1).map fun s' =>
        s'.nit.needUpdate)) = .ok (false, some 0, .ok false) := by decide +kernel
  obtain ⟨s, hreceive, hvalues⟩ := map_eq_ok h
  simp only [Prod.mk.injEq] at hvalues
  obtain ⟨hidle, hlast, hcheck⟩ := hvalues
  obtain ⟨past, hrun⟩ := run_receive (.start ⟨_, rfl⟩) hreceive
  refine ⟨past, s, _, hrun, hidle, hlast,
    ⟨⟨5, by decide +kernel, rfl⟩, show tableId _ = 0x40 by decide +kernel, by decide +kernel⟩,
    by decide +kernel, ?_⟩
  intro s' hs'
  rw [hs'] at hcheck
  exact Except.ok.inj hcheck

end MuMuDVB.TableVersions
