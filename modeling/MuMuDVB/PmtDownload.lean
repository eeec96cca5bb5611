import MuMuDVB.RecordedRun
import MuMuDVB.Channel
import MuMuDVB.TsRefinement

/-!
# Downloading the PMT of a channel

`chan_new_pmt` gives a packet to every ready channel with its PID. A channel
that needs a PMT takes sections until `chan_pmt_ok` accepts one; every section
taken overwrites the last one in the buffer from which the PMT is read later.
-/
namespace MuMuDVB.PmtDownload

open CheckedMemory RecordedRun MuMuDVB.TsHeader MuMuDVB.Ts MuMuDVB.TsAssembler
open MuMuDVB.TsRefinement MuMuDVB.Channel

inductive CamAsk where
  | noAsk | needAsk | needUpdate | asked
  deriving DecidableEq, Repr

structure PmtChannel where
  channelReady : ChanStatus
  serviceId : Int
  pmtPid : Int
  pmtPacket : MumudvbTsPacket
  pmtVersion : Int
  pmtNeedUpdate : Bool
  autoconfPmtNeedUpdate : Bool
  needCamAsk : CamAsk
  /-- the version is one that `chan_pmt_ok` stored after the last reset; nothing reads this -/
  versionStored : Bool
  deriving DecidableEq

def programNumber (pmt : List UInt8) : Nat := hilo (byteAt pmt 3).toNat (byteAt pmt 4).toNat

/-- The PMT is for the service; a channel without a service takes any. -/
def IsFor (serviceId : Int) (pmt : List UInt8) : Prop :=
  serviceId = 0 ∨ serviceId = programNumber pmt

instance (serviceId : Int) (pmt : List UInt8) : Decidable (IsFor serviceId pmt) :=
  inferInstanceAs (Decidable (_ ∨ _))

/-- `chan_pmt_need_update`. -/
def chanPmtNeedUpdate (mem : TableMemory) (chan : PmtChannel) : Checked PmtChannel := do
  match ← getTsBegin mem with
  | none => return chan
  | some off =>
    let pmt ← mem.slice off 8
    if (versionNumber pmt : Int) ≠ chan.pmtVersion ∧ tableId pmt = 0x02 ∧
        chan.pmtNeedUpdate = false then
      if currentNextIndicator pmt = 0 then return chan
      else if IsFor chan.serviceId pmt then return { chan with pmtNeedUpdate := true }
      else return chan
    else return chan

/-- `chan_pmt_ok`. -/
def chanPmtOk (channel : PmtChannel) : Bool × PmtChannel :=
  let header := channel.pmtPacket.dataFull.cells
  if tableId header ≠ 0x02 then (false, { channel with pmtPid := 0 })
  else if ¬ IsFor channel.serviceId header then (false, channel)
  else if (versionNumber header : Int) = channel.pmtVersion ∧ channel.pmtNeedUpdate = true then
    -- a false alarm
    (false, { channel with pmtNeedUpdate := false })
  else (true, { channel with pmtVersion := versionNumber header, versionStored := true })

/-- The flags that `chan_new_pmt` sets for a PMT that is accepted. -/
def announce (channel : PmtChannel) : PmtChannel :=
  { channel with
    pmtNeedUpdate := false
    autoconfPmtNeedUpdate := true
    needCamAsk := if channel.needCamAsk = .asked then .needUpdate else channel.needCamAsk }

/-- The loop of `chan_new_pmt` over the sections. -/
def pmtLoop (fuel : Nat) (buf : Option Packet) (channel : PmtChannel) : Checked PmtChannel :=
  match fuel with
  | 0 => .error .endless
  | fuel + 1 =>
    if channel.pmtNeedUpdate then do
      let (avail, pmtPacket) ← getTsPacket buf channel.pmtPacket
      let channel := { channel with pmtPacket }
      if avail then
        let (ok, channel) := chanPmtOk channel
        pmtLoop fuel none (if ok then announce channel else channel)
      else return channel
    else .ok channel

/-- The channel takes packets of this PID. -/
def Listens (pid : Nat) (channel : PmtChannel) : Prop :=
  pid ≠ 0 ∧ channel.pmtPid = pid ∧ channel.channelReady.isReady = true

instance (pid : Nat) (channel : PmtChannel) : Decidable (Listens pid channel) :=
  inferInstanceAs (Decidable (_ ∧ _))

/-- `chan_new_pmt` for one channel. -/
def takePmt (mem : TableMemory) (pid : Nat) (channel : PmtChannel) : Checked PmtChannel :=
  if Listens pid channel then do
    let channel ← (if channel.pmtNeedUpdate then .ok channel else chanPmtNeedUpdate mem channel)
    pmtLoop takeFuel (some mem.packet) channel
  else .ok channel

/-- `chan_new_pmt`. -/
def chanNewPmt (mem : TableMemory) (pid : Nat) (channels : List PmtChannel) :
    Checked (List PmtChannel) :=
  channels.mapM (takePmt mem pid)

/-- A section for which `chan_pmt_ok` gets as far as the version. -/
def IsPmtOf (serviceId : Int) (pkt : MumudvbTsPacket) : Prop :=
  tableId pkt.dataFull.cells = 0x02 ∧ IsFor serviceId pkt.dataFull.cells

instance (serviceId : Int) (pkt : MumudvbTsPacket) : Decidable (IsPmtOf serviceId pkt) :=
  inferInstanceAs (Decidable (_ ∧ _))

/-- Taking sections, the first one that is a PMT of the service leaves the structure as `pkt'`. -/
inductive FirstPmt (serviceId : Int) :
    Option Packet → MumudvbTsPacket → MumudvbTsPacket → Prop where
  | here {buf : Option Packet} {pkt pkt' : MumudvbTsPacket}
      (get : getTsPacket buf pkt = .ok (true, pkt')) (isPmt : IsPmtOf serviceId pkt') :
      FirstPmt serviceId buf pkt pkt'
  | later {buf : Option Packet} {pkt pkt₁ pkt' : MumudvbTsPacket}
      (get : getTsPacket buf pkt = .ok (true, pkt₁)) (other : ¬ IsPmtOf serviceId pkt₁)
      (rest : FirstPmt serviceId none pkt₁ pkt') : FirstPmt serviceId buf pkt pkt'

/-- What the loop makes of a channel that needs a PMT. -/
inductive Downloaded (channel : PmtChannel) (buf : Option Packet) : PmtChannel → Prop where
  | found {channel' : PmtChannel} (healthy : Healthy channel'.pmtPacket)
      (first : FirstPmt channel.serviceId buf channel.pmtPacket channel'.pmtPacket)
      (accepted : Accepted
        (channel'.pmtPacket.dataFull.cells.take channel'.pmtPacket.lenFull))
      (isPmt : IsPmtOf channel.serviceId channel'.pmtPacket)
      (serviceId : channel'.serviceId = channel.serviceId)
      (ready : channel'.channelReady = channel.channelReady)
      (version : channel'.pmtVersion = versionNumber channel'.pmtPacket.dataFull.cells)
      (stored : channel'.versionStored = true ↔ channel'.pmtVersion ≠ channel.pmtVersion ∨
        channel.versionStored = true)
      (done : channel'.pmtNeedUpdate = false) : Downloaded channel buf channel'
  | waits {channel' : PmtChannel} (healthy : Healthy channel'.pmtPacket)
      (none : ∀ pkt, ¬ FirstPmt channel.serviceId buf channel.pmtPacket pkt)
      (needs : channel'.pmtNeedUpdate = true) : Downloaded channel buf channel'

theorem FirstPmt.unique {serviceId : Int} {buf : Option Packet} {pkt pkt₁ pkt₂ : MumudvbTsPacket}
    (h₁ : FirstPmt serviceId buf pkt pkt₁) (h₂ : FirstPmt serviceId buf pkt pkt₂) :
    pkt₁ = pkt₂ := by
  induction h₁ with
  | here get isPmt =>
    cases h₂ with
    | here get' => exact (Prod.mk.inj (Except.ok.inj (get.symm.trans get'))).2
    | later get' other =>
      rw [(Prod.mk.inj (Except.ok.inj (get.symm.trans get'))).2] at isPmt
      exact absurd isPmt other
  | later get other _ ih =>
    cases h₂ with
    | here get' isPmt =>
      rw [(Prod.mk.inj (Except.ok.inj (get.symm.trans get'))).2] at other
      exact absurd isPmt other
    | later get' _ rest =>
      have hsame := (Prod.mk.inj (Except.ok.inj (get.symm.trans get'))).2
      exact ih (hsame ▸ rest)

theorem pmtLoop_done {channel : PmtChannel} (h : channel.pmtNeedUpdate = false) (fuel : Nat)
    (buf : Option Packet) : pmtLoop (fuel + 1) buf channel = .ok channel := by
  simp [pmtLoop, h]

/-- A section that `chan_pmt_ok` compares with the stored version. -/
theorem chanPmtOk_pmt {channel : PmtChannel} (h : IsPmtOf channel.serviceId channel.pmtPacket)
    (hneeds : channel.pmtNeedUpdate = true) :
    chanPmtOk channel =
      if (versionNumber channel.pmtPacket.dataFull.cells : Int) = channel.pmtVersion then
        (false, { channel with pmtNeedUpdate := false })
      else (true, { channel with
        pmtVersion := versionNumber channel.pmtPacket.dataFull.cells, versionStored := true }) := by
  obtain ⟨htable, hfor⟩ := h
  simp [chanPmtOk, htable, hfor, hneeds]

/-- Accepted or a false alarm, such a section ends the loop. -/
theorem announce_pmt {channel channel' : PmtChannel}
    (h : IsPmtOf channel.serviceId channel.pmtPacket) (hneeds : channel.pmtNeedUpdate = true)
    (hnext : (if (chanPmtOk channel).1 then announce (chanPmtOk channel).2
        else (chanPmtOk channel).2) = channel') :
    channel'.pmtPacket = channel.pmtPacket ∧ channel'.serviceId = channel.serviceId ∧
      channel'.channelReady = channel.channelReady ∧
      channel'.pmtVersion = versionNumber channel.pmtPacket.dataFull.cells ∧
      (channel'.versionStored = true ↔ channel'.pmtVersion ≠ channel.pmtVersion ∨
        channel.versionStored = true) ∧ channel'.pmtNeedUpdate = false := by
  subst hnext
  rw [chanPmtOk_pmt h hneeds]
  split
  case isTrue hsame => simp [hsame]
  case isFalse hother => simp [announce, hother]

/-- Any other section leaves the channel waiting. -/
theorem chanPmtOk_other {channel : PmtChannel}
    (h : ¬ IsPmtOf channel.serviceId channel.pmtPacket) :
    ∃ pmtPid, chanPmtOk channel = (false, { channel with pmtPid }) := by
  rw [chanPmtOk]
  by_cases htable : tableId channel.pmtPacket.dataFull.cells = 0x02
  · exact ⟨channel.pmtPid, by
      rw [if_neg (by simpa using htable), if_pos fun hfor => h ⟨htable, hfor⟩]⟩
  · exact ⟨0, by rw [if_pos htable]⟩

/-- The loop returns: a call takes a section from the store, which a packet adds to once only. -/
theorem pmtLoop_spec {channel : PmtChannel} (h : Healthy channel.pmtPacket)
    (hneeds : channel.pmtNeedUpdate = true) (fuel : Nat) (buf : Option Packet)
    (hfuel : buf = none ∧ (view channel.pmtPacket).store.length < fuel ∨ 16 < fuel) :
    ∃ channel', pmtLoop fuel buf channel = .ok channel' ∧ Downloaded channel buf channel' := by
  induction fuel generalizing channel buf with
  | zero => omega
  | succ fuel ih =>
    obtain ⟨pkt₁, hget, -⟩ := getTsPacket_spec h.toRepInvariant buf
    obtain ⟨hhealthy, hview, havail⟩ := h.get hget
    rw [pmtLoop, if_pos hneeds]
    simp only [hget, bind_ok]
    cases hcall : ((view channel.pmtPacket).call buf).1 with
    | false =>
      rw [hcall] at hget
      refine ⟨_, rfl, .waits hhealthy ?_ hneeds⟩
      rintro pkt (⟨get, -⟩ | ⟨get, -, -⟩) <;>
        exact absurd (Prod.mk.inj (Except.ok.inj (hget.symm.trans get))).1 Bool.false_ne_true
    | true =>
      rw [hcall] at hget
      obtain ⟨hstore, hacc, -⟩ := havail hcall
      simp only [if_true]
      by_cases hpmt : IsPmtOf channel.serviceId pkt₁
      · obtain ⟨hpacket, hservice, hready, hversion, hstored, hdone⟩ :=
          @announce_pmt { channel with pmtPacket := pkt₁ } _ hpmt hneeds rfl
        obtain ⟨fuel, rfl⟩ : ∃ n, fuel = n + 1 := ⟨fuel - 1, by
          have := List.length_pos_iff.mpr hstore
          omega⟩
        refine ⟨_, pmtLoop_done hdone fuel none, ?_⟩
        exact .found (by rw [hpacket]; exact hhealthy) (by rw [hpacket]; exact .here hget hpmt)
          (by rw [hpacket]; exact hacc) (by rw [hpacket]; exact hpmt) hservice
          hready (by rw [hversion, hpacket]) hstored hdone
      · have hleft : (view pkt₁).store.length < fuel := by
          rcases hfuel with ⟨rfl, hfuel⟩ | hfuel
          · have hpop : (view pkt₁).store = (view channel.pmtPacket).store.tail := by
              rw [hview]
              rfl
            have := List.length_pos_iff.mpr hstore
            rw [hpop, List.length_tail]
            omega
          · have := hhealthy.fullNumber
            rw [length_store hhealthy.toStoreInvariant]
            omega
        obtain ⟨pmtPid, hok⟩ := @chanPmtOk_other { channel with pmtPacket := pkt₁ } hpmt
        rw [hok]
        simp only [if_false, Bool.false_eq_true]
        obtain ⟨channel', hloop, hdown⟩ :=
          @ih { channel with pmtPacket := pkt₁, pmtPid := pmtPid } hhealthy hneeds none
            (.inl ⟨rfl, hleft⟩)
        refine ⟨channel', hloop, ?_⟩
        cases hdown with
        | found healthy first accepted isPmt serviceId ready version stored done =>
          exact .found healthy (.later hget hpmt first) accepted isPmt serviceId ready version
            stored done
        | waits healthy none needs =>
          refine .waits healthy ?_ needs
          rintro pkt (⟨get, isPmt⟩ | ⟨get, -, rest⟩)
          · rw [← (Prod.mk.inj (Except.ok.inj (hget.symm.trans get))).2] at isPmt
            exact hpmt isPmt
          · rw [← (Prod.mk.inj (Except.ok.inj (hget.symm.trans get))).2] at rest
            exact none pkt rest

theorem chanPmtNeedUpdate_cases {mem : TableMemory} {chan chan' : PmtChannel}
    (h : chanPmtNeedUpdate mem chan = .ok chan') :
    chan' = chan ∨ chan' = { chan with pmtNeedUpdate := true } := by
  obtain ⟨begin, -, h⟩ := bind_eq_ok.mp h
  cases begin with
  | none => exact .inl (Except.ok.inj h).symm
  | some off =>
    obtain ⟨pmt, -, h⟩ := bind_eq_ok.mp h
    split at h
    · split at h
      · exact .inl (Except.ok.inj h).symm
      · split at h
        · exact .inr (Except.ok.inj h).symm
        · exact .inl (Except.ok.inj h).symm
    · exact .inl (Except.ok.inj h).symm

/-- The channel needs a PMT, or the packet announces one for it. -/
def Needs (mem : TableMemory) (channel : PmtChannel) : Prop :=
  channel.pmtNeedUpdate = true ∨
    chanPmtNeedUpdate mem channel = .ok { channel with pmtNeedUpdate := true }

/-- A packet for a channel. -/
theorem takePmt_cases {mem : TableMemory} {pid : Nat} {channel channel' : PmtChannel}
    (h : takePmt mem pid channel = .ok channel') (hhealthy : Healthy channel.pmtPacket) :
    channel' = channel ∧ ¬ (Listens pid channel ∧ Needs mem channel) ∨
      Listens pid channel ∧ Needs mem channel ∧
        Downloaded { channel with pmtNeedUpdate := true } (some mem.packet) channel' := by
  rw [takePmt] at h
  split at h
  case isFalse hother => exact .inl ⟨(Except.ok.inj h).symm, fun hboth => hother hboth.1⟩
  case isTrue hlistens =>
    obtain ⟨channel₁, hcheck, hrest⟩ := bind_eq_ok.mp h
    have hdownload : channel₁ = { channel with pmtNeedUpdate := true } →
        Downloaded { channel with pmtNeedUpdate := true } (some mem.packet) channel' := by
      rintro rfl
      obtain ⟨channel₂, hloop, hdown⟩ :=
        @pmtLoop_spec { channel with pmtNeedUpdate := true } hhealthy rfl takeFuel
          (some mem.packet) (.inr (by decide))
      rw [hloop] at hrest
      exact Except.ok.inj hrest ▸ hdown
    cases hneeds : channel.pmtNeedUpdate with
    | true =>
      rw [hneeds, if_pos rfl] at hcheck
      refine .inr ⟨hlistens, .inl hneeds, hdownload ?_⟩
      rw [← Except.ok.inj hcheck, ← hneeds]
    | false =>
      rw [hneeds, if_neg Bool.false_ne_true] at hcheck
      rcases chanPmtNeedUpdate_cases hcheck with rfl | rfl
      · refine .inl ⟨?_, ?_⟩
        · rw [takeFuel, pmtLoop_done hneeds] at hrest
          exact (Except.ok.inj hrest).symm
        · rintro ⟨-, hold | hnew⟩
          · exact absurd (hneeds.symm.trans hold) Bool.false_ne_true
          · rw [hcheck] at hnew
            exact absurd (hneeds.symm.trans (congrArg PmtChannel.pmtNeedUpdate
              (Except.ok.inj hnew))) Bool.false_ne_true
      · exact .inr ⟨hlistens, .inr hcheck, hdownload rfl⟩

/-- A channel before its first packet. -/
def Fresh (channel : PmtChannel) : Prop :=
  channel.pmtPacket = zeroed ∧ channel.versionStored = false

/-- What the rest of the program leaves alone; it may ask for a PMT. -/
structure SameDownload (channel channel' : PmtChannel) : Prop where
  serviceId : channel'.serviceId = channel.serviceId
  pmtPacket : channel'.pmtPacket = channel.pmtPacket
  pmtVersion : channel'.pmtVersion = channel.pmtVersion
  versionStored : channel'.versionStored = channel.versionStored
  pmtNeedUpdate : channel.pmtNeedUpdate = true → channel'.pmtNeedUpdate = true

inductive Event where
  | packet (mem : TableMemory) (pid : Nat)
  | reset (i : Nat)
  | configure (i : Nat)
  | create (i : Nat)

/-- Packets come, versions are reset with a new PAT or CAT, and the rest of the channel changes. -/
inductive Step : List PmtChannel → Event → List PmtChannel → Prop where
  | packet {channels channels' : List PmtChannel} {mem : TableMemory} {pid : Nat}
      (call : chanNewPmt mem pid channels = .ok channels') :
      Step channels (.packet mem pid) channels'
  | reset {channels : List PmtChannel} {i : Nat} {channel : PmtChannel}
      (found : channels[i]? = some channel) :
      Step channels (.reset i)
        (channels.set i { channel with pmtVersion := -1, versionStored := false })
  | configure {channels : List PmtChannel} {i : Nat} {channel channel' : PmtChannel}
      (found : channels[i]? = some channel) (same : SameDownload channel channel') :
      Step channels (.configure i) (channels.set i channel')
  | create {channels : List PmtChannel} {i : Nat} {channel channel' : PmtChannel}
      (found : channels[i]? = some channel) (fresh : Fresh channel') :
      Step channels (.create i) (channels.set i channel')

def system : System (List PmtChannel) Event where
  Initial channels := ∀ channel ∈ channels, Fresh channel
  Step := Step

/-- `data_full` is a CRC-accepted, applicable PMT of the service, of the stored version. -/
structure HoldsPmt (channel : PmtChannel) : Prop where
  accepted : Accepted (channel.pmtPacket.dataFull.cells.take channel.pmtPacket.lenFull)
  tableId : tableId channel.pmtPacket.dataFull.cells = 0x02
  current : currentNextIndicator channel.pmtPacket.dataFull.cells = 1
  program : IsFor channel.serviceId channel.pmtPacket.dataFull.cells
  version : channel.pmtVersion = versionNumber channel.pmtPacket.dataFull.cells

/-- A PMT has been accepted and is not being replaced. -/
def Settled (channel : PmtChannel) : Prop :=
  channel.pmtNeedUpdate = false ∧ channel.versionStored = true

/-- The steps after which every ready channel that is settled holds its PMT. -/
def holdingSystem : System (List PmtChannel) Event where
  Initial := system.Initial
  Step channels e channels' := Step channels e channels' ∧ ∀ channel ∈ channels',
    channel.channelReady.isReady = true → Settled channel → HoldsPmt channel

/-- The first PMT of the service that is taken for the channel is applicable, or has the stored
version before `chan_pmt_ok` has stored any. -/
def TakesApplicable (mem : TableMemory) (pid : Nat) (channel : PmtChannel) : Prop :=
  Listens pid channel → Needs mem channel →
    ∀ pkt, FirstPmt channel.serviceId (some mem.packet) channel.pmtPacket pkt →
      currentNextIndicator pkt.dataFull.cells = 1 ∨
      (versionNumber pkt.dataFull.cells = channel.pmtVersion ∧ channel.versionStored = false)

/-- Every channel takes an applicable PMT. -/
def AllApplicable (channels : List PmtChannel) : Event → Prop
  | .packet mem pid => ∀ channel ∈ channels, TakesApplicable mem pid channel
  | _ => True

/-- What every run keeps for each channel: all but the indicator. -/
structure Inv (channel : PmtChannel) : Prop where
  healthy : Healthy channel.pmtPacket
  pmt : channel.pmtNeedUpdate = false → channel.versionStored = true →
    Accepted (channel.pmtPacket.dataFull.cells.take channel.pmtPacket.lenFull) ∧
    IsPmtOf channel.serviceId channel.pmtPacket ∧
    channel.pmtVersion = versionNumber channel.pmtPacket.dataFull.cells

theorem Fresh.inv {channel : PmtChannel} (h : Fresh channel) : Inv channel :=
  ⟨h.1 ▸ healthy_zeroed, fun _ hstored => absurd (h.2.symm.trans hstored) Bool.false_ne_true⟩

theorem Inv.take {mem : TableMemory} {pid : Nat} {channel channel' : PmtChannel}
    (h : Inv channel) (htake : takePmt mem pid channel = .ok channel') : Inv channel' := by
  rcases takePmt_cases htake h.healthy with ⟨rfl, -⟩ | ⟨-, -, hdown⟩
  · exact h
  · cases hdown with
    | found healthy _ accepted isPmt serviceId _ version =>
      exact ⟨healthy, fun _ _ => ⟨accepted, serviceId ▸ isPmt, version⟩⟩
    | waits healthy _ needs =>
      exact ⟨healthy, fun hdone => absurd (needs.symm.trans hdone) (by decide)⟩

/-- An applicable PMT that is taken is held afterwards. -/
theorem TakesApplicable.holds {mem : TableMemory} {pid : Nat} {channel channel' : PmtChannel}
    (h : Inv channel) (htake : takePmt mem pid channel = .ok channel')
    (happlicable : TakesApplicable mem pid channel) (hbefore : Settled channel → HoldsPmt channel) :
    Settled channel' → HoldsPmt channel' := by
  rintro ⟨hdone, hstored⟩
  obtain ⟨haccepted, hpmt, hversion⟩ := (h.take htake).pmt hdone hstored
  rcases takePmt_cases htake h.healthy with ⟨rfl, -⟩ | ⟨hlistens, hneeds, hdown⟩
  · exact hbefore ⟨hdone, hstored⟩
  · cases hdown with
    | found _ first _ _ _ _ version stored =>
      refine ⟨haccepted, hpmt.1, ?_, hpmt.2, hversion⟩
      rcases happlicable hlistens hneeds _ first with hcurrent | ⟨hsame, hnone⟩
      · exact hcurrent
      · rcases stored.mp hstored with hother | hbefore
        · exact absurd (version.trans hsame) hother
        · exact absurd (hnone.symm.trans hbefore) Bool.false_ne_true
    | waits _ _ needs => exact absurd (needs.symm.trans hdone) (by decide)

/-- A PMT that is held after it was taken was applicable. -/
theorem takesApplicable_of_holds {mem : TableMemory} {pid : Nat} {channel channel' : PmtChannel}
    (h : Inv channel) (htake : takePmt mem pid channel = .ok channel')
    (hholds : channel'.channelReady.isReady = true → Settled channel' → HoldsPmt channel') :
    TakesApplicable mem pid channel := by
  intro hlistens hneeds pkt hfirst
  rcases takePmt_cases htake h.healthy with ⟨-, hno⟩ | ⟨-, -, hdown⟩
  · exact absurd ⟨hlistens, hneeds⟩ hno
  · cases hdown with
    | found _ first _ _ _ ready version stored done =>
      rw [hfirst.unique first]
      cases hstored : channel'.versionStored with
      | true => exact .inl (hholds (by rw [ready]; exact hlistens.2.2) ⟨done, hstored⟩).current
      | false =>
        rw [hstored] at stored
        simp only [Bool.false_eq_true, false_iff, not_or, Decidable.not_not,
          Bool.not_eq_true] at stored
        exact .inr ⟨version.symm.trans stored.1, stored.2⟩
    | waits _ none => exact absurd hfirst (none pkt)

variable {channels channels' : List PmtChannel} {e : Event} {past : List Event}

theorem SameDownload.settled {channel channel' : PmtChannel} (hsame : SameDownload channel channel')
    (h : Settled channel') : Settled channel := by
  refine ⟨?_, hsame.versionStored ▸ h.2⟩
  rw [← Bool.not_eq_true]
  exact fun hneeds => absurd ((hsame.pmtNeedUpdate hneeds).symm.trans h.1) (by decide)

theorem SameDownload.inv {channel channel' : PmtChannel} (h : Inv channel)
    (hsame : SameDownload channel channel') : Inv channel' := by
  refine ⟨hsame.pmtPacket ▸ h.healthy, fun hdone hstored => ?_⟩
  obtain ⟨hbefore, hstored'⟩ := hsame.settled ⟨hdone, hstored⟩
  rw [hsame.pmtPacket, hsame.serviceId, hsame.pmtVersion]
  exact h.pmt hbefore hstored'

theorem inv_step (h : ∀ channel ∈ channels, Inv channel) (hstep : Step channels e channels') :
    ∀ channel ∈ channels', Inv channel := by
  cases hstep with
  | packet call =>
    intro channel hmem
    obtain ⟨before, hbefore, htake⟩ := mem_of_mapM call hmem
    exact (h before hbefore).take htake
  | reset found =>
    exact forall_mem_set_of h found fun hinv =>
      ⟨hinv.healthy, fun _ hstored => absurd hstored Bool.false_ne_true⟩
  | configure found same => exact forall_mem_set_of h found fun hinv => same.inv hinv
  | create found fresh => exact forall_mem_set h _ fresh.inv

theorem inv_run (hrun : Run system past channels) : ∀ channel ∈ channels, Inv channel :=
  hrun.invariant (P := fun _ channels => ∀ channel ∈ channels, Inv channel)
    (fun _ hinitial channel hmem => (hinitial channel hmem).inv)
    (fun _ _ _ _ h hstep => inv_step h hstep)

/-- With applicable PMTs every settled channel goes on holding its PMT. -/
theorem holds_step (h : ∀ channel ∈ channels, Inv channel) (hstep : Step channels e channels')
    (happlicable : AllApplicable channels e)
    (hbefore : ∀ channel ∈ channels, Settled channel → HoldsPmt channel) :
    ∀ channel ∈ channels', Settled channel → HoldsPmt channel := by
  cases hstep with
  | packet call =>
    intro channel hmem
    obtain ⟨before, hin, htake⟩ := mem_of_mapM call hmem
    exact (happlicable before hin).holds (h before hin) htake (hbefore before hin)
  | reset =>
    exact forall_mem_set hbefore _ fun hsettled => absurd hsettled.2 Bool.false_ne_true
  | configure found same =>
    refine forall_mem_set_of hbefore found fun hholds hsettled => ?_
    obtain ⟨haccepted, htable, hcurrent, hprogram, hversion⟩ := hholds (same.settled hsettled)
    rw [← same.pmtPacket] at haccepted htable hcurrent hprogram hversion
    exact ⟨haccepted, htable, hcurrent, same.serviceId ▸ hprogram, same.pmtVersion ▸ hversion⟩
  | create found fresh =>
    exact forall_mem_set hbefore _ fun hsettled =>
      absurd (fresh.2.symm.trans hsettled.2) Bool.false_ne_true

theorem applicable_of_holds (h : ∀ channel ∈ channels, Inv channel)
    (hstep : holdingSystem.Step channels e channels') : AllApplicable channels e := by
  obtain ⟨hstep, hholds⟩ := hstep
  cases hstep with
  | packet call =>
    intro channel hin
    obtain ⟨after, hafter, htake⟩ := mapM_mem call hin
    exact takesApplicable_of_holds (h channel hin) htake (hholds after hafter)
  | _ => trivial

theorem holds_run (hrun : Run (system.restrict AllApplicable) past channels) :
    ∀ channel ∈ channels, Settled channel → HoldsPmt channel := by
  induction hrun with
  | start initial =>
    exact fun channel hmem hsettled =>
      absurd ((initial channel hmem).2.symm.trans hsettled.2) Bool.false_ne_true
  | next run step ih => exact holds_step (inv_run run.of_restrict) step.2 step.1 ih

/-- In a run every ready channel that is settled holds an applicable PMT of its service, if and only
if at every packet the first PMT of the service that a channel takes is applicable. -/
theorem applicable_run_iff (past : List Event) (channels : List PmtChannel) :
    Run (system.restrict AllApplicable) past channels ↔ Run holdingSystem past channels := by
  refine run_congr ?_ (fun past channels e channels' hrun _ => ⟨fun hstep => ?_, fun hstep => ?_⟩)
    past channels
  · rfl
  · exact ⟨hstep.2, fun channel hmem _ => holds_run (.next hrun hstep) channel hmem⟩
  · exact ⟨applicable_of_holds (inv_run hrun.of_restrict) hstep, hstep.1⟩

/-- A PMT without streams. -/
def emptyPmt (versionByte : UInt8) (crc : List UInt8) : List UInt8 :=
  [0x02, 0xb0, 0x0d, 0x00, 0x01, versionByte, 0x00, 0x00, 0xe0, 0x00, 0xf0, 0x00] ++ crc

/-- Version 1 in force and version 2 to come, in one packet. -/
def firstMemory : TableMemory :=
  ⟨[0x47, 0x41, 0x00, 0x10, 0x00] ++ emptyPmt 0xc3 [0x27, 0x36, 0x55, 0xa2] ++
    emptyPmt 0xc4 [0xcf, 0x53, 0x50, 0x62] ++ List.replicate 159 0xff, by decide +kernel⟩

/-- Version 3 in force. -/
def thirdMemory : TableMemory :=
  ⟨[0x47, 0x41, 0x00, 0x11, 0x00] ++ emptyPmt 0xc7 [0x1e, 0xaa, 0xe8, 0x51] ++
    List.replicate 175 0xff, by decide +kernel⟩

/-- A ready channel for service 1 with PMT PID 256. -/
def readyChannel : PmtChannel where
  channelReady := .ready
  serviceId := 1
  pmtPid := 256
  pmtPacket := zeroed
  pmtVersion := -1
  pmtNeedUpdate := false
  autoconfPmtNeedUpdate := false
  needCamAsk := .noAsk
  versionStored := false

/-- The channels after these packets on PID 256. -/
def receive (channels : List PmtChannel) (mems : List TableMemory) : Checked (List PmtChannel) :=
  mems.foldlM (fun channels mem => chanNewPmt mem 256 channels) channels

theorem run_receive {mems : List TableMemory} (hrun : Run system past channels)
    (h : receive channels mems = .ok channels') : ∃ past', Run system past' channels' :=
  ⟨_, hrun.foldlM (fun mem => .packet mem 256) (fun _ _ _ hcall => Step.packet hcall) h⟩

/-- The PMT to come stays behind the one in force, and is taken when the third version is
announced. -/
theorem not_holds_next : ∃ past channels channel, Run system past channels ∧ channel ∈ channels ∧
    channel.channelReady.isReady = true ∧ Settled channel ∧ ¬ HoldsPmt channel := by
  have h : (receive [readyChannel] [firstMemory, firstMemory, thirdMemory]).map (fun channels =>
      (channels[0]?).map fun channel => (channel.channelReady.isReady, channel.pmtNeedUpdate,
        channel.versionStored, currentNextIndicator channel.pmtPacket.dataFull.cells)) =
      .ok (some (true, false, true, 0)) := by decide +kernel
  obtain ⟨channels, hreceive, h⟩ := map_eq_ok h
  obtain ⟨channel, hfound, hvalues⟩ := Option.map_eq_some_iff.mp h
  simp only [Prod.mk.injEq] at hvalues
  obtain ⟨hready, hdone, hstored, hcurrent⟩ := hvalues
  obtain ⟨past, hrun⟩ := run_receive (.start (by simp [system, Fresh, readyChannel])) hreceive
  refine ⟨past, channels, channel, hrun, List.mem_of_getElem? hfound, hready, ⟨hdone, hstored⟩,
    fun hholds => ?_⟩
  exact absurd (hcurrent.symm.trans hholds.current) (by decide)

end MuMuDVB.PmtDownload
