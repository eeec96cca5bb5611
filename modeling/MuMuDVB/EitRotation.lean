import MuMuDVB.EitPackets

/-!
# The rotation over the stored EIT

Each call sends the next stored section, in the order of the table ids and of
the section numbers. A rank says how far a section is from its turn: every
call that does not send it brings it nearer, unless the rotation is caught in
a table whose last section is missing.
-/
namespace MuMuDVB.EitRotation

open CheckedMemory RecordedRun MuMuDVB.TsHeader MuMuDVB.Ts MuMuDVB.Channel MuMuDVB.RewriteEit
  MuMuDVB.EitSearch MuMuDVB.EitPackets

/-- A section of the table has been received. -/
def HasStored (eit : EitPacket) : Prop := ∃ i ≤ eit.lastSectionNumber, storedAt eit i ≠ none

section rank

/-- How many tables lie between the table of index `a` and the one of index `t`. -/
def tablesTo (t a : Nat) : Nat := (t + 17 - a % 17) % 17

/-- How many sections lie between section `n` and section `i` of the table. -/
def sectionsTo (eit : EitPacket) (i n : Nat) : Nat :=
  (i + (eit.lastSectionNumber + 1) - n % (eit.lastSectionNumber + 1)) % (eit.lastSectionNumber + 1)

/-- The section to send belongs to the table to send, as after every call that sends. -/
def Settled (vars : RewriteParameters) (serviceId : Int) (a n : Nat) : Prop :=
  n = 0 ∨ ∃ eit, usable vars serviceId (tableAt a) = some eit ∧ HasStored eit ∧
    n ≤ eit.lastSectionNumber

open Classical in
/-- The rank of section `i` of the table of index `t`: sections left in its table count most,
then the tables before it, then the sections of the table in turn. -/
noncomputable def rank (vars : RewriteParameters) (serviceId : Int) (eit : EitPacket) (t i a n : Nat) :
    Nat :=
  if Settled vars serviceId a n then
    if tablesTo t a = 0 then 17 * 257 * sectionsTo eit i n
    else 17 * 257 * i + 257 * tablesTo t a + (256 - n)
  else 17 * 257 * 256 + tablesTo t a

variable {vars : RewriteParameters} {serviceId : Int} {eit : EitPacket} {t i a n : Nat}

theorem tablesTo_lt (t a : Nat) : tablesTo t a < 17 := Nat.mod_lt _ (by decide)

theorem tableAt_tablesTo (t a : Nat) : tableAt (a + tablesTo t a) = tableAt t := by
  rw [tableAt_inj, tablesTo]
  omega

theorem tablesTo_mod (t a : Nat) : tablesTo t (a % 17) = tablesTo t a := by
  rw [tablesTo, tablesTo, Nat.mod_mod]

/-- Going on by `m` tables that all lie before table `t`. -/
theorem tablesTo_add {m : Nat} (h : m ≤ tablesTo t a) : tablesTo t (a + m) = tablesTo t a - m := by
  have := tablesTo_lt t a
  simp only [tablesTo] at *
  omega

theorem tablesTo_next (h : tablesTo t a = 0) : tablesTo t (a + 1) = 16 := by
  simp only [tablesTo] at *
  omega

theorem settled_mod : Settled vars serviceId (a % 17) n ↔ Settled vars serviceId a n := by
  rw [Settled, Settled, tableAt_mod]

theorem rank_mod : rank vars serviceId eit t i (a % 17) n = rank vars serviceId eit t i a n := by
  by_cases h : Settled vars serviceId a n
  · rw [rank, rank, if_pos h, if_pos (settled_mod.mpr h), tablesTo_mod]
  · rw [rank, rank, if_neg h, if_neg (mt settled_mod.mp h), tablesTo_mod]

theorem rank_here (hsettled : Settled vars serviceId a n) (h : tablesTo t a = 0) :
    rank vars serviceId eit t i a n = 17 * 257 * sectionsTo eit i n := by
  rw [rank, if_pos hsettled, if_pos h]

theorem rank_before (hsettled : Settled vars serviceId a n) (h : tablesTo t a ≠ 0) :
    rank vars serviceId eit t i a n = 17 * 257 * i + 257 * tablesTo t a + (256 - n) := by
  rw [rank, if_pos hsettled, if_neg h]

theorem rank_unsettled (h : ¬ Settled vars serviceId a n) :
    rank vars serviceId eit t i a n = 17 * 257 * 256 + tablesTo t a := by
  rw [rank, if_neg h]

theorem sectionsTo_lt (eit : EitPacket) (i n : Nat) : sectionsTo eit i n ≤ eit.lastSectionNumber :=
  Nat.le_of_lt_succ (Nat.mod_lt _ (Nat.succ_pos _))

/-- A settled state is nearer than one that is not. -/
theorem rank_settled_lt (hsettled : Settled vars serviceId a n) (hi : i ≤ eit.lastSectionNumber)
    (hlast : eit.lastSectionNumber < 256) :
    rank vars serviceId eit t i a n < 17 * 257 * 256 := by
  have hlt := tablesTo_lt t a
  by_cases h : tablesTo t a = 0
  · have := sectionsTo_lt eit i n
    rw [rank_here hsettled h]
    omega
  · rw [rank_before hsettled h]
    omega

/-- What is to be sent, and that no other table keeps the rotation from it. -/
structure Target (vars : RewriteParameters) (serviceId : Int) (eit : EitPacket) (t i : Nat) :
    Prop where
  table : usable vars serviceId (tableAt t) = some eit
  within : i ≤ eit.lastSectionNumber
  stored : storedAt eit i ≠ none
  others : ∀ other k, usable vars serviceId (tableAt k) = some other → HasStored other →
    other ≠ eit → storedAt other other.lastSectionNumber ≠ none

theorem Target.hasStored (h : Target vars serviceId eit t i) : HasStored eit :=
  ⟨i, h.within, h.stored⟩

/-- The search stops at the table of the target at the latest. -/
theorem Target.not_past {m : Nat} (h : Target vars serviceId eit t i)
    (hbefore : ∀ l < m, usable vars serviceId (tableAt (a + l)) = none) : m ≤ tablesTo t a := by
  by_contra hpast
  have hnone := hbefore (tablesTo t a) (by omega)
  rw [tableAt_tablesTo, h.table] at hnone
  cases hnone

/-- A settled state that is not at the start of a table begins with its own table. -/
theorem Settled.own {m : Nat} {other : EitPacket} (h : Settled vars serviceId a n) (hn : n ≠ 0)
    (htable : usable vars serviceId (tableAt (a + m)) = some other)
    (hbefore : ∀ l < m, usable vars serviceId (tableAt (a + l)) = none) :
    m = 0 ∧ HasStored other ∧ n ≤ other.lastSectionNumber := by
  rcases h with hzero | ⟨eit, heit, hstored, hle⟩
  · exact absurd hzero hn
  · cases m with
    | zero =>
      rw [Nat.add_zero, heit] at htable
      cases htable
      exact ⟨rfl, hstored, hle⟩
    | succ m =>
      have hnone := hbefore 0 (Nat.succ_pos m)
      rw [Nat.add_zero, heit] at hnone
      cases hnone

/-- A table without sections is passed. -/
theorem Target.nearer_empty {m : Nat} {other : EitPacket} (h : Target vars serviceId eit t i)
    (hlast : eit.lastSectionNumber < 256)
    (htable : usable vars serviceId (tableAt (a + m)) = some other)
    (hbefore : ∀ l < m, usable vars serviceId (tableAt (a + l)) = none)
    (hnone : ∀ k ≤ other.lastSectionNumber, storedAt other k = none) :
    rank vars serviceId eit t i (a + m + 1) (n % (other.lastSectionNumber + 1)) <
      rank vars serviceId eit t i a n := by
  have hle := h.not_past hbefore
  have hne : m ≠ tablesTo t a := by
    intro hm
    rw [hm, tableAt_tablesTo, h.table] at htable
    cases htable
    exact h.stored (hnone i h.within)
  have hnext : tablesTo t (a + m + 1) = tablesTo t a - (m + 1) := by
    rw [Nat.add_assoc, tablesTo_add (by omega)]
  by_cases hsettled : Settled vars serviceId a n
  · have hn : n = 0 := by
      by_contra hn
      obtain ⟨-, ⟨k, hk, hstored⟩, -⟩ := hsettled.own hn htable hbefore
      exact hstored (hnone k hk)
    subst hn
    rw [Nat.zero_mod, rank_before hsettled (by omega)]
    by_cases hzero : tablesTo t (a + m + 1) = 0
    · rw [rank_here (.inl rfl) hzero, sectionsTo, Nat.zero_mod, Nat.sub_zero, Nat.add_mod_right,
        Nat.mod_eq_of_lt (Nat.lt_succ_of_le h.within)]
      omega
    · rw [rank_before (.inl rfl) hzero]
      omega
  · rw [rank_unsettled hsettled]
    by_cases hafter : Settled vars serviceId (a + m + 1) (n % (other.lastSectionNumber + 1))
    · have := rank_settled_lt (t := t) hafter h.within hlast
      omega
    · rw [rank_unsettled hafter]
      omega

theorem sectionsTo_eq {d : Nat} (hd : d ≤ eit.lastSectionNumber)
    (h : (n + d) % (eit.lastSectionNumber + 1) = i) : sectionsTo eit i n = d := by
  have hn := Nat.mod_lt n (show 0 < eit.lastSectionNumber + 1 by omega)
  rw [sectionsTo, ← h, ← Nat.mod_add_mod]
  generalize n % (eit.lastSectionNumber + 1) = r at hn ⊢
  by_cases hwrap : r + d < eit.lastSectionNumber + 1
  · rw [Nat.mod_eq_of_lt hwrap, show r + d + (eit.lastSectionNumber + 1) - r =
      d + (eit.lastSectionNumber + 1) by omega, Nat.add_mod_right, Nat.mod_eq_of_lt (by omega)]
  · have hsum : (r + d) % (eit.lastSectionNumber + 1) = r + d - (eit.lastSectionNumber + 1) := by
      rw [Nat.mod_eq_sub_mod (Nat.le_of_not_lt hwrap), Nat.mod_eq_of_lt (by omega)]
    rw [hsum, show r + d - (eit.lastSectionNumber + 1) + (eit.lastSectionNumber + 1) - r = d by omega,
      Nat.mod_eq_of_lt (by omega)]

/-- In its own table the target comes nearer with every section that is not it. -/
theorem Target.sections {k : Nat} (h : Target vars serviceId eit t i)
    (hne : (n + k) % (eit.lastSectionNumber + 1) ≠ i)
    (hmissing : ∀ l < k, storedAt eit ((n + l) % (eit.lastSectionNumber + 1)) = none) :
    k < sectionsTo eit i n ∧
      sectionsTo eit i (((n + k) % (eit.lastSectionNumber + 1) + 1) % (eit.lastSectionNumber + 1)) =
        sectionsTo eit i n - (k + 1) := by
  obtain ⟨d, hd, hi⟩ := round_numbers h.within n
  have hdist := sectionsTo_eq hd hi
  have hkd : k < d := by
    by_contra hle
    rcases Nat.lt_or_eq_of_le (Nat.le_of_not_lt hle) with hlt | heq
    · exact h.stored (hi ▸ hmissing d hlt)
    · exact hne (heq ▸ hi)
  rw [hdist]
  refine ⟨hkd, sectionsTo_eq (by omega) ?_⟩
  rw [Nat.mod_add_mod, Nat.add_assoc, Nat.mod_add_mod, show n + k + (1 + (d - (k + 1))) = n + d by
    omega, hi]

theorem sectionsTo_zero (hi : i ≤ eit.lastSectionNumber) : sectionsTo eit i 0 = i :=
  sectionsTo_eq hi (by rw [Nat.zero_add, Nat.mod_eq_of_lt (Nat.lt_succ_of_le hi)])

/-- A section of the target's own table is sent. -/
theorem Target.nearer_own {m k : Nat} (h : Target vars serviceId eit t i)
    (hlast : eit.lastSectionNumber < 256) (hm : m = tablesTo t a)
    (htable : usable vars serviceId (tableAt (a + m)) = some eit)
    (hbefore : ∀ l < m, usable vars serviceId (tableAt (a + l)) = none)
    (hne : (n + k) % (eit.lastSectionNumber + 1) ≠ i)
    (hmissing : ∀ l < k, storedAt eit ((n + l) % (eit.lastSectionNumber + 1)) = none) :
    rank vars serviceId eit t i
        (if ((n + k) % (eit.lastSectionNumber + 1) + 1) % (eit.lastSectionNumber + 1) = 0 then
          a + m + 1 else a + m)
        (((n + k) % (eit.lastSectionNumber + 1) + 1) % (eit.lastSectionNumber + 1)) <
      rank vars serviceId eit t i a n := by
  obtain ⟨hk, hnext⟩ := h.sections hne hmissing
  have hhere : tablesTo t (a + m) = 0 := by
    rw [tablesTo_add (Nat.le_of_eq hm), hm, Nat.sub_self]
  have hstart : Settled vars serviceId a n → tablesTo t a ≠ 0 → sectionsTo eit i n = i := by
    intro hsettled hzero
    have hn : n = 0 := by
      by_contra hn
      obtain ⟨hm', -, -⟩ := hsettled.own hn htable hbefore
      exact hzero (hm ▸ hm')
    rw [hn, sectionsTo_zero h.within]
  generalize hnumber : ((n + k) % (eit.lastSectionNumber + 1) + 1) % (eit.lastSectionNumber + 1) = n'
    at hnext ⊢
  by_cases hwrap : n' = 0
  · rw [if_pos hwrap, hwrap, rank_before (.inl rfl) (by rw [tablesTo_next hhere]; decide),
      tablesTo_next hhere]
    rw [hwrap, sectionsTo_zero h.within] at hnext
    by_cases hsettled : Settled vars serviceId a n
    · by_cases hzero : tablesTo t a = 0
      · rw [rank_here hsettled hzero]
        omega
      · have := hstart hsettled hzero
        omega
    · rw [rank_unsettled hsettled]
      have := h.within
      omega
  · have hafter : Settled vars serviceId (a + m) n' := by
      refine .inr ⟨eit, htable, h.hasStored, ?_⟩
      rw [← hnumber]
      exact Nat.le_of_lt_succ (Nat.mod_lt _ (Nat.succ_pos _))
    rw [if_neg hwrap, rank_here hafter hhere, hnext]
    by_cases hsettled : Settled vars serviceId a n
    · by_cases hzero : tablesTo t a = 0
      · rw [rank_here hsettled hzero]
        omega
      · rw [rank_before hsettled hzero]
        have := hstart hsettled hzero
        omega
    · rw [rank_unsettled hsettled]
      have := sectionsTo_lt eit i n
      omega

/-- A section of a table before the target's is sent. -/
theorem Target.nearer_other {m k : Nat} {other : EitPacket} (h : Target vars serviceId eit t i)
    (hlast : eit.lastSectionNumber < 256) (hnumber : other.lastSectionNumber < 256)
    (hm : m < tablesTo t a) (hother : other ≠ eit)
    (htable : usable vars serviceId (tableAt (a + m)) = some other)
    (hbefore : ∀ l < m, usable vars serviceId (tableAt (a + l)) = none)
    (hstored : storedAt other ((n + k) % (other.lastSectionNumber + 1)) ≠ none)
    (hmissing : ∀ l < k, storedAt other ((n + l) % (other.lastSectionNumber + 1)) = none) :
    rank vars serviceId eit t i
        (if ((n + k) % (other.lastSectionNumber + 1) + 1) % (other.lastSectionNumber + 1) = 0 then
          a + m + 1 else a + m)
        (((n + k) % (other.lastSectionNumber + 1) + 1) % (other.lastSectionNumber + 1)) <
      rank vars serviceId eit t i a n := by
  have hhas : HasStored other := ⟨_, Nat.le_of_lt_succ (Nat.mod_lt _ (Nat.succ_pos _)), hstored⟩
  have hend := h.others other _ htable hhas hother
  generalize hnext : ((n + k) % (other.lastSectionNumber + 1) + 1) % (other.lastSectionNumber + 1) = n'
  have hle : n' ≤ other.lastSectionNumber := by
    rw [← hnext]
    exact Nat.le_of_lt_succ (Nat.mod_lt _ (Nat.succ_pos _))
  by_cases hwrap : n' = 0
  · have hafter : tablesTo t (a + m + 1) = tablesTo t a - (m + 1) := by
      rw [Nat.add_assoc, tablesTo_add hm]
    rw [if_pos hwrap, hwrap]
    by_cases hsettled : Settled vars serviceId a n
    · rw [rank_before hsettled (by omega)]
      have hn : n ≤ 255 := by
        by_cases hn : n = 0
        · omega
        · obtain ⟨-, -, hn⟩ := hsettled.own hn htable hbefore
          omega
      by_cases hzero : tablesTo t (a + m + 1) = 0
      · rw [rank_here (.inl rfl) hzero, sectionsTo_zero h.within]
        omega
      · rw [rank_before (.inl rfl) hzero]
        omega
    · have hzero : Settled vars serviceId (a + m + 1) 0 := .inl rfl
      have := rank_settled_lt (t := t) hzero h.within hlast
      rw [rank_unsettled hsettled]
      exact Nat.lt_of_lt_of_le this (Nat.le_add_right _ _)
  · have hafter : Settled vars serviceId (a + m) n' := .inr ⟨other, htable, hhas, hle⟩
    have htables : tablesTo t (a + m) = tablesTo t a - m := tablesTo_add (Nat.le_of_lt hm)
    rw [if_neg hwrap]
    by_cases hsettled : Settled vars serviceId a n
    · rw [rank_before hsettled (by omega), rank_before hafter (by omega)]
      by_cases hn : n = 0
      · omega
      · obtain ⟨hm', -, hn'⟩ := hsettled.own hn htable hbefore
        -- the last section is stored, so the search does not wrap
        have hforward : n + k ≤ other.lastSectionNumber := by
          by_contra hfar
          refine hend ?_
          have hlate := hmissing (other.lastSectionNumber - n) (by omega)
          rwa [Nat.add_sub_cancel' hn', Nat.mod_eq_of_lt (Nat.lt_succ_self _)] at hlate
        rw [Nat.mod_eq_of_lt (show n + k < other.lastSectionNumber + 1 by omega)] at hnext
        by_cases hsum : n + k + 1 = other.lastSectionNumber + 1
        · rw [hsum, Nat.mod_self] at hnext
          exact absurd hnext.symm hwrap
        · rw [Nat.mod_eq_of_lt (by omega)] at hnext
          omega
    · have := rank_settled_lt (t := t) hafter h.within hlast
      rw [rank_unsettled hsettled]
      exact Nat.lt_of_lt_of_le this (Nat.le_add_right _ _)

/-- A call sends the target or brings it nearer. -/
theorem Target.nearer {chosen : Option (EitPacket × Nat)} {b n' : Nat}
    (h : Target vars serviceId eit t i) (hvars : SectionNumbers vars)
    (hselects : Selects vars serviceId a n chosen b n') :
    chosen = some (eit, i) ∨
      rank vars serviceId eit t i b n' < rank vars serviceId eit t i a n := by
  have hlast := hvars eit (usable_mem h.table)
  cases hselects with
  | noTable unusable =>
    have hnone := unusable _ (tablesTo_lt t a)
    rw [tableAt_tablesTo, h.table] at hnone
    cases hnone
  | noSection round table before missing => exact .inr (h.nearer_empty hlast table before missing)
  | stored round table before number within stored missing =>
    rename_i m k j other
    subst number
    by_cases hother : other = eit
    · subst hother
      by_cases hj : (n + k) % (other.lastSectionNumber + 1) = i
      · exact .inl (by rw [hj])
      · refine .inr (h.nearer_own hlast ?_ table before hj missing)
        have hsame : tableAt (a + m) = tableAt t := by
          rw [← (usable_matches table).2, (usable_matches h.table).2]
        rw [tableAt_inj] at hsame
        simp only [tablesTo]
        omega
    · refine .inr (h.nearer_other hlast (hvars other (usable_mem table)) ?_ hother table before stored
        missing)
      have hle := h.not_past before
      refine Nat.lt_of_le_of_ne hle fun hm => hother ?_
      rw [hm, tableAt_tablesTo, h.table] at table
      exact (Option.some.inj table).symm

end rank

/-- The channel after `k` calls with a fixed store. -/
def afterCalls (vars : RewriteParameters) (bufs : Nat → Packet) (channel : MumudvbChannel) :
    Nat → Checked MumudvbChannel
  | 0 => .ok channel
  | k + 1 => do
    let (_, next) ← eitRewriteNewChannelPacket vars channel (bufs 0)
    afterCalls vars (fun i => bufs (i + 1)) next k

/-- A call chooses section `i` of `eit` and sends it. -/
def SendsSection (vars : RewriteParameters) (channel : MumudvbChannel) (buf : Packet)
    (eit : EitPacket) (i : Nat) : Prop :=
  eitChosen vars channel = .ok (some (eit, i)) ∧
    ∃ pkt packets next, storedAt eit i = some pkt ∧
      eitRewriteNewChannelPacket vars channel buf = .ok (packets, next) ∧
      Carried true (sectionData pkt) packets

/-- The sender of one channel, from its first call on: what is stored may change between two calls,
and everything of the channel but the state of its sender. -/
def sender : System MumudvbChannel Event where
  Initial channel :=
    channel.eitSectionToSend = 0 ∧ channel.eitTableIdToSend = 0 ∧ channel.eitCc = 0
  Step channel e next :=
    match e with
    | .call vars buf => WellStored vars ∧
        ∃ packets, eitRewriteNewChannelPacket vars channel buf = .ok (packets, next)
    | .other changed => next = changed ∧ changed.eitSectionToSend = channel.eitSectionToSend ∧
        changed.eitTableIdToSend = channel.eitTableIdToSend ∧ changed.eitCc = channel.eitCc

/-- Every stored section of the service is sent within a bounded number of calls that see the
start of a section, wherever the sender stands. -/
def Covers (vars : RewriteParameters) (serviceId : Int) : Prop :=
  ∃ bound, ∀ past channel, Run sender past channel → channel.serviceId = serviceId →
    channel.channelReady.isReady = true → ∀ bufs : Nat → Packet,
    (∀ k, payloadUnitStartIndicator (bufs k).cells = true) →
    ∀ eit ∈ vars.eitPackets, (eit.serviceId : Int) = serviceId →
    ∀ i ≤ eit.lastSectionNumber, storedAt eit i ≠ none →
      ∃ k ≤ bound, ∃ after, afterCalls vars bufs channel k = .ok after ∧
        SendsSection vars after (bufs k) eit i

/-- Every table of the service with a section is the one the search finds, and where there are two
the last section of each is stored. -/
structure Rotates (vars : RewriteParameters) (serviceId : Int) : Prop where
  found : ∀ eit ∈ vars.eitPackets, (eit.serviceId : Int) = serviceId → HasStored eit →
    ∃ t, usable vars serviceId (tableAt t) = some eit
  last : ∀ eit ∈ vars.eitPackets, ∀ other ∈ vars.eitPackets, (eit.serviceId : Int) = serviceId →
    (other.serviceId : Int) = serviceId → HasStored eit → HasStored other → other ≠ eit →
    storedAt other other.lastSectionNumber ≠ none

section rotation

variable {vars : RewriteParameters} {serviceId : Int} {eit : EitPacket} {i : Nat}
  {channel : MumudvbChannel}

/-- A call of a ready channel that sees a start: what it sends, and where it stands then. -/
theorem call_spec {buf : Packet} (hvars : WellStored vars) (hcc : channel.eitCc < 16)
    (hready : channel.channelReady.isReady = true)
    (hstart : payloadUnitStartIndicator buf.cells = true) :
    ∃ chosen b n packets next, Selects vars channel.serviceId (startIndex channel.eitTableIdToSend)
        channel.eitSectionToSend chosen b n ∧ eitChosen vars channel = .ok chosen ∧
      eitRewriteNewChannelPacket vars channel buf = .ok (packets, next) ∧
      next = { channel with
        eitCc := (channel.eitCc + packets.length) % 16
        eitSectionToSend := n
        eitTableIdToSend := tableAt b } ∧
      (∀ eit i, chosen = some (eit, i) → SendsSection vars channel buf eit i) := by
  obtain ⟨chosen, b, n, hselects, hchosen, hsend⟩ :=
    eitRewriteNewChannelPacket_selects hvars.numbers hready hstart
  obtain ⟨packets, hpackets, -, hsent⟩ := eitSendChosen_spec hvars hcc hselects
  refine ⟨chosen, b, n, packets, _, hselects, hchosen, hsend.trans hpackets, rfl, ?_⟩
  rintro eit i rfl
  rcases hsent with ⟨hnone, -⟩ | ⟨eit', i', pkt, heq, hpkt, hcarried⟩
  · cases hnone
  · cases heq
    exact ⟨hchosen, pkt, packets, _, hpkt, hsend.trans hpackets, hcarried⟩

/-- The target is sent within as many calls as its rank. -/
theorem Target.sent {t : Nat} (hvars : WellStored vars) (h : Target vars serviceId eit t i)
    (bound : Nat) :
    ∀ (channel : MumudvbChannel) (bufs : Nat → Packet), channel.serviceId = serviceId →
      channel.eitCc < 16 → channel.channelReady.isReady = true →
      (∀ k, payloadUnitStartIndicator (bufs k).cells = true) →
      rank vars serviceId eit t i (startIndex channel.eitTableIdToSend) channel.eitSectionToSend ≤
        bound →
      ∃ k ≤ bound, ∃ after, afterCalls vars bufs channel k = .ok after ∧
        SendsSection vars after (bufs k) eit i := by
  induction bound with
  | zero =>
    intro channel bufs hservice hcc hready hstart hrank
    obtain ⟨chosen, b, n, packets, next, hselects, -, -, -, hsends⟩ :=
      call_spec hvars hcc hready (hstart 0)
    rw [hservice] at hselects
    rcases h.nearer hvars.numbers hselects with hchosen | hless
    · exact ⟨0, Nat.le_refl _, channel, rfl, hsends _ _ hchosen⟩
    · omega
  | succ bound ih =>
    intro channel bufs hservice hcc hready hstart hrank
    obtain ⟨chosen, b, n, packets, next, hselects, -, hcall, hnext, hsends⟩ :=
      call_spec hvars hcc hready (hstart 0)
    rw [hservice] at hselects
    rcases h.nearer hvars.numbers hselects with hchosen | hless
    · exact ⟨0, Nat.zero_le _, channel, rfl, hsends _ _ hchosen⟩
    · have hcounter : next.eitCc < 16 := by
        rw [hnext]
        exact Nat.mod_lt _ (by decide)
      have hnear : rank vars serviceId eit t i (startIndex next.eitTableIdToSend)
          next.eitSectionToSend ≤ bound := by
        rw [hnext]
        dsimp only
        rw [startIndex_tableAt, rank_mod]
        omega
      obtain ⟨k, hk, after, hafter, hsent⟩ := ih next (fun i => bufs (i + 1))
        (by rw [hnext]; exact hservice) hcounter (by rw [hnext]; exact hready)
        (fun k => hstart (k + 1)) hnear
      refine ⟨k + 1, Nat.succ_le_succ hk, after, ?_, hsent⟩
      rw [afterCalls, hcall]
      exact hafter

theorem rank_le (t a n : Nat) (hi : i ≤ eit.lastSectionNumber) (hlast : eit.lastSectionNumber < 256) :
    rank vars serviceId eit t i a n ≤ 17 * 257 * 256 + 16 := by
  by_cases h : Settled vars serviceId a n
  · have := rank_settled_lt (t := t) h hi hlast
    omega
  · rw [rank_unsettled h]
    have := tablesTo_lt t a
    omega

theorem sender_counter {past : List Event} (hrun : Run sender past channel) :
    channel.eitCc < 16 := by
  refine hrun.invariant (P := fun _ channel => channel.eitCc < 16) ?_ ?_
  · rintro channel ⟨-, -, hzero⟩
    omega
  · rintro past channel e next hcc hstep
    cases e with
    | call vars buf =>
      obtain ⟨hvars, packets, hcall⟩ := hstep
      obtain ⟨packets', next', hcall', hafter, -⟩ := eitRewriteNewChannelPacket_sends buf hvars hcc
      rw [hcall] at hcall'
      cases hcall'
      rw [hafter]
      exact Nat.mod_lt _ (by decide)
    | other changed =>
      obtain ⟨rfl, -, -, hsame⟩ := hstep
      rwa [hsame]

theorem Rotates.covers (hvars : WellStored vars) (h : Rotates vars serviceId) :
    Covers vars serviceId := by
  refine ⟨17 * 257 * 256 + 16, ?_⟩
  intro past channel hrun hservice hready bufs hstart eit heit heitService i hi hstored
  have hhas : HasStored eit := ⟨i, hi, hstored⟩
  obtain ⟨t, ht⟩ := h.found eit heit heitService hhas
  have htarget : Target vars serviceId eit t i := by
    refine ⟨ht, hi, hstored, fun other k hother hhas' hne => ?_⟩
    exact h.last eit heit other (usable_mem hother) heitService (usable_matches hother).1 hhas hhas'
      hne
  exact htarget.sent hvars _ channel bufs hservice (sender_counter hrun) hready hstart
    (rank_le t _ _ hi (hvars.numbers eit heit))

theorem eitChosen_usable (h : eitChosen vars channel = .ok (some (eit, i))) :
    ∃ t, usable vars channel.serviceId (tableAt t) = some eit := by
  rw [eitChosen, sectionStart_eq] at h
  rcases @eitSearch_spec vars channel.serviceId (startIndex channel.eitTableIdToSend) 0 eitFuel
      (by decide) (by decide)
    with ⟨m, found, -, -, hfound, -, hsearch⟩ | ⟨-, hsearch⟩
  · rw [Nat.add_zero] at hsearch
    rw [hsearch, bind_ok] at h
    obtain ⟨number, -, h⟩ := bind_eq_ok.mp h
    obtain ⟨stored, -, h⟩ := bind_eq_ok.mp h
    obtain ⟨pkt, -, heq⟩ := Option.map_eq_some_iff.mp (Except.ok.inj h)
    cases heq
    exact ⟨_, hfound⟩
  · rw [Nat.add_zero] at hsearch
    rw [hsearch] at h
    cases h

/-- What every call keeps holds after any number of them. -/
theorem afterCalls_keeps {P : MumudvbChannel → Prop} {after : MumudvbChannel}
    (hkeep : ∀ channel buf packets next, P channel →
      payloadUnitStartIndicator buf.cells = true →
      eitRewriteNewChannelPacket vars channel buf = .ok (packets, next) → P next)
    {k : Nat} : ∀ {channel : MumudvbChannel} {bufs : Nat → Packet}, P channel →
      (∀ k, payloadUnitStartIndicator (bufs k).cells = true) →
      afterCalls vars bufs channel k = .ok after → P after := by
  induction k with
  | zero =>
    intro channel bufs hp hstart h
    cases h
    exact hp
  | succ k ih =>
    intro channel bufs hp hstart h
    obtain ⟨⟨packets, next⟩, hcall, h⟩ := bind_eq_ok.mp h
    exact ih (hkeep _ _ _ _ hp (hstart 0) hcall) (fun k => hstart (k + 1)) h

/-- A table without its last section keeps the rotation: the number never comes round to 0. -/
theorem selects_caught {a n b n' : Nat} {chosen : Option (EitPacket × Nat)}
    (h : Selects vars serviceId a n chosen b n') (htable : usable vars serviceId (tableAt a) = some eit)
    (hhas : HasStored eit) (hlast : storedAt eit eit.lastSectionNumber = none) :
    (∃ i, chosen = some (eit, i)) ∧ b = a := by
  have hfirst : ∀ {m : Nat} {other : EitPacket}, usable vars serviceId (tableAt (a + m)) = some other →
      (∀ l < m, usable vars serviceId (tableAt (a + l)) = none) → m = 0 ∧ other = eit := by
    intro m other hother hbefore
    cases m with
    | zero =>
      rw [Nat.add_zero, htable] at hother
      exact ⟨rfl, (Option.some.inj hother).symm⟩
    | succ m =>
      have hnone := hbefore 0 (Nat.succ_pos m)
      rw [Nat.add_zero, htable] at hnone
      cases hnone
  cases h with
  | noTable unusable =>
    have hnone := unusable 0 (by decide)
    rw [Nat.add_zero, htable] at hnone
    cases hnone
  | noSection round table before missing =>
    obtain ⟨-, rfl⟩ := hfirst table before
    obtain ⟨i, hi, hstored⟩ := hhas
    exact absurd (missing i hi) hstored
  | stored round table before number within stored missing =>
    rename_i m k i other
    obtain ⟨rfl, rfl⟩ := hfirst table before
    refine ⟨⟨i, rfl⟩, if_neg fun hwrap => stored ?_⟩
    have hi : i ≤ other.lastSectionNumber := by
      rw [number]
      exact Nat.le_of_lt_succ (Nat.mod_lt _ (Nat.succ_pos _))
    have hend : i = other.lastSectionNumber := by
      by_contra hne
      rw [Nat.mod_eq_of_lt (by omega)] at hwrap
      cases hwrap
    rw [hend, hlast]

/-- A ready channel of the service. -/
structure Serves (serviceId : Int) (channel : MumudvbChannel) : Prop where
  service : channel.serviceId = serviceId
  ready : channel.channelReady.isReady = true
  counter : channel.eitCc < 16

/-- Its sender stands in the table of index `t`. -/
structure StandsIn (serviceId : Int) (t : Nat) (channel : MumudvbChannel) : Prop
    extends Serves serviceId channel where
  index : startIndex channel.eitTableIdToSend = t % 17

theorem Serves.kept {buf : Packet} {packets : List Packet} {next : MumudvbChannel}
    (hvars : WellStored vars) (h : Serves serviceId channel)
    (hstart : payloadUnitStartIndicator buf.cells = true)
    (hcall : eitRewriteNewChannelPacket vars channel buf = .ok (packets, next)) :
    Serves serviceId next ∧ ∃ chosen b n, next.eitTableIdToSend = tableAt b ∧
      Selects vars serviceId (startIndex channel.eitTableIdToSend) channel.eitSectionToSend chosen
        b n := by
  obtain ⟨chosen, b, n, packets', next', hselects, -, hcall', hnext, -⟩ :=
    call_spec hvars h.counter h.ready hstart
  rw [hcall] at hcall'
  cases hcall'
  rw [h.service] at hselects
  subst hnext
  exact ⟨⟨h.service, h.ready, Nat.mod_lt _ (by decide)⟩, chosen, b, n, rfl, hselects⟩

theorem StandsIn.kept {t : Nat} {buf : Packet} {packets : List Packet} {next : MumudvbChannel}
    (hvars : WellStored vars) (htable : usable vars serviceId (tableAt t) = some eit)
    (hhas : HasStored eit) (hlast : storedAt eit eit.lastSectionNumber = none)
    (h : StandsIn serviceId t channel) (hstart : payloadUnitStartIndicator buf.cells = true)
    (hcall : eitRewriteNewChannelPacket vars channel buf = .ok (packets, next)) :
    StandsIn serviceId t next := by
  obtain ⟨hserves, chosen, b, n, hb, hselects⟩ := h.toServes.kept hvars hstart hcall
  rw [h.index] at hselects
  obtain ⟨-, rfl⟩ := selects_caught hselects (by rwa [tableAt_mod]) hhas hlast
  refine ⟨hserves, ?_⟩
  rw [hb, startIndex_tableAt, Nat.mod_mod]

theorem StandsIn.chosen {t : Nat} (hvars : WellStored vars)
    (htable : usable vars serviceId (tableAt t) = some eit) (hhas : HasStored eit)
    (hlast : storedAt eit eit.lastSectionNumber = none) (h : StandsIn serviceId t channel) :
    ∃ i, eitChosen vars channel = .ok (some (eit, i)) := by
  obtain ⟨chosen, b, n, packets, next, hselects, hchosen, -⟩ :=
    call_spec hvars h.counter h.ready startPacket_starts
  rw [h.service, h.index] at hselects
  obtain ⟨⟨i, hi⟩, -⟩ := selects_caught hselects (by rwa [tableAt_mod]) hhas hlast
  exact ⟨i, hi ▸ hchosen⟩

/-- The channel of a service before the first call. -/
def senderOf (service : Nat) : MumudvbChannel :=
  { zeroedChannel with channelReady := .ready, serviceId := service }

theorem usable_oneTable (service : Nat) (tableId : UInt8) :
    usable (oneStored service tableId) service tableId = some (oneTable service tableId) := by
  have hfind : eitFindByTsid (oneStored service tableId) service tableId =
      some (oneTable service tableId) := List.find?_cons_of_pos (decide_eq_true ⟨rfl, rfl⟩)
  rw [usable, hfind]
  rfl

/-- When only the table before it is stored, one call leaves the sender in the table of index `t`. -/
theorem exists_standsIn (service t : Nat) :
    ∃ past channel, Run sender past channel ∧ StandsIn service t channel := by
  have hvars := oneStored_wellStored service (tableAt (t + 16))
  have htable := usable_oneTable service (tableAt (t + 16))
  have hstored : storedAt (oneTable service (tableAt (t + 16))) 0 = some twoPackets := rfl
  have hstart : Run sender [] (senderOf service) := .start ⟨rfl, rfl, rfl⟩
  obtain ⟨chosen, b, n, packets, next, hselects, -, hcall, hnext, -⟩ :=
    call_spec hvars (show (senderOf service).eitCc < 16 from Nat.succ_pos 15) rfl startPacket_starts
  have hstep : sender.Step (senderOf service)
      (.call (oneStored service (tableAt (t + 16))) startPacket) next := ⟨hvars, packets, hcall⟩
  refine ⟨_, next, .next hstart hstep, ?_⟩
  have hb : b % 17 = t % 17 := by
    cases hselects with
    | noTable unusable =>
      have hnone := unusable _ (tablesTo_lt (t + 16) (startIndex (senderOf service).eitTableIdToSend))
      rw [tableAt_tablesTo] at hnone
      cases htable.symm.trans hnone
    | noSection round table before missing =>
      rw [List.mem_singleton.mp (usable_mem table)] at missing
      cases hstored.symm.trans (missing 0 (Nat.zero_le _))
    | stored round table before number within stored missing =>
      have honly := List.mem_singleton.mp (usable_mem table)
      have hindex := (usable_matches table).2.symm
      subst honly
      have hsame := tableAt_inj.mp hindex
      refine (congrArg (· % 17) (if_pos (Nat.mod_one _))).trans ?_
      show (_ + 1) % 17 = t % 17
      omega
  subst hnext
  refine ⟨⟨rfl, rfl, Nat.mod_lt _ (by decide)⟩, ?_⟩
  rw [startIndex_tableAt, hb]

theorem Covers.found (hvars : WellStored vars) (h : Covers vars serviceId)
    (heit : eit ∈ vars.eitPackets) (hservice : (eit.serviceId : Int) = serviceId)
    (hhas : HasStored eit) : ∃ t, usable vars serviceId (tableAt t) = some eit := by
  obtain ⟨bound, hall⟩ := h
  obtain ⟨i, hi, hstored⟩ := hhas
  subst hservice
  have hstarts : ∀ k : Nat, payloadUnitStartIndicator startPacket.cells = true :=
    fun _ => startPacket_starts
  have hstart : Run sender [] (senderOf eit.serviceId) := .start ⟨rfl, rfl, rfl⟩
  have hserves : Serves eit.serviceId (senderOf eit.serviceId) := ⟨rfl, rfl, Nat.succ_pos 15⟩
  obtain ⟨k, -, after, hafter, hchosen, -⟩ :=
    hall _ _ hstart rfl rfl (fun _ => startPacket) hstarts eit heit rfl i hi hstored
  have hkept := afterCalls_keeps (fun _ _ _ _ h hpusi hcall => (h.kept hvars hpusi hcall).1)
    hserves hstarts hafter
  obtain ⟨t, ht⟩ := eitChosen_usable hchosen
  exact ⟨t, hkept.service ▸ ht⟩

theorem Covers.rotates (hvars : WellStored vars) (h : Covers vars serviceId) :
    Rotates vars serviceId := by
  refine ⟨fun eit heit hservice hhas => h.found hvars heit hservice hhas, ?_⟩
  intro eit heit other hother hservice hotherService hhas hotherHas hne hmissing
  obtain ⟨t, htable⟩ := h.found hvars hother hotherService hotherHas
  obtain ⟨bound, hall⟩ := h
  subst hservice
  obtain ⟨past, channel, hrun, hstands⟩ := exists_standsIn eit.serviceId t
  have hstarts : ∀ k : Nat, payloadUnitStartIndicator startPacket.cells = true :=
    fun _ => startPacket_starts
  obtain ⟨i, hi, hstored⟩ := hhas
  obtain ⟨k, -, after, hafter, hchosen, -⟩ := hall _ _ hrun hstands.service hstands.ready
    (fun _ => startPacket) hstarts eit heit rfl i hi hstored
  -- the sender never leaves the table of `other`
  have hkept := afterCalls_keeps (fun _ _ _ _ h hpusi hcall =>
    StandsIn.kept hvars htable hotherHas hmissing h hpusi hcall) hstands hstarts hafter
  obtain ⟨j, hother'⟩ := hkept.chosen hvars htable hotherHas hmissing
  rw [hchosen] at hother'
  cases hother'
  exact hne rfl

/-- The rotation covers the store exactly when no table without its last section can keep it. -/
theorem covers_iff_rotates (hvars : WellStored vars) :
    Covers vars serviceId ↔ Rotates vars serviceId :=
  ⟨fun h => h.rotates hvars, fun h => h.covers hvars⟩

end rotation

theorem covers_oneStored : WellStored (oneStored 0 0x4e) ∧ Rotates (oneStored 0 0x4e) 0 ∧
    Covers (oneStored 0 0x4e) 0 := by
  have hwell := oneStored_wellStored 0 0x4e
  have hrotates : Rotates (oneStored 0 0x4e) 0 := by
    refine ⟨fun eit heit _ _ => ?_, fun eit heit other hother _ _ _ _ hne => ?_⟩
    · rw [List.mem_singleton.mp heit]
      exact ⟨0, usable_oneTable 0 0x4e⟩
    · rw [List.mem_singleton.mp heit, List.mem_singleton.mp hother] at hne
      exact absurd rfl hne
  exact ⟨hwell, hrotates, (covers_iff_rotates hwell).mpr hrotates⟩

/-- Present and following events with the first of two sections, and a table of scheduled events. -/
def caughtStored : RewriteParameters :=
  { initRewrV with
    eitPackets := [{ oneTable 0 0x4e with lastSectionNumber := 1 }, oneTable 0 0x50] }

/-- The sender never reaches the second table. -/
theorem not_covers_caughtStored : WellStored caughtStored ∧ ¬ Covers caughtStored 0 := by
  have hwell : WellStored caughtStored := by
    constructor
    · intro eit heit
      rcases List.mem_pair.mp heit with rfl | rfl <;> decide
    · intro eit heit i pkt hpkt
      have hsections : storedAt (oneTable 0 0x4e) i = some pkt := by
        rcases List.mem_pair.mp heit with rfl | rfl <;> exact hpkt
      exact (oneStored_wellStored 0 0x4e).lengths _ (List.mem_singleton.mpr rfl) i pkt hsections
  refine ⟨hwell, fun h => ?_⟩
  have hfirst : storedAt (oneTable 0 0x50) 0 ≠ none := Option.some_ne_none twoPackets
  exact (h.rotates hwell).last (oneTable 0 0x50) (List.mem_pair.mpr (.inr rfl))
    { oneTable 0 0x4e with lastSectionNumber := 1 } (List.mem_pair.mpr (.inl rfl)) rfl rfl
    ⟨0, Nat.le_refl _, hfirst⟩ ⟨0, Nat.zero_le _, hfirst⟩
    (fun heq => absurd (congrArg EitPacket.lastSectionNumber heq) (by decide)) rfl

end MuMuDVB.EitRotation
