import MuMuDVB.RewriteEit

/-!
# The two searches of the EIT sender

`eit_rewrite_new_channel_packet` goes round the table ids until it finds a
usable table, then round the section numbers of that table until it finds a
stored section. Both searches stop at the first place that will do, or end
where they began.
-/
namespace MuMuDVB.EitSearch

open CheckedMemory MuMuDVB.TsHeader MuMuDVB.Ts MuMuDVB.Channel MuMuDVB.RewriteEit

set_option maxRecDepth 20000

/-- The table ids in the order of `eit_next_table_id`, round and round. -/
def tableAt (k : Nat) : UInt8 := if k % 17 = 0 then 0x4e else UInt8.ofNat (0x4f + k % 17)

/-- Where the search for a table starts. -/
def startIndex (tableId : UInt8) : Nat :=
  if tableId &&& 0xf0 = 0x50 then tableId.toNat - 0x4f else 0

/-- The table that the search stops at. -/
def usable (vars : RewriteParameters) (serviceId : Int) (tableId : UInt8) : Option EitPacket :=
  (eitFindByTsid vars serviceId tableId).filter EitPacket.fullEitOk

/-- `full_eit_sections[i]`, if `sections_stored[i]`. -/
def storedAt (eit : EitPacket) (i : Nat) : Option MumudvbTsPacket := (eit.sections.cells[i]?).join

/-- What the types of the fields give: a section number is a byte. -/
def SectionNumbers (vars : RewriteParameters) : Prop :=
  ∀ eit ∈ vars.eitPackets, eit.lastSectionNumber < 256

/-- `Selects vars serviceId a n chosen a' n'`: from table `a` and section `n`, a call chooses a
table and a section number of it to send, and goes on from table `a'` and section `n'`. -/
inductive Selects (vars : RewriteParameters) (serviceId : Int) (a n : Nat) :
    Option (EitPacket × Nat) → Nat → Nat → Prop where
  | noTable (unusable : ∀ l < 17, usable vars serviceId (tableAt (a + l)) = none) :
      Selects vars serviceId a n none a n
  | noSection {m : Nat} {eit : EitPacket} (round : m < 17)
      (table : usable vars serviceId (tableAt (a + m)) = some eit)
      (before : ∀ l < m, usable vars serviceId (tableAt (a + l)) = none)
      (missing : ∀ i ≤ eit.lastSectionNumber, storedAt eit i = none) :
      Selects vars serviceId a n none (a + m + 1) (n % (eit.lastSectionNumber + 1))
  | stored {m k i : Nat} {eit : EitPacket} (round : m < 17)
      (table : usable vars serviceId (tableAt (a + m)) = some eit)
      (before : ∀ l < m, usable vars serviceId (tableAt (a + l)) = none)
      (number : i = (n + k) % (eit.lastSectionNumber + 1)) (within : k ≤ eit.lastSectionNumber)
      (stored : storedAt eit i ≠ none)
      (missing : ∀ l < k, storedAt eit ((n + l) % (eit.lastSectionNumber + 1)) = none) :
      Selects vars serviceId a n (some (eit, i))
        (if (i + 1) % (eit.lastSectionNumber + 1) = 0 then a + m + 1 else a + m)
        ((i + 1) % (eit.lastSectionNumber + 1))

/-- The section of `eit` that a call finds to send. -/
def eitChosenOf (eit : EitPacket) (channel : MumudvbChannel) :
    Checked (Option (EitPacket × Nat)) := do
  let number ← eitNextSection (eit.lastSectionNumber + 1) eit
    (channel.eitSectionToSend % (eit.lastSectionNumber + 1))
  return (← eit.sections.read number).map fun _ => (eit, number)

/-- The table and the section of it that a call finds to send, as far as "ok we send this!". -/
def eitChosen (vars : RewriteParameters) (channel : MumudvbChannel) :
    Checked (Option (EitPacket × Nat)) := do
  let sectionStart :=
    if channel.eitTableIdToSend ≠ 0x4e ∧ channel.eitTableIdToSend &&& 0xf0 ≠ 0x50 then 0x4e
    else channel.eitTableIdToSend
  match ← eitSearch eitFuel vars channel.serviceId sectionStart sectionStart with
  | (none, _) => return none
  | (some eit, _) => eitChosenOf eit channel

/-- The packets of what was chosen, and the channel after them. -/
def eitSendChosen (channel : MumudvbChannel) (a n : Nat) :
    Option (EitPacket × Nat) → Checked (List Packet × MumudvbChannel)
  | none => .ok ([], { channel with eitSectionToSend := n, eitTableIdToSend := tableAt a })
  | some (eit, i) => do
    let pkt := (storedAt eit i).getD zeroed
    let data ← pkt.dataFull.slice 0 pkt.lenFull
    let (packets, cc) ← eitPackets (maxTsSize + 1) true channel.eitCc data
    return (packets, { channel with
      eitCc := cc
      eitSectionToSend := n
      eitTableIdToSend := tableAt a })

theorem tableAt_mod (k : Nat) : tableAt (k % 17) = tableAt k := by
  simp [tableAt]

@[simp] theorem tableAt_add_cycle (k : Nat) : tableAt (k + 17) = tableAt k := by
  simp [tableAt]

theorem eitNextTableId_tableAt (k : Nat) : eitNextTableId (tableAt k) = tableAt (k + 1) := by
  have hall : ∀ i : Fin 17, eitNextTableId (tableAt i.val) = tableAt (i.val + 1) := by decide
  have hsucc : (k % 17 + 1) % 17 = (k + 1) % 17 := by omega
  rw [← tableAt_mod k, hall ⟨k % 17, Nat.mod_lt _ (by decide)⟩, ← tableAt_mod (k % 17 + 1), hsucc,
    tableAt_mod]

theorem startIndex_tableAt (k : Nat) : startIndex (tableAt k) = k % 17 := by
  have hall : ∀ i : Fin 17, startIndex (tableAt i.val) = i.val := by decide
  rw [← tableAt_mod]
  exact hall ⟨k % 17, Nat.mod_lt _ (by decide)⟩

/-- The check that the search begins with a table of the present or scheduled events. -/
theorem sectionStart_eq (tableId : UInt8) :
    (if tableId ≠ 0x4e ∧ tableId &&& 0xf0 ≠ 0x50 then 0x4e else tableId) =
      tableAt (startIndex tableId) := by
  have hall : ∀ b : Fin 256, (if UInt8.ofNat b.val ≠ 0x4e ∧ UInt8.ofNat b.val &&& 0xf0 ≠ 0x50 then
      0x4e else UInt8.ofNat b.val) = tableAt (startIndex (UInt8.ofNat b.val)) := by decide
  have h := hall ⟨tableId.toNat, tableId.toNat_lt⟩
  rwa [UInt8.ofNat_toNat] at h

theorem tableAt_inj {a b : Nat} : tableAt a = tableAt b ↔ a % 17 = b % 17 := by
  constructor
  · intro h
    rw [← startIndex_tableAt, h, startIndex_tableAt]
  · intro h
    rw [← tableAt_mod, h, tableAt_mod]

section searches

variable {vars : RewriteParameters} {serviceId : Int} {eit : EitPacket} {a j n : Nat}

/-- The search for a table, from the `j`th after the start on. -/
theorem eitSearch_spec {fuel : Nat} (hj : j < 17) (hfuel : 17 ≤ fuel + j) :
    (∃ m eit, j ≤ m ∧ m < 17 ∧ usable vars serviceId (tableAt (a + m)) = some eit ∧
      (∀ l, j ≤ l → l < m → usable vars serviceId (tableAt (a + l)) = none) ∧
      eitSearch fuel vars serviceId (tableAt a) (tableAt (a + j)) =
        .ok (some eit, tableAt (a + m))) ∨
    ((∀ l, j ≤ l → l < 17 → usable vars serviceId (tableAt (a + l)) = none) ∧
      eitSearch fuel vars serviceId (tableAt a) (tableAt (a + j)) = .ok (none, tableAt a)) := by
  induction fuel generalizing j with
  | zero => omega
  | succ fuel ih =>
    cases hfound : usable vars serviceId (tableAt (a + j)) with
    | some eit =>
      refine .inl ⟨j, eit, Nat.le_refl _, hj, hfound, fun l h h' => by omega, ?_⟩
      rw [usable] at hfound
      rw [eitSearch, hfound]
    | none =>
      have hnext : eitSearch (fuel + 1) vars serviceId (tableAt a) (tableAt (a + j)) =
          if tableAt (a + (j + 1)) ≠ tableAt a then
            eitSearch fuel vars serviceId (tableAt a) (tableAt (a + (j + 1)))
          else .ok (none, tableAt (a + (j + 1))) := by
        rw [usable] at hfound
        rw [eitSearch, hfound]
        dsimp only
        rw [eitNextTableId_tableAt, Nat.add_assoc]
      rw [hnext]
      by_cases hlast : j + 1 = 17
      · refine .inr ⟨fun l h h' => ?_, ?_⟩
        · rwa [show l = j by omega]
        · rw [hlast, tableAt_add_cycle, if_neg (not_not.mpr rfl)]
      · have hround : tableAt (a + (j + 1)) ≠ tableAt a := by
          rw [ne_eq, tableAt_inj]
          omega
        rw [if_pos hround]
        rcases ih (j := j + 1) (by omega) (by omega) with
          ⟨m, eit, hjm, hm, heit, hbefore, hsearch⟩ | ⟨hnone, hsearch⟩
        · refine .inl ⟨m, eit, by omega, hm, heit, fun l h h' => ?_, hsearch⟩
          by_cases hl : l = j
          · rwa [hl]
          · exact hbefore l (by omega) h'
        · refine .inr ⟨fun l h h' => ?_, hsearch⟩
          by_cases hl : l = j
          · rwa [hl]
          · exact hnone l (by omega) h'

theorem read_sections (h : n < 256) : eit.sections.read n = .ok (storedAt eit n) := by
  have hlt : n < eit.sections.cells.length := by rwa [Buffer.length_cells]
  rw [eit.sections.read_ok (List.getElem?_eq_getElem hlt), storedAt,
    List.getElem?_eq_getElem hlt, Option.join_some]

/-- The search for a section, from the `j`th after the start on. -/
theorem eitNextSection_spec {fuel : Nat} (hlast : eit.lastSectionNumber < 256)
    (hfuel : fuel + j = eit.lastSectionNumber + 1) :
    (∃ m, j ≤ m ∧ m ≤ eit.lastSectionNumber ∧
      storedAt eit ((n + m) % (eit.lastSectionNumber + 1)) ≠ none ∧
      (∀ l, j ≤ l → l < m → storedAt eit ((n + l) % (eit.lastSectionNumber + 1)) = none) ∧
      eitNextSection fuel eit ((n + j) % (eit.lastSectionNumber + 1)) =
        .ok ((n + m) % (eit.lastSectionNumber + 1))) ∨
    ((∀ l, j ≤ l → l ≤ eit.lastSectionNumber →
        storedAt eit ((n + l) % (eit.lastSectionNumber + 1)) = none) ∧
      eitNextSection fuel eit ((n + j) % (eit.lastSectionNumber + 1)) =
        .ok (n % (eit.lastSectionNumber + 1))) := by
  induction fuel generalizing j with
  | zero =>
    refine .inr ⟨fun l h h' => by omega, ?_⟩
    rw [eitNextSection, show j = eit.lastSectionNumber + 1 by omega, Nat.add_mod_right]
  | succ fuel ih =>
    have hlt : (n + j) % (eit.lastSectionNumber + 1) < 256 :=
      Nat.lt_of_lt_of_le (Nat.mod_lt _ (Nat.succ_pos _)) (by omega)
    rw [eitNextSection, read_sections hlt, bind_ok]
    by_cases hstored : storedAt eit ((n + j) % (eit.lastSectionNumber + 1)) = none
    · rw [if_neg (by rw [hstored]; decide), Nat.mod_add_mod, Nat.add_assoc]
      rcases ih (j := j + 1) (by omega) with ⟨m, hjm, hm, hsome, hbefore, hsearch⟩ | ⟨hnone, hsearch⟩
      · refine .inl ⟨m, by omega, hm, hsome, fun l h h' => ?_, hsearch⟩
        by_cases hl : l = j
        · rwa [hl]
        · exact hbefore l (by omega) h'
      · refine .inr ⟨fun l h h' => ?_, hsearch⟩
        by_cases hl : l = j
        · rwa [hl]
        · exact hnone l (by omega) h'
    · refine .inl ⟨j, Nat.le_refl _, by omega, hstored, fun l h h' => by omega, ?_⟩
      rw [if_pos (Option.isSome_iff_ne_none.mpr hstored), pure_ok]

theorem usable_mem {tableId : UInt8} (h : usable vars serviceId tableId = some eit) :
    eit ∈ vars.eitPackets := by
  obtain ⟨hfound, -⟩ := Option.filter_eq_some_iff.mp h
  exact List.mem_of_find?_eq_some hfound

theorem usable_matches {tableId : UInt8} (h : usable vars serviceId tableId = some eit) :
    (eit.serviceId : Int) = serviceId ∧ eit.tableId = tableId := by
  obtain ⟨hfound, -⟩ := Option.filter_eq_some_iff.mp h
  have hmatch := List.find?_some hfound
  exact of_decide_eq_true hmatch

/-- All numbers up to the last one are met in one round. -/
theorem round_numbers {last i : Nat} (h : i ≤ last) (n : Nat) :
    ∃ l ≤ last, (n + l) % (last + 1) = i := by
  refine ⟨(i + (last + 1) - n % (last + 1)) % (last + 1), ?_, ?_⟩
  · exact Nat.le_of_lt_succ (Nat.mod_lt _ (Nat.succ_pos _))
  · have hn : n % (last + 1) < last + 1 := Nat.mod_lt _ (Nat.succ_pos _)
    rw [Nat.add_mod_mod, ← Nat.mod_add_mod, show n % (last + 1) + (i + (last + 1) - n % (last + 1)) =
      i + (last + 1) by omega, Nat.add_mod_right, Nat.mod_eq_of_lt (by omega)]

/-- The part after the search for a table. -/
theorem eitSendSection_selects {channel : MumudvbChannel} {m : Nat}
    (htable : channel.eitTableIdToSend = tableAt (a + m)) (hlast : eit.lastSectionNumber < 256)
    (hm : m < 17) (heit : usable vars serviceId (tableAt (a + m)) = some eit)
    (hbefore : ∀ l < m, usable vars serviceId (tableAt (a + l)) = none) :
    ∃ chosen b n, Selects vars serviceId a channel.eitSectionToSend chosen b n ∧
      eitChosenOf eit channel = .ok chosen ∧
      eitSendSection eit channel = eitSendChosen channel b n chosen := by
  rw [eitSendSection, eitChosenOf]
  rcases eitNextSection_spec (n := channel.eitSectionToSend) (j := 0) hlast rfl with
    ⟨k, -, hk, hstored, hmissing, hsearch⟩ | ⟨hmissing, hsearch⟩
  · simp only [Nat.add_zero] at hsearch
    have hi : (channel.eitSectionToSend + k) % (eit.lastSectionNumber + 1) < 256 :=
      Nat.lt_of_lt_of_le (Nat.mod_lt _ (Nat.succ_pos _)) hlast
    refine ⟨_, _, _, .stored hm heit hbefore rfl hk hstored fun l hl =>
      hmissing l (Nat.zero_le _) hl, ?_⟩
    obtain ⟨pkt, hpkt⟩ := Option.ne_none_iff_exists'.mp hstored
    rw [hsearch, bind_ok, bind_ok, read_sections hi, bind_ok, bind_ok, eitSendChosen, hpkt]
    refine ⟨rfl, ?_⟩
    dsimp only [Option.getD_some]
    rw [htable, eitNextTableId_tableAt, apply_ite tableAt]
  · simp only [Nat.add_zero] at hsearch
    have hnone : ∀ i ≤ eit.lastSectionNumber, storedAt eit i = none := by
      intro i hi
      obtain ⟨l, hl, rfl⟩ := round_numbers hi channel.eitSectionToSend
      exact hmissing l (Nat.zero_le _) hl
    have hstart := Nat.mod_lt channel.eitSectionToSend (Nat.succ_pos eit.lastSectionNumber)
    refine ⟨none, _, _, .noSection hm heit hbefore hnone, ?_⟩
    rw [hsearch, bind_ok, bind_ok, read_sections (Nat.lt_of_lt_of_le hstart hlast), bind_ok, bind_ok,
      hnone _ (Nat.le_of_lt_succ hstart), eitSendChosen]
    refine ⟨rfl, ?_⟩
    dsimp only
    rw [htable, eitNextTableId_tableAt, pure_ok]

/-- What a call does, said once. -/
theorem eitRewriteNewChannelPacket_selects {channel : MumudvbChannel} {buf : Packet}
    (hvars : SectionNumbers vars) (hready : channel.channelReady.isReady = true)
    (hstart : payloadUnitStartIndicator buf.cells = true) :
    ∃ chosen b n, Selects vars channel.serviceId (startIndex channel.eitTableIdToSend)
      channel.eitSectionToSend chosen b n ∧ eitChosen vars channel = .ok chosen ∧
      eitRewriteNewChannelPacket vars channel buf = eitSendChosen channel b n chosen := by
  rw [eitRewriteNewChannelPacket, if_pos ⟨hready, hstart⟩, eitChosen, sectionStart_eq]
  dsimp only
  rcases @eitSearch_spec vars channel.serviceId (startIndex channel.eitTableIdToSend) 0 eitFuel
      (by decide) (by decide)
    with ⟨m, eit, -, hm, heit, hbefore, hsearch⟩ | ⟨hnone, hsearch⟩
  · simp only [Nat.add_zero] at hsearch
    rw [hsearch, bind_ok, bind_ok]
    obtain ⟨chosen, b, n, hselects, hchosen, hsend⟩ := eitSendSection_selects
      (show { channel with eitTableIdToSend := _ }.eitTableIdToSend = _ from rfl)
      (hvars eit (usable_mem heit)) hm heit (fun l hl => hbefore l (Nat.zero_le _) hl)
    refine ⟨chosen, b, n, hselects, hchosen, hsend.trans ?_⟩
    cases chosen <;> rfl
  · simp only [Nat.add_zero] at hsearch
    refine ⟨none, _, _, .noTable fun l hl => hnone l (Nat.zero_le _) hl, ?_⟩
    rw [hsearch, bind_ok, bind_ok]
    exact ⟨rfl, rfl⟩

/-- What is chosen is a stored section of a table of the service. -/
theorem Selects.of_service {b k : Nat} {i : Nat}
    (h : Selects vars serviceId a n (some (eit, i)) b k) :
    eit ∈ vars.eitPackets ∧ (eit.serviceId : Int) = serviceId := by
  cases h with
  | stored round table before number within stored missing =>
    exact ⟨usable_mem table, (usable_matches table).1⟩

end searches

end MuMuDVB.EitSearch
