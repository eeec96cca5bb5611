import MuMuDVB.EitStore

/-!
# One node for a service and a table

`eit_find_by_tsid` looks at every node of `eit_packets`, `eit_new_packet` stops
at the last one without a look at it. A section for the last node is stored in
a new node behind it. The calls are made here with a record of what they store.
-/
namespace MuMuDVB.EitUnique

open CheckedMemory MuMuDVB.TsHeader MuMuDVB.Ts MuMuDVB.TsAssembler MuMuDVB.EitStore

/-- What identifies a node. -/
def key (node : EitNode) : Nat × UInt8 := (node.serviceId, node.tableId)

/-- The node that a section is for. -/
def sectionKey (eit : List UInt8) : Nat × UInt8 := (eitServiceId eit, tableId eit)

/-- A section that is stored, with the nodes that are there before. -/
structure Store where
  nodes : List EitNode
  eit : List UInt8

/-- The loop of `eit_rewrite_new_global_packet`, with a record. -/
def eitGlobalLoopRecorded (fuel : Nat) (calloc : Nat → Callocs) (buf : Option Packet)
    (vars : EitVars) : Checked (EitVars × List Store) :=
  match fuel with
  | 0 => .error .endless
  | fuel + 1 => do
    let (avail, fullEit) ← getTsPacket buf vars.fullEit
    let vars := { vars with fullEit := fullEit }
    if avail then
      let eit := fullEit.dataFull.cells
      let needed ← eitNeedUpdate vars.eitPackets eit
      if needed then
        match eitNewPacket (calloc fuel).node (eitServiceId eit) (tableId eit) vars.eitPackets with
        | none => return (vars, [])
        | some (before, node, behind) =>
          let store : Store := ⟨vars.eitPackets, eit⟩
          let (stored, node) ← storeSection (calloc fuel).fullSection fullEit (updateNode eit node)
          let vars := { vars with eitPackets := before ++ node :: behind }
          if stored then do
            let (vars, stores) ←
              eitGlobalLoopRecorded fuel calloc none { vars with eitNeedsUpdate := false }
            return (vars, store :: stores)
          else return (vars, [store])
      else return (vars, [])
    else return (vars, [])

/-- `eit_rewrite_new_global_packet`, with a record. -/
def eitRewriteRecorded (calloc : Nat → Callocs) (mem : TableMemory) (vars : EitVars) :
    Checked (EitVars × List Store) := do
  let vars ← (if vars.eitNeedsUpdate then .ok vars
    else do
      let needsUpdate ← eitNeedUpdateRaw vars.eitPackets mem
      return { vars with eitNeedsUpdate := needsUpdate } : Checked EitVars)
  if vars.eitNeedsUpdate then eitGlobalLoopRecorded takeFuel calloc (some mem.packet) vars
  else return (vars, [])

/-- A stream of packets, with all that is stored of it. -/
def eitStorePacketsRecorded : List (TableMemory × (Nat → Callocs)) → EitVars →
    Checked (EitVars × List Store)
  | [], vars => .ok (vars, [])
  | (mem, calloc) :: packets, vars => do
    let (vars, stores) ← eitRewriteRecorded calloc mem vars
    let (vars, later) ← eitStorePacketsRecorded packets vars
    return (vars, stores ++ later)

/-- The record of something that is done does not change it. -/
def Records {α β : Type} (recorded : Checked (α × β)) (x : Checked α) : Prop :=
  recorded.map Prod.fst = x

theorem Records.bind {α β γ : Type} {x : Checked γ} {f : γ → Checked (α × β)}
    {g : γ → Checked α} (h : ∀ c, Records (f c) (g c)) : Records (x >>= f) (x >>= g) := by
  cases x with
  | error e => rfl
  | ok c => exact h c

/-- Something more is recorded afterwards. -/
theorem Records.more {α β : Type} {recorded : Checked (α × β)} {x : Checked α}
    (h : Records recorded x) (f : β → β) :
    Records (do let (a, b) ← recorded; return (a, f b)) x := by
  subst h
  cases recorded <;> rfl

theorem eitGlobalLoop_recorded (fuel : Nat) (calloc : Nat → Callocs) (buf : Option Packet)
    (vars : EitVars) :
    Records (eitGlobalLoopRecorded fuel calloc buf vars) (eitGlobalLoop fuel calloc buf vars) := by
  induction fuel generalizing buf vars with
  | zero => rfl
  | succ fuel ih =>
    refine .bind fun popped => ?_
    obtain ⟨avail, fullEit⟩ := popped
    cases avail with
    | false => rfl
    | true =>
      refine .bind fun needed => ?_
      cases needed with
      | false => rfl
      | true =>
        simp only [if_true]
        cases eitNewPacket (calloc fuel).node (eitServiceId fullEit.dataFull.cells)
            (tableId fullEit.dataFull.cells) vars.eitPackets with
        | none => rfl
        | some place =>
          refine .bind fun result => ?_
          obtain ⟨stored, node⟩ := result
          cases stored with
          | false => rfl
          | true => exact (ih none _).more _

theorem eitRewrite_recorded (calloc : Nat → Callocs) (mem : TableMemory) (vars : EitVars) :
    Records (eitRewriteRecorded calloc mem vars) (eitRewriteNewGlobalPacket calloc mem vars) := by
  refine .bind fun vars => ?_
  split
  · exact eitGlobalLoop_recorded _ _ _ _
  · rfl

/-- The record does not change what is stored. -/
theorem eitStorePackets_recorded (packets : List (TableMemory × (Nat → Callocs)))
    (vars : EitVars) :
    Records (eitStorePacketsRecorded packets vars) (eitStorePackets packets vars) := by
  induction packets generalizing vars with
  | nil => rfl
  | cons packet packets ih =>
    obtain ⟨mem, calloc⟩ := packet
    rw [eitStorePackets, eitStorePacketsRecorded, ← eitRewrite_recorded calloc mem vars]
    cases eitRewriteRecorded calloc mem vars with
    | error e => rfl
    | ok result => exact (ih result.1).more _

/-- No two nodes are for one service and table. -/
def Unique (nodes : List EitNode) : Prop := (nodes.map key).Nodup

/-- The last node is the one that the section is for. -/
def Store.ForLast (s : Store) : Prop := s.nodes.getLast?.map key = some (sectionKey s.eit)

/-- The node that `eit_find_by_tsid` finds. -/
def eitFindByTsid (nodes : List EitNode) (k : Nat × UInt8) : Option Nat :=
  nodes.findIdx? fun node => key node = k

/-- `eit_new_packet` gives that node, or a new one if there is none. -/
def Store.SameNode (s : Store) : Prop :=
  ∀ calloc before node behind,
    eitNewPacket calloc (eitServiceId s.eit) (tableId s.eit) s.nodes =
      some (before, node, behind) →
    eitFindByTsid s.nodes (sectionKey s.eit) = some before.length ∨
      (eitFindByTsid s.nodes (sectionKey s.eit) = none ∧ before = s.nodes)

section place

variable {nodes before behind : List EitNode} {node : EitNode} {calloc : Bool} {k : Nat × UInt8}

theorem key_eq_iff : key node = k ↔ node.serviceId = k.1 ∧ node.tableId = k.2 := by
  rw [key, Prod.ext_iff]

/-- The node is new, and only the last one may be for `k`; or it is the first one for `k`, and not
the last one of the list. -/
theorem eitNewPacket_place
    (h : eitNewPacket calloc k.1 k.2 nodes = some (before, node, behind)) :
    (nodes = before ∧ behind = [] ∧ ∀ w ∈ nodes.dropLast, key w ≠ k) ∨
      (nodes = before ++ node :: behind ∧ behind ≠ [] ∧ key node = k ∧
        ∀ w ∈ before, key w ≠ k) := by
  induction nodes generalizing before with
  | nil =>
    rw [eitNewPacket] at h
    split at h
    · cases h
      exact .inl ⟨rfl, rfl, by simp⟩
    · cases h
  | cons eit nodes ih =>
    cases nodes with
    | nil =>
      rw [eitNewPacket] at h
      split at h
      · cases h
        exact .inl ⟨rfl, rfl, by simp⟩
      · cases h
    | cons next rest =>
      rw [eitNewPacket] at h
      split at h
      case isTrue hfound =>
        cases h
        exact .inr ⟨rfl, by simp, key_eq_iff.mpr hfound, by simp⟩
      case isFalse hother =>
        obtain ⟨⟨before', node', behind'⟩, hplace, heq⟩ := Option.map_eq_some_iff.mp h
        cases heq
        rcases ih hplace with ⟨hnodes, hbehind, hall⟩ | ⟨hnodes, hbehind, hkey, hall⟩
        · refine .inl ⟨by rw [hnodes], hbehind, fun w hw => ?_⟩
          rw [List.dropLast_cons_of_ne_nil (by simp)] at hw
          rcases List.mem_cons.mp hw with rfl | hw
          · exact fun hk => hother (key_eq_iff.mp hk)
          · exact hall w hw
        · refine .inr ⟨by rw [hnodes, List.cons_append], hbehind, hkey, fun w hw => ?_⟩
          rcases List.mem_cons.mp hw with rfl | hw
          · exact fun hk => hother (key_eq_iff.mp hk)
          · exact hall w hw

theorem mem_iff_dropLast_or_last (nodes : List EitNode) (k : Nat × UInt8) :
    k ∈ nodes.map key ↔ (∃ w ∈ nodes.dropLast, key w = k) ∨ nodes.getLast?.map key = some k := by
  rcases List.eq_nil_or_concat nodes with rfl | ⟨init, last, rfl⟩
  · simp
  · simp [eq_comm]

/-- The list of nodes after a section is stored has no two for one key exactly when it had none
before, and the section is not for the last one. -/
theorem unique_stored_iff {node' : EitNode}
    (h : eitNewPacket calloc k.1 k.2 nodes = some (before, node, behind)) (hkey : key node' = k) :
    Unique (before ++ node' :: behind) ↔
      Unique nodes ∧ nodes.getLast?.map key ≠ some k := by
  rcases eitNewPacket_place h with ⟨rfl, rfl, hall⟩ | ⟨hnodes, hbehind, hfound, -⟩
  · have hmem := mem_iff_dropLast_or_last nodes k
    have hnone : ¬∃ w ∈ nodes.dropLast, key w = k := fun ⟨w, hw, hk⟩ => hall w hw hk
    rw [or_iff_right hnone] at hmem
    rw [Unique, List.map_append, List.map_singleton, hkey, List.nodup_append, ne_eq, ← hmem]
    simp [Unique]
  · have hsame : (before ++ node' :: behind).map key = nodes.map key := by
      rw [hnodes, List.map_append, List.map_append, List.map_cons, List.map_cons, hkey, hfound]
    rw [Unique, hsame]
    refine ⟨fun hnodup => ⟨hnodup, fun hlast => ?_⟩, fun h => h.1⟩
    obtain ⟨init, last, rfl⟩ := (List.eq_nil_or_concat behind).resolve_left hbehind
    rw [hnodes] at hnodup hlast
    have hkeyLast : key last = k := by
      rw [List.concat_eq_append, ← List.cons_append, ← List.append_assoc, List.getLast?_concat,
        Option.map_some] at hlast
      exact Option.some.inj hlast
    have hrest := (List.nodup_append.mp (List.map_append ▸ hnodup)).2.1
    rw [List.map_cons, List.nodup_cons, hfound] at hrest
    exact hrest.1 (List.mem_map.mpr ⟨last, by simp, hkeyLast⟩)

theorem sameNode_of_not_forLast {s : Store} (h : ¬s.ForLast) : s.SameNode := by
  intro calloc before node behind hplace
  rcases @eitNewPacket_place _ _ _ _ _ (sectionKey s.eit) hplace with
    ⟨hnodes, -, hall⟩ | ⟨hnodes, -, hfound, hall⟩
  · refine .inr ⟨?_, hnodes.symm⟩
    have hmem := mem_iff_dropLast_or_last s.nodes (sectionKey s.eit)
    rw [eitFindByTsid, List.findIdx?_eq_none_iff]
    intro w hw
    rw [decide_eq_false_iff_not]
    intro hk
    rcases hmem.mp (List.mem_map.mpr ⟨w, hw, hk⟩) with ⟨v, hv, hkv⟩ | hlast
    · exact hall v hv hkv
    · exact h hlast
  · refine .inl ?_
    rw [eitFindByTsid, hnodes, List.findIdx?_append, List.findIdx?_eq_none_iff.mpr
      fun w hw => by simpa using hall w hw, List.findIdx?_cons]
    simp [hfound]

end place

section run

variable {vars vars' : EitVars} {stores : List Store} {calloc : Nat → Callocs}

theorem key_storeSection {node node' : EitNode} {fullEit : MumudvbTsPacket} {memory stored : Bool}
    (h : storeSection memory fullEit node = .ok (stored, node')) : key node' = key node := by
  obtain ⟨old, -, h⟩ := bind_eq_ok.mp h
  split at h
  · cases h
    rfl
  · obtain ⟨sections, -, h⟩ := bind_eq_ok.mp h
    obtain ⟨marks, -, h⟩ := bind_eq_ok.mp h
    cases h
    rfl

/-- No section of the record was for the last node. -/
def NoneForLast (stores : List Store) : Prop := ∀ s ∈ stores, ¬s.ForLast

theorem unique_nil_iff : Unique vars.eitPackets ↔ Unique vars.eitPackets ∧ NoneForLast [] := by
  rw [and_iff_left]
  exact fun s hs => absurd hs (by simp)

theorem eitGlobalLoop_unique_iff {fuel : Nat} {buf : Option Packet}
    (h : eitGlobalLoopRecorded fuel calloc buf vars = .ok (vars', stores)) :
    Unique vars'.eitPackets ↔ Unique vars.eitPackets ∧ NoneForLast stores := by
  induction fuel generalizing buf vars stores with
  | zero => cases h
  | succ fuel ih =>
    rw [eitGlobalLoopRecorded] at h
    obtain ⟨⟨avail, fullEit⟩, -, h⟩ := bind_eq_ok.mp h
    cases avail with
    | false =>
      cases h
      exact unique_nil_iff
    | true =>
      simp only [if_true] at h
      obtain ⟨needed, -, h⟩ := bind_eq_ok.mp h
      cases needed with
      | false =>
        cases h
        exact unique_nil_iff
      | true =>
        simp only [if_true] at h
        cases hplace : eitNewPacket (calloc fuel).node (eitServiceId fullEit.dataFull.cells)
            (tableId fullEit.dataFull.cells) vars.eitPackets with
        | none =>
          rw [hplace] at h
          cases h
          exact unique_nil_iff
        | some place =>
          rw [hplace] at h
          obtain ⟨⟨stored, node'⟩, hstored, h⟩ := bind_eq_ok.mp h
          have hfirst := @unique_stored_iff _ _ _ _ _ (sectionKey fullEit.dataFull.cells) node'
            hplace (key_storeSection hstored)
          cases stored with
          | false =>
            cases h
            rw [hfirst]
            simp [NoneForLast, Store.ForLast]
          | true =>
            simp only [if_true] at h
            obtain ⟨⟨vars₁, later⟩, hrest, h⟩ := bind_eq_ok.mp h
            cases h
            rw [ih hrest, hfirst, and_assoc]
            simp [NoneForLast, Store.ForLast]

theorem eitRewrite_unique_iff {mem : TableMemory}
    (h : eitRewriteRecorded calloc mem vars = .ok (vars', stores)) :
    Unique vars'.eitPackets ↔ Unique vars.eitPackets ∧ NoneForLast stores := by
  obtain ⟨vars₁, hneeds, h⟩ := bind_eq_ok.mp h
  have hsame : vars₁.eitPackets = vars.eitPackets := by
    split at hneeds
    · cases hneeds
      rfl
    · obtain ⟨needed, -, hneeds⟩ := bind_eq_ok.mp hneeds
      cases hneeds
      rfl
  rw [← hsame]
  split at h
  · exact eitGlobalLoop_unique_iff h
  · cases h
    exact unique_nil_iff

theorem eitStorePackets_unique_iff {packets : List (TableMemory × (Nat → Callocs))}
    (h : eitStorePacketsRecorded packets vars = .ok (vars', stores)) :
    Unique vars'.eitPackets ↔ Unique vars.eitPackets ∧ NoneForLast stores := by
  induction packets generalizing vars stores with
  | nil =>
    cases h
    exact unique_nil_iff
  | cons packet packets ih =>
    obtain ⟨mem, calloc⟩ := packet
    obtain ⟨⟨vars₁, stores₁⟩, hone, h⟩ := bind_eq_ok.mp h
    obtain ⟨⟨vars₂, later⟩, hrest, h⟩ := bind_eq_ok.mp h
    cases h
    rw [ih hrest, eitRewrite_unique_iff hone, and_assoc]
    simp only [NoneForLast, List.forall_mem_append]

end run

/-- From an empty store: no two nodes are for one service and table, and the two searches agree
whenever a section is stored, exactly when no section is stored that is for the last node. -/
theorem eitStore_unique_iff (eitNeedsUpdate : Bool)
    (packets : List (TableMemory × (Nat → Callocs))) :
    ∃ vars stores, eitStorePackets packets (emptyStore eitNeedsUpdate) = .ok vars ∧
      eitStorePacketsRecorded packets (emptyStore eitNeedsUpdate) = .ok (vars, stores) ∧
      (Unique vars.eitPackets ∧ (∀ s ∈ stores, s.SameNode) ↔ ∀ s ∈ stores, ¬s.ForLast) := by
  obtain ⟨vars, hrun, -⟩ := eitStorePackets_invariant (emptyStore_invariant eitNeedsUpdate) packets
  have hrecorded := eitStorePackets_recorded packets (emptyStore eitNeedsUpdate)
  rw [hrun] at hrecorded
  obtain ⟨⟨vars', stores⟩, hrec, rfl⟩ := map_eq_ok hrecorded
  refine ⟨vars', stores, hrun, hrec, ?_⟩
  have hiff := eitStorePackets_unique_iff hrec
  have hempty : Unique (emptyStore eitNeedsUpdate).eitPackets := List.nodup_nil
  rw [and_iff_right hempty] at hiff
  rw [hiff]
  exact ⟨fun h => h.1, fun h => ⟨h, fun s hs => sameNode_of_not_forLast (h s hs)⟩⟩

/-- Two sections of the present and following events of service 1. -/
def twoSections : List UInt8 :=
  [0x4e, 0xf0, 0x0f, 0x00, 0x01, 0xc1, 0x00, 0x01, 0x00, 0x01, 0x00, 0x01, 0x01, 0x4e, 0x83, 0x6c,
    0x14, 0x45, 0x4e, 0xf0, 0x0f, 0x00, 0x01, 0xc1, 0x01, 0x01, 0x00, 0x01, 0x00, 0x01, 0x01, 0x4e,
    0xd8, 0xcd, 0xc8, 0x8f]

/-- A packet on PID 18 that begins with these sections. -/
def eitMem (sections : List UInt8) (h : sections.length ≤ 183) : TableMemory :=
  ⟨[0x47, 0x40, 0x12, 0x10, 0x00] ++ sections ++ List.replicate (191 - sections.length) 0xff, by
    simp only [List.length_append, List.length_cons, List.length_nil, List.length_replicate]
    omega⟩

def twoSectionsMem : TableMemory := eitMem twoSections (by decide)

/-- The second section is stored in a node of its own, although there is one for its service and
table. -/
theorem eitStore_not_unique :
    ∃ vars, eitStorePackets [(twoSectionsMem, fun _ => ⟨true, true⟩),
        (twoSectionsMem, fun _ => ⟨true, true⟩)] (emptyStore true) = .ok vars ∧
      ¬Unique vars.eitPackets := by
  have hkeys : (eitStorePackets [(twoSectionsMem, fun _ => ⟨true, true⟩),
      (twoSectionsMem, fun _ => ⟨true, true⟩)] (emptyStore true)).map
        (fun vars => vars.eitPackets.map key) = .ok [(1, 0x4e), (1, 0x4e)] := by
    decide +kernel
  obtain ⟨vars, hrun, heq⟩ := map_eq_ok hkeys
  refine ⟨vars, hrun, ?_⟩
  rw [Unique, heq]
  decide

end MuMuDVB.EitUnique
