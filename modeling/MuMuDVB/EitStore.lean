import MuMuDVB.EitPackets
import MuMuDVB.TsBegin

/-!
# Storing the EIT

`eit_rewrite_new_global_packet` keeps the sections of the EIT by service, table
and section number. The linked list of the source is the list of its nodes, and
the answers of `calloc` are an input. A section that is stored is one that the
assembler has accepted, under the numbers in its own header.
-/
namespace MuMuDVB.EitStore

open CheckedMemory MuMuDVB.TsHeader MuMuDVB.Ts MuMuDVB.TsAssembler MuMuDVB.TsRefinement
  MuMuDVB.TsBegin MuMuDVB.Channel MuMuDVB.EitSearch MuMuDVB.EitPackets

set_option maxRecDepth 20000

/-- `MAX_EIT_SECTIONS`. -/
@[simp] abbrev maxEitSections : Nat := 256

/-- `HILO(eit->service_id)`. -/
def eitServiceId (eit : List UInt8) : Nat := hilo (byteAt eit 3).toNat (byteAt eit 4).toNat

/-- `eit_packet_t`, as far as the store is concerned. -/
structure EitNode where
  serviceId : Nat
  tableId : UInt8
  version : Nat
  lastSectionNumber : Nat
  sectionsStored : Buffer Bool maxEitSections
  fullEitOk : Bool
  fullEitSections : Buffer (Option MumudvbTsPacket) maxEitSections

/-- A node as `calloc` returns it. -/
def zeroedNode : EitNode where
  serviceId := 0
  tableId := 0
  version := 0
  lastSectionNumber := 0
  sectionsStored := Buffer.fill _ false
  fullEitOk := false
  fullEitSections := Buffer.fill _ none

/-- The part of `rewrite_parameters_t` that the EIT has. -/
structure EitVars where
  eitPackets : List EitNode
  fullEit : MumudvbTsPacket
  eitNeedsUpdate : Bool

def emptyStore (eitNeedsUpdate : Bool) : EitVars := ⟨[], zeroed, eitNeedsUpdate⟩

/-- Whether the two calls of `calloc` in the body of the loop find memory. -/
structure Callocs where
  node : Bool
  fullSection : Bool

/-- `eit_free_packet_contents`: the node stays in the list. -/
def eitFreePacketContents (_ : EitNode) : EitNode := zeroedNode

/-- `eit_new_packet`: the node for a service and a table, between the nodes before it and those
behind it. The loop stops at the last node without a look at it. -/
def eitNewPacket (calloc : Bool) (serviceId : Nat) (tableId : UInt8) :
    List EitNode → Option (List EitNode × EitNode × List EitNode)
  | [] => if calloc then some ([], zeroedNode, []) else none
  | [last] => if calloc then some ([last], zeroedNode, []) else none
  | eit :: next :: rest =>
    if eit.serviceId = serviceId ∧ eit.tableId = tableId then some ([], eit, next :: rest)
    else (eitNewPacket calloc serviceId tableId (next :: rest)).map fun place =>
      (eit :: place.1, place.2)

/-- `eit_need_update`, on the section header `eit`. -/
def eitNeedUpdate (eitPackets : List EitNode) (eit : List UInt8) : Checked Bool :=
  if tableId eit ≠ 0x4e ∧ tableId eit &&& 0xf0 ≠ 0x50 then .ok false
  else if currentNextIndicator eit = 0 then .ok false
  else
    match eitPackets.find? fun node =>
      node.serviceId = eitServiceId eit ∧ node.tableId = tableId eit with
    | none => .ok true
    | some node =>
      if versionNumber eit ≠ node.version then .ok true
      else do
        let stored ← node.sectionsStored.read (sectionNumber eit)
        return !stored

/-- `eit_need_update`, on a raw packet. -/
def eitNeedUpdateRaw (eitPackets : List EitNode) (mem : TableMemory) : Checked Bool := do
  match ← getTsBegin mem with
  | none => return false
  | some off =>
    let eit ← mem.slice off 7
    eitNeedUpdate eitPackets eit

/-- A new version clears the contents; then the node says what the section in `full_eit` is. -/
def updateNode (eit : List UInt8) (node : EitNode) : EitNode :=
  let node := if versionNumber eit ≠ node.version then eitFreePacketContents node else node
  { node with
    lastSectionNumber := lastSectionNumber eit
    version := versionNumber eit
    serviceId := eitServiceId eit
    tableId := tableId eit
    fullEitOk := true }

/-- Copy `full_eit` to its place in the node; the flag says that there was memory for it. -/
def storeSection (calloc : Bool) (fullEit : MumudvbTsPacket) (node : EitNode) :
    Checked (Bool × EitNode) := do
  let number := sectionNumber fullEit.dataFull.cells
  let old ← node.fullEitSections.read number
  if old.isNone ∧ calloc = false then return (false, node)
  else
    let sections ← node.fullEitSections.write number [some fullEit]
    let stored ← node.sectionsStored.write number [true]
    return (true, { node with fullEitSections := sections, sectionsStored := stored })

/-- The loop of `eit_rewrite_new_global_packet`. -/
def eitGlobalLoop (fuel : Nat) (calloc : Nat → Callocs) (buf : Option Packet) (vars : EitVars) :
    Checked EitVars :=
  match fuel with
  | 0 => .error .endless
  | fuel + 1 => do
    let (avail, fullEit) ← getTsPacket buf vars.fullEit
    let vars := { vars with fullEit := fullEit }
    if avail then
      let eit := fullEit.dataFull.cells
      let needed ← eitNeedUpdate vars.eitPackets eit
      if needed then
        match eitNewPacket (calloc fuel).node (eitServiceId eit) (tableId eit) vars.eitPackets with
        | none => return vars
        | some (before, node, behind) =>
          let (stored, node) ← storeSection (calloc fuel).fullSection fullEit (updateNode eit node)
          let vars := { vars with eitPackets := before ++ node :: behind }
          if stored then eitGlobalLoop fuel calloc none { vars with eitNeedsUpdate := false }
          else return vars
      else return vars
    else return vars

/-- `eit_rewrite_new_global_packet`. -/
def eitRewriteNewGlobalPacket (calloc : Nat → Callocs) (mem : TableMemory) (vars : EitVars) :
    Checked EitVars := do
  let vars ← (if vars.eitNeedsUpdate then .ok vars
    else do
      let needsUpdate ← eitNeedUpdateRaw vars.eitPackets mem
      return { vars with eitNeedsUpdate := needsUpdate } : Checked EitVars)
  if vars.eitNeedsUpdate then eitGlobalLoop takeFuel calloc (some mem.packet) vars
  else return vars

/-- A stream of packets, each with the answers of `calloc` while it is looked at. -/
def eitStorePackets : List (TableMemory × (Nat → Callocs)) → EitVars → Checked EitVars
  | [], vars => .ok vars
  | (mem, calloc) :: packets, vars => do
    let vars ← eitRewriteNewGlobalPacket calloc mem vars
    eitStorePackets packets vars

/-- `pkt` holds section `i` of the version, table and service of the node. -/
structure HoldsSection (node : EitNode) (i : Nat) (pkt : MumudvbTsPacket) : Prop where
  crc : crc32 (sectionData pkt) = 0
  length : pkt.lenFull = sectionSize pkt.dataFull.cells
  atMost : pkt.lenFull ≤ maxTsSize
  currentNext : currentNextIndicator pkt.dataFull.cells = 1
  serviceId : eitServiceId pkt.dataFull.cells = node.serviceId
  tableId : tableId pkt.dataFull.cells = node.tableId
  version : versionNumber pkt.dataFull.cells = node.version
  number : sectionNumber pkt.dataFull.cells = i

/-- The sections that a node says are stored are there. -/
structure NodeInvariant (node : EitNode) : Prop where
  stored : ∀ i, node.sectionsStored.cells[i]? = some true →
    ∃ pkt, node.fullEitSections.cells[i]? = some (some pkt) ∧ HoldsSection node i pkt
  lastSectionNumber : node.lastSectionNumber < maxEitSections

structure EitInvariant (vars : EitVars) : Prop where
  assembler : RepInvariant vars.fullEit
  sound : Sound (view vars.fullEit)
  nodes : ∀ node ∈ vars.eitPackets, NodeInvariant node

theorem emptyStore_invariant (eitNeedsUpdate : Bool) : EitInvariant (emptyStore eitNeedsUpdate) :=
  ⟨zeroed_repInvariant, by rw [emptyStore, view_zeroed]; exact sound_empty, by simp [emptyStore]⟩

section node

variable {eit : List UInt8} {node : EitNode} {nodes : List EitNode} {fullEit : MumudvbTsPacket}

theorem sectionNumber_lt (eit : List UInt8) : sectionNumber eit < maxEitSections :=
  (byteAt eit 6).toNat_lt

theorem zeroedNode_notStored (i : Nat) : zeroedNode.sectionsStored.cells[i]? ≠ some true := by
  rw [zeroedNode, Buffer.fill, List.getElem?_replicate]
  split <;> simp

theorem zeroedNode_invariant : NodeInvariant zeroedNode :=
  ⟨fun i h => absurd h (zeroedNode_notStored i), by decide⟩

/-- A node that is found has the service and the table; else it is new. -/
theorem eitNewPacket_spec {calloc : Bool} {serviceId : Nat} {tableId : UInt8}
    {before behind : List EitNode}
    (h : eitNewPacket calloc serviceId tableId nodes = some (before, node, behind)) :
    (nodes = before ∧ node = zeroedNode ∧ behind = []) ∨
      (nodes = before ++ node :: behind ∧ node.serviceId = serviceId ∧ node.tableId = tableId) := by
  induction nodes generalizing before with
  | nil =>
    rw [eitNewPacket] at h
    split at h
    · cases h
      exact .inl ⟨rfl, rfl, rfl⟩
    · cases h
  | cons eit nodes ih =>
    cases nodes with
    | nil =>
      rw [eitNewPacket] at h
      split at h
      · cases h
        exact .inl ⟨rfl, rfl, rfl⟩
      · cases h
    | cons next rest =>
      rw [eitNewPacket] at h
      split at h
      case isTrue hfound =>
        cases h
        exact .inr ⟨rfl, hfound⟩
      case isFalse =>
        obtain ⟨⟨before', node', behind'⟩, hplace, heq⟩ := Option.map_eq_some_iff.mp h
        cases heq
        rcases ih hplace with ⟨hnodes, hnew⟩ | ⟨hnodes, hids⟩
        · exact .inl ⟨by rw [hnodes], hnew⟩
        · exact .inr ⟨by rw [hnodes, List.cons_append], hids⟩

/-- Only a table of the actual transport stream that is applicable is needed. -/
theorem eitNeedUpdate_spec (nodes : List EitNode) (eit : List UInt8) :
    ∃ needed, eitNeedUpdate nodes eit = .ok needed ∧
      (needed = true → tableId eit ≠ 0x72 ∧ currentNextIndicator eit = 1) := by
  have hmod : currentNextIndicator eit < 2 := Nat.mod_lt _ (by decide)
  rw [eitNeedUpdate]
  split
  case isTrue => exact ⟨false, rfl, by simp⟩
  case isFalse htable =>
    have h72 : tableId eit ≠ 0x72 := by
      intro h
      rw [h] at htable
      exact htable (by decide)
    split
    case isTrue => exact ⟨false, rfl, by simp⟩
    case isFalse hnext =>
      have hcurrent : tableId eit ≠ 0x72 ∧ currentNextIndicator eit = 1 := ⟨h72, by omega⟩
      split
      · exact ⟨true, rfl, fun _ => hcurrent⟩
      · split
        · exact ⟨true, rfl, fun _ => hcurrent⟩
        · obtain ⟨stored, hread, -⟩ := Buffer.read_lt _ (sectionNumber_lt eit)
          exact ⟨!stored, by rw [hread]; rfl, fun _ => hcurrent⟩

/-- The node has the numbers of the section, and no section of another version is left in it. -/
theorem updateNode_invariant (h : NodeInvariant node)
    (hids : node = zeroedNode ∨
      (node.serviceId = eitServiceId eit ∧ node.tableId = tableId eit)) :
    NodeInvariant (updateNode eit node) := by
  refine ⟨fun i hi => ?_, (byteAt eit 7).toNat_lt⟩
  rw [updateNode] at hi ⊢
  dsimp only at hi ⊢
  by_cases hversion : versionNumber eit = node.version
  · rw [if_neg (not_not.mpr hversion)] at hi ⊢
    rcases hids with rfl | ⟨hservice, htable⟩
    · exact absurd hi (zeroedNode_notStored i)
    · obtain ⟨pkt, hpkt, hholds⟩ := h.stored i hi
      exact ⟨pkt, hpkt, { hholds with
        serviceId := hholds.serviceId.trans hservice
        tableId := hholds.tableId.trans htable
        version := hholds.version.trans hversion.symm }⟩
  · rw [if_pos hversion] at hi
    exact absurd hi (zeroedNode_notStored i)

/-- Storing the section that the node was updated for. -/
theorem storeSection_spec (calloc : Bool) (h : NodeInvariant node)
    (hfull : HoldsSection node (sectionNumber fullEit.dataFull.cells) fullEit) :
    ∃ stored node', storeSection calloc fullEit node = .ok (stored, node') ∧
      NodeInvariant node' := by
  have hlt := sectionNumber_lt fullEit.dataFull.cells
  obtain ⟨old, hread, -⟩ := node.fullEitSections.read_lt hlt
  rw [storeSection, hread, bind_ok]
  split
  case isTrue => exact ⟨false, node, rfl, h⟩
  case isFalse =>
    obtain ⟨sections, hsections, hat, hother⟩ :=
      node.fullEitSections.write_cell (some fullEit) hlt
    obtain ⟨stored, hstored, -, hstoredOther⟩ := node.sectionsStored.write_cell true hlt
    rw [hsections, bind_ok, hstored, bind_ok]
    refine ⟨true, _, rfl, fun i hi => ?_, h.lastSectionNumber⟩
    by_cases hi' : i = sectionNumber fullEit.dataFull.cells
    · subst hi'
      exact ⟨fullEit, hat, { hfull with }⟩
    · dsimp only at hi ⊢
      rw [hstoredOther i hi'] at hi
      obtain ⟨pkt, hpkt, hholds⟩ := h.stored i hi
      exact ⟨pkt, by rw [hother i hi', hpkt], { hholds with }⟩

end node

section loop

variable {vars : EitVars}

/-- What is in `data_full` when `get_ts_packet` returned 1. -/
theorem getTsPacket_popped {pkt : MumudvbTsPacket} (h : RepInvariant pkt) (hsound : Sound (view pkt))
    (input : Option Packet) :
    ∃ avail pkt', getTsPacket input pkt = .ok (avail, pkt') ∧ RepInvariant pkt' ∧
      Sound (view pkt') ∧ view pkt' = ((view pkt).call input).2 ∧
      (avail = true → (view pkt).store ≠ [] ∧ Accepted (sectionData pkt') ∧
        pkt'.lenFull = sectionSize pkt'.dataFull.cells) := by
  obtain ⟨pkt', hget, hinv, hview, hpopped⟩ := getTsPacket_spec h input
  refine ⟨_, pkt', hget, hinv, by rw [hview]; exact hsound.call input, hview, fun havail => ?_⟩
  have hstore := call_avail havail
  obtain ⟨s, later, hcons⟩ := List.exists_cons_of_ne_nil hstore
  have hs := hpopped s (by rw [hcons, List.head?_cons])
  obtain ⟨hacc, hlen⟩ := hsound.stored s (by rw [hcons]; exact List.mem_cons_self)
  have hmax := hinv.lenFull
  have hlength : s.length = pkt'.lenFull := by
    rw [← hs, List.length_take, pkt'.dataFull.length_cells, Nat.min_eq_left hmax]
  have hthree := three_le_sectionSize s
  refine ⟨hstore, by rw [sectionData, hs]; exact hacc, ?_⟩
  rw [← hlength, hlen, ← hs, sectionSize_take (by omega)]

/-- The section that was needed goes to a node that is updated for it. -/
theorem holdsSection_needed {pkt : MumudvbTsPacket} (h : RepInvariant pkt)
    (hacc : Accepted (sectionData pkt)) (hlen : pkt.lenFull = sectionSize pkt.dataFull.cells)
    (htable : tableId pkt.dataFull.cells ≠ 0x72)
    (hcurrent : currentNextIndicator pkt.dataFull.cells = 1) (node : EitNode) :
    HoldsSection (updateNode pkt.dataFull.cells node) (sectionNumber pkt.dataFull.cells) pkt where
  crc := by
    have hthree := three_le_sectionSize pkt.dataFull.cells
    have hfirst : TsHeader.tableId (sectionData pkt) = TsHeader.tableId pkt.dataFull.cells :=
      byteAt_take (by omega)
    exact hacc.resolve_left (by rwa [hfirst])
  length := hlen
  atMost := h.lenFull
  currentNext := hcurrent
  serviceId := rfl
  tableId := rfl
  version := rfl
  number := rfl

theorem length_store_call {pkt pkt' : MumudvbTsPacket} {buf : Option Packet} {fuel : Nat}
    (hinv : RepInvariant pkt') (hview : view pkt' = ((view pkt).call buf).2)
    (hstore : (view pkt).store ≠ [])
    (hfuel : (buf = none ∧ (view pkt).store.length < fuel + 1) ∨ maxFullPackets + 1 < fuel + 1) :
    (view pkt').store.length < fuel := by
  rcases hfuel with ⟨rfl, hlt⟩ | hlt
  · rw [hview, Assembler.call, Assembler.pop, List.length_tail]
    have := List.length_pos_iff.mpr hstore
    omega
  · have hmax := hinv.fullNumber
    rw [length_store hinv.toStoreInvariant]
    simp only [maxFullPackets] at hlt
    omega

/-- The loop ends when the store of the assembler is empty, if not before. -/
theorem eitGlobalLoop_spec (calloc : Nat → Callocs) (fuel : Nat) (buf : Option Packet)
    (h : EitInvariant vars)
    (hfuel : (buf = none ∧ (view vars.fullEit).store.length < fuel) ∨
      maxFullPackets + 1 < fuel) :
    ∃ vars', eitGlobalLoop fuel calloc buf vars = .ok vars' ∧ EitInvariant vars' := by
  induction fuel generalizing buf vars with
  | zero => omega
  | succ fuel ih =>
    obtain ⟨avail, fullEit, hget, hinv, hsound, hview, hpopped⟩ :=
      getTsPacket_popped h.assembler h.sound buf
    have hkept : EitInvariant { vars with fullEit := fullEit } := ⟨hinv, hsound, h.nodes⟩
    rw [eitGlobalLoop, hget, bind_ok]
    cases avail with
    | false => exact ⟨_, rfl, hkept⟩
    | true =>
      obtain ⟨hstore, hacc, hlen⟩ := hpopped rfl
      obtain ⟨needed, hneed, hneeded⟩ := eitNeedUpdate_spec vars.eitPackets fullEit.dataFull.cells
      dsimp only
      rw [if_pos rfl, hneed, bind_ok]
      cases needed with
      | false => exact ⟨_, rfl, hkept⟩
      | true =>
        obtain ⟨htable, hcurrent⟩ := hneeded rfl
        rw [if_pos rfl]
        split
        case h_1 => exact ⟨_, rfl, hkept⟩
        case h_2 before node behind hplace =>
          have hplaced := eitNewPacket_spec hplace
          have hnode : NodeInvariant (updateNode fullEit.dataFull.cells node) := by
            rcases hplaced with ⟨-, rfl, -⟩ | ⟨hnodes, hids⟩
            · exact updateNode_invariant zeroedNode_invariant (.inl rfl)
            · exact updateNode_invariant (h.nodes node (by rw [hnodes]; simp)) (.inr hids)
          obtain ⟨stored, node', hstored, hnode'⟩ :=
            storeSection_spec (calloc fuel).fullSection hnode
              (holdsSection_needed hinv hacc hlen htable hcurrent node)
          have hnodes' : ∀ n ∈ before ++ node' :: behind, NodeInvariant n := by
            intro n hn
            rcases List.mem_append.mp hn with hn | hn
            · rcases hplaced with ⟨hnodes, -⟩ | ⟨hnodes, -⟩ <;>
                exact h.nodes n (by rw [hnodes]; simp [hn])
            · rcases List.mem_cons.mp hn with rfl | hn
              · exact hnode'
              · rcases hplaced with ⟨-, -, hbehind⟩ | ⟨hnodes, -⟩
                · simp [hbehind] at hn
                · exact h.nodes n (by rw [hnodes]; simp [hn])
          rw [hstored, bind_ok]
          cases stored with
          | false => exact ⟨_, rfl, ⟨hinv, hsound, hnodes'⟩⟩
          | true =>
            exact ih none ⟨hinv, hsound, hnodes'⟩
              (.inl ⟨rfl, length_store_call hinv hview hstore hfuel⟩)

theorem beginOffset_le {mem : TableMemory} {off : Nat} (h : beginOffset mem = some off) :
    off ≤ 188 := by
  rw [beginOffset] at h
  split at h
  · cases h
  · split at h
    · cases h
    · split at h
      · exact (afterPointer_eq_some.mp h).2
      · cases h

/-- One packet, whatever memory there is. -/
theorem eitRewriteNewGlobalPacket_invariant (calloc : Nat → Callocs) (mem : TableMemory)
    (h : EitInvariant vars) :
    ∃ vars', eitRewriteNewGlobalPacket calloc mem vars = .ok vars' ∧ EitInvariant vars' := by
  have hloop : ∀ vars : EitVars, EitInvariant vars →
      ∃ vars', (if vars.eitNeedsUpdate then eitGlobalLoop takeFuel calloc (some mem.packet) vars
        else return vars) = .ok vars' ∧ EitInvariant vars' := by
    intro vars h
    split
    · exact eitGlobalLoop_spec calloc takeFuel _ h (.inr (by decide))
    · exact ⟨vars, rfl, h⟩
  have hraw : ∃ needed, eitNeedUpdateRaw vars.eitPackets mem = .ok needed := by
    rw [eitNeedUpdateRaw, getTsBegin_spec, bind_ok]
    split
    case h_1 => exact ⟨false, rfl⟩
    case h_2 off hoff =>
      have := beginOffset_le hoff
      obtain ⟨needed, hneed, -⟩ :=
        eitNeedUpdate_spec vars.eitPackets ((mem.cells.drop off).take 7)
      exact ⟨needed, by rw [Buffer.slice_ok mem (by omega)]; exact hneed⟩
  obtain ⟨needed, hneeded⟩ := hraw
  rw [eitRewriteNewGlobalPacket]
  split
  · exact hloop vars h
  · rw [hneeded, bind_ok]
    exact hloop { vars with eitNeedsUpdate := needed } ⟨h.assembler, h.sound, h.nodes⟩

end loop

/-- Whatever the packets hold and wherever memory runs out, the store keeps its invariant. -/
theorem eitStorePackets_invariant {vars : EitVars} (h : EitInvariant vars)
    (packets : List (TableMemory × (Nat → Callocs))) :
    ∃ vars', eitStorePackets packets vars = .ok vars' ∧ EitInvariant vars' := by
  induction packets generalizing vars with
  | nil => exact ⟨vars, rfl, h⟩
  | cons packet packets ih =>
    obtain ⟨mem, calloc⟩ := packet
    obtain ⟨vars₁, hone, h₁⟩ := eitRewriteNewGlobalPacket_invariant calloc mem h
    obtain ⟨vars', hrest, h'⟩ := ih h₁
    exact ⟨vars', by rw [eitStorePackets, hone]; exact hrest, h'⟩

/-- From the empty store: a section that is marked as stored is there, with a right CRC and the
numbers of its node. -/
theorem eitStore_sections (eitNeedsUpdate : Bool)
    (packets : List (TableMemory × (Nat → Callocs))) :
    ∃ vars, eitStorePackets packets (emptyStore eitNeedsUpdate) = .ok vars ∧
      ∀ node ∈ vars.eitPackets, ∀ i, node.sectionsStored.cells[i]? = some true →
        ∃ pkt, node.fullEitSections.cells[i]? = some (some pkt) ∧ HoldsSection node i pkt := by
  obtain ⟨vars, hrun, hinv⟩ := eitStorePackets_invariant (emptyStore_invariant eitNeedsUpdate) packets
  exact ⟨vars, hrun, fun node hnode => (hinv.nodes node hnode).stored⟩

/-- What the sender reads of a node: the sections it marks as stored. -/
def EitNode.view (node : EitNode) : EitPacket where
  serviceId := node.serviceId
  tableId := node.tableId
  lastSectionNumber := node.lastSectionNumber
  sections := ⟨List.zipWith (fun stored full => if stored then full else none)
    node.sectionsStored.cells node.fullEitSections.cells, by simp⟩
  fullEitOk := node.fullEitOk

theorem storedAt_view {node : EitNode} {i : Nat} {pkt : MumudvbTsPacket}
    (h : storedAt node.view i = some pkt) :
    node.sectionsStored.cells[i]? = some true ∧
      node.fullEitSections.cells[i]? = some (some pkt) := by
  rw [storedAt, EitNode.view, List.getElem?_zipWith] at h
  cases hstored : node.sectionsStored.cells[i]? with
  | none => simp [hstored] at h
  | some stored =>
    cases hfull : node.fullEitSections.cells[i]? with
    | none => simp [hstored, hfull] at h
    | some full =>
      simp only [hstored, hfull, Option.join_some] at h
      cases stored with
      | false => cases h
      | true => exact ⟨rfl, by rw [← h]; rfl⟩

/-- The store is always fit for the sender. -/
theorem EitInvariant.wellStored {store : EitVars} (hinv : EitInvariant store)
    (vars : RewriteParameters) :
    WellStored { vars with eitPackets := store.eitPackets.map EitNode.view } := by
  refine ⟨fun eit heit => ?_, fun eit heit i pkt hpkt => ?_⟩
  · obtain ⟨node, hnode, rfl⟩ := List.mem_map.mp heit
    exact (hinv.nodes node hnode).lastSectionNumber
  · obtain ⟨node, hnode, rfl⟩ := List.mem_map.mp heit
    obtain ⟨hstored, hfull⟩ := storedAt_view hpkt
    obtain ⟨pkt', hpkt', hholds⟩ := (hinv.nodes node hnode).stored i hstored
    rw [hfull] at hpkt'
    cases hpkt'
    have hthree := three_le_sectionSize pkt.dataFull.cells
    exact ⟨by rw [hholds.length]; omega, hholds.atMost⟩

end MuMuDVB.EitStore
