import MuMuDVB.EitDelivery
import MuMuDVB.EitTree

/-!
# The page of the EIT

`unicast_send_EIT` writes all the tables of the store. What it writes is one JSON
text, and its value has the tables, the sections, the events and the descriptors of
the store one by one and in their order, each with the numbers it came with.
-/
namespace MuMuDVB.EitPage

open CheckedMemory CString JsonText JsonFormats MuMuDVB.TsHeader MuMuDVB.Ts MuMuDVB.TsAssembler
open MuMuDVB.AutoconfTables MuMuDVB.NitNumbers MuMuDVB.SdtReading MuMuDVB.EitPrinters
open MuMuDVB.EitJson MuMuDVB.EitDocument MuMuDVB.EitTree MuMuDVB.EitStore

/-- The loop of `unicast_send_EIT` over the section numbers. -/
def sectionsLoop (env : Outside) (node : EitNode) (first : Bool) : List Nat → Checked (List Part)
  | [] => .ok []
  | i :: is => do
    if ← node.sectionsStored.read i then
      match ← node.fullEitSections.read i with
      | none => .error .outOfBounds
      | some fullEit =>
        let shown ← unicastSendEITSection env fullEit i
        let rest ← sectionsLoop env node false is
        return .text (if first then "" else ",") :: (shown ++ rest)
    else sectionsLoop env node first is

/-- One `actual_eit`. -/
def tableParts (env : Outside) (node : EitNode) : Checked (List Part) := do
  let sections ← sectionsLoop env node true (List.range (node.lastSectionNumber + 1))
  return [.text "\x7b\n\t\"sid\" : ", .literal (integer node.serviceId),
    .text ",\n\t\"table_id\" : ", .number node.tableId.toNat,
    .text ",\n\t\"version\" : ", .number node.version,
    .text ",\n\t\"last_section_number\" : ", .number node.lastSectionNumber,
    .text ",\n\"EIT_sections\":[\n"] ++ (sections ++ [.text "]\n", .text "\x7d"])

def tablesLoop (env : Outside) : List EitNode → Checked (List Part)
  | [] => .ok []
  | node :: nodes => do
    let shown ← tableParts env node
    let rest ← tablesLoop env nodes
    return shown ++ ((if nodes.isEmpty then [] else [.text ",\n"]) ++ rest)

/-- What `unicast_send_EIT` writes. -/
def unicastSendEIT (env : Outside) (eitPackets : List EitNode) : Checked (List Part) := do
  let tables ← tablesLoop env eitPackets
  return .text "\x7b\n\"EIT_tables\":[\n" :: (tables ++ [.text "]\n", .text "\x7d\n"])

/-- A descriptor: its tag, how long it is, and what is shown of it. -/
def DescriptorJson (d : EitDescriptor) (v : Json) : Prop :=
  ∃ ms, Shown d.tag ms ∧ v = .object ((bytes "tag", num d.tag.toNat) ::
    (bytes "len", num d.bytes.length) :: ms)

/-- The members of an event. -/
def eventMembers (env : Outside) (event status : List UInt8) (loopLength : Nat)
    (descriptors : List Json) : List (List UInt8 × Json) :=
  [(bytes "event_id", num (hilo (byteAt event 0).toNat (byteAt event 1).toNat)),
    (bytes "start_date",
      .string (date (env.ymd (hilo (byteAt event 2).toNat (byteAt event 3).toNat)))),
    (bytes "start_time", .string (clock (byteAt event 4) (byteAt event 5) (byteAt event 6))),
    (bytes "duration", .string (clock (byteAt event 7) (byteAt event 8) (byteAt event 9))),
    (bytes "running_status", num ((byteAt event 10).toNat / 32 : Nat)),
    (bytes "running_status_descr", .string status),
    (bytes "free_ca_mode", num ((byteAt event 10).toNat / 16 % 2 : Nat)),
    (bytes "descriptors_loop_length", num loopLength),
    (bytes "EIT_descriptors", .array descriptors)]

/-- An event: the numbers of its head, and its descriptors. -/
def EventJson (env : Outside) (e : EitEvent) (v : Json) : Prop :=
  ∃ status descriptors, runningStatusDescr.read ((byteAt e.head 10).toNat / 32) = .ok status ∧
    List.Forall₂ DescriptorJson e.descriptors descriptors ∧
    v = .object (eventMembers env e.head status (e.descriptors.flatMap EitDescriptor.bytes).length
      descriptors)

/-- The members of a section. -/
def sectionMembers (number : Int) (lenFull : Nat) (eit : List UInt8) (events : List Json) :
    List (List UInt8 × Json) :=
  [(bytes "number", num number),
    (bytes "length", num lenFull),
    (bytes "table_id", num (byteAt eit 0).toNat),
    (bytes "section_length", num (hilo ((byteAt eit 1).toNat % 16) (byteAt eit 2).toNat)),
    (bytes "section_syntax_indicator", num ((byteAt eit 1).toNat / 128 : Nat)),
    (bytes "service_id", num (hilo (byteAt eit 3).toNat (byteAt eit 4).toNat)),
    (bytes "current_next_indicator", num ((byteAt eit 5).toNat % 2 : Nat)),
    (bytes "version_number", num ((byteAt eit 5).toNat / 2 % 32 : Nat)),
    (bytes "section_number", num (byteAt eit 6).toNat),
    (bytes "last_section_number", num (byteAt eit 7).toNat),
    (bytes "transport_stream_id", num (hilo (byteAt eit 8).toNat (byteAt eit 9).toNat)),
    (bytes "original_network_id", num (hilo (byteAt eit 10).toNat (byteAt eit 11).toNat)),
    (bytes "segment_last_section_number", num (byteAt eit 12).toNat),
    (bytes "segment_last_table_id", num (byteAt eit 13).toNat),
    (bytes "EIT_events", .array events)]

/-- A section: its number in the store, the numbers of its header, and its events. -/
def SectionJson (env : Outside) (number : Int) (t : EitSection) (v : Json) : Prop :=
  ∃ events, List.Forall₂ (EventJson env) t.events events ∧
    v = .object (sectionMembers number t.bytes.length t.header events)

theorem format_comma : Format "," [.comma] := format [.one .comma] _ _ rfl

section descriptors

variable {env : Outside} {dataFull : Buffer UInt8 maxTsSize} {a : Nat} {parts : List Part}
  {rest : List UInt8}

theorem descriptorLoop_items {ds : List EitDescriptor} {fuel : Nat} {first : Bool}
    (hds : ∀ d ∈ ds, d.WellFormed)
    (hreads : ReadsAt dataFull.read a (ds.flatMap EitDescriptor.bytes ++ rest))
    (h : descriptorLoop env dataFull fuel a (ds.flatMap EitDescriptor.bytes).length first =
      .ok parts) (hvalid : Valid parts) :
    ∃ vs, Items first parts vs ∧ List.Forall₂ DescriptorJson ds vs := by
  induction ds generalizing a fuel first parts with
  | nil =>
    cases fuel with
    | zero => cases h
    | succ fuel =>
      cases h
      exact ⟨[], items_nil first, .nil⟩
  | cons d ds ih =>
    rw [List.forall_mem_cons] at hds
    have hlength := d.length_bytes
    rw [List.flatMap_cons, List.length_append] at h
    rw [List.flatMap_cons, List.append_assoc] at hreads
    have htag : dataFull.read a = .ok d.tag := hreads 0 (by simp [EitDescriptor.bytes])
    have hlen : dataFull.read (a + 1) = .ok (UInt8.ofNat d.payload.length) :=
      hreads 1 (by simp [EitDescriptor.bytes])
    cases fuel with
    | zero => cases h
    | succ fuel =>
      rw [descriptorLoop, if_pos (by omega), htag, bind_ok, hlen, bind_ok,
        UInt8.toNat_ofNat_of_lt' hds.1.length] at h
      dsimp only at h
      rw [← hlength, Nat.add_sub_cancel_left] at h
      obtain ⟨shown, hshown, h⟩ := bind_eq_ok.mp h
      obtain ⟨behind, hbehind, h⟩ := bind_eq_ok.mp h
      cases h
      simp only [valid_text, valid_number, valid_append] at hvalid
      obtain ⟨vs, hitems, hvs⟩ := ih hds.2 hreads.right hbehind hvalid.2
      obtain ⟨ms, hms, hnext⟩ := showDescriptor_next hshown hvalid.1
      have hlen : Next (.text ",\n\t\t\"len\" : " :: .number d.bytes.length :: shown)
          ((bytes "len", num d.bytes.length) :: ms) := .number _ (format_next _ _ _ rfl) hnext
      have hopen : Format "\n\x7b\n\t\t\"tag\" :" [.openObject, .string (bytes "tag"), .colon] :=
        format [.one .openObject, .quoted _, .one .colon] _ _ rfl
      have hclose : Format "\x7d" [.closeObject] := format [.one .closeObject] _ _ rfl
      have hvalue := hlen.number_object d.tag.toNat hopen hclose
      refine ⟨_ :: vs, ?_, .cons ⟨ms, hms, rfl⟩ hvs⟩
      have hitem := hvalue.item hitems first format_comma
      simpa only [List.append_assoc, List.cons_append, List.nil_append] using hitem

theorem eitDisplayDescriptor_members {ds : List EitDescriptor} (hds : ∀ d ∈ ds, d.WellFormed)
    (hreads : ReadsAt dataFull.read a (ds.flatMap EitDescriptor.bytes ++ rest))
    (h : eitDisplayDescriptor env dataFull a (ds.flatMap EitDescriptor.bytes).length = .ok parts)
    (hvalid : Valid parts) : ∃ vs, Members parts [(bytes "EIT_descriptors", .array vs)] ∧
      List.Forall₂ DescriptorJson ds vs := by
  obtain ⟨shown, hshown, h⟩ := bind_eq_ok.mp h
  cases h
  obtain ⟨vs, hitems, hvs⟩ := descriptorLoop_items hds hreads hshown ((valid_around _ _).mp hvalid)
  exact ⟨vs, hitems.array_member (format [.quoted _, .one .colon, .one .openArray] _ _ rfl)
    (format [.one .closeArray] _ _ rfl), hvs⟩

/-- The parts of an event, of which the descriptors are printed. -/
theorem eventParts_value (env : Outside) (event : List UInt8) {status : List UInt8}
    (loopLength : Nat) {vs : List Json} (hstatus : Inside status)
    (h : Members parts [(bytes "EIT_descriptors", .array vs)]) :
    Value (eventParts env event status loopLength ++ (parts ++ [.text "\x7d"]))
      (.object (eventMembers env event status loopLength vs)) := by
  have hloop : Next (.text ",\n\t\t\"descriptors_loop_length\" : " :: .number loopLength ::
      .text ",\n" :: parts) ((bytes "descriptors_loop_length", num loopLength) :: _) :=
    .number _ (format_next _ _ _ rfl) (h.behind (format [.one .comma] _ _ rfl))
  have hstatus : Next (.text ",\n\t\t\"running_status_descr\" : " :: .literal status ::
      .text ",\n\t\t\"free_ca_mode\" :" :: .number ((byteAt event 10).toNat / 16 % 2 : Nat) :: _)
      ((bytes "running_status_descr", .string status) :: (bytes "free_ca_mode", _) :: _) :=
    .string hstatus (format_next _ _ _ rfl) (Next.number _ (format_next _ _ _ rfl) hloop).tail
  have hduration : Next (.text ",\n\t\t\"duration\" : " ::
      .literal (clock (byteAt event 7) (byteAt event 8) (byteAt event 9)) ::
      .text ",\n\t\t\"running_status\" :" :: .number ((byteAt event 10).toNat / 32 : Nat) :: _)
      ((bytes "duration", _) :: (bytes "running_status", _) :: _) :=
    .string (inside_clock _ _ _) (format_next _ _ _ rfl)
      (Next.number _ (format_next _ _ _ rfl) hstatus).tail
  have hstart : Next (.text ",\n\t\t\"start_time\" : " ::
      .literal (clock (byteAt event 4) (byteAt event 5) (byteAt event 6)) :: _)
      ((bytes "start_time", _) :: _) :=
    .string (inside_clock _ _ _) (format_next _ _ _ rfl) hduration.tail
  have hdate : Next (.text ",\n\t\t\"start_date\" : " ::
      .literal (date (env.ymd (hilo (byteAt event 2).toNat (byteAt event 3).toNat))) :: _)
      ((bytes "start_date", _) :: _) :=
    .string (inside_date _) (format_next _ _ _ rfl) hstart.tail
  have hopen : Format "\x7b\n\t\t\"event_id\" :"
      [.openObject, .string (bytes "event_id"), .colon] :=
    format [.one .openObject, .quoted _, .one .colon] _ _ rfl
  have hclose : Format "\x7d" [.closeObject] := format [.one .closeObject] _ _ rfl
  exact hdate.number_object (hilo (byteAt event 0).toNat (byteAt event 1).toNat) hopen hclose

end descriptors

section sections

variable {env : Outside} {dataFull : Buffer UInt8 maxTsSize} {a : Nat} {parts : List Part}
  {rest : List UInt8}

theorem eventLoop_items {es : List EitEvent} {fuel lenFull : Nat} {first : Bool}
    (hreads : ReadsAt dataFull.read a (es.flatMap EitEvent.bytes ++ rest))
    (hlenFull : lenFull = a + ((es.flatMap EitEvent.bytes).length + 4))
    (h : eventLoop env dataFull lenFull fuel a first = .ok parts) (hvalid : Valid parts) :
    ∃ vs, Items first parts vs ∧ List.Forall₂ (EventJson env) es vs := by
  induction es generalizing a fuel first parts with
  | nil =>
    cases fuel with
    | zero => cases h
    | succ fuel =>
      rw [List.flatMap_nil, List.length_nil] at hlenFull
      rw [eventLoop, if_neg (by rw [eitEventLen]; omega)] at h
      cases h
      exact ⟨[], items_nil first, .nil⟩
  | cons e es ih =>
    have hlength : e.bytes.length =
        eitEventLen + (e.descriptors.flatMap EitDescriptor.bytes).length := by
      rw [EitEvent.bytes, List.length_append, e.headLength]
    rw [List.flatMap_cons, List.append_assoc] at hreads
    rw [List.flatMap_cons, List.length_append] at hlenFull
    have hbehind := hreads.right
    rw [EitEvent.bytes, List.append_assoc] at hreads
    have hdescriptors := hreads.right
    rw [e.headLength] at hdescriptors
    cases fuel with
    | zero => cases h
    | succ fuel =>
      have hdelta : a + ((e.descriptors.flatMap EitDescriptor.bytes).length + eitEventLen) =
          a + e.bytes.length := by rw [hlength, Nat.add_comm eitEventLen]
      obtain ⟨status, hstatus, hinside⟩ := runningStatus_read (byteAt e.head 10)
      rw [eventLoop, if_pos (by rw [hlenFull, hlength]; omega), readBytes_all hreads e.headLength,
        bind_ok] at h
      dsimp only at h
      rw [hstatus, bind_ok, e.loopLength, hdelta] at h
      obtain ⟨shown, hshown, h⟩ := bind_eq_ok.mp h
      obtain ⟨behind, hnext, h⟩ := bind_eq_ok.mp h
      cases h
      simp only [valid_text, valid_append, valid_eventParts _ hinside, true_and] at hvalid
      obtain ⟨vs, hitems, hvs⟩ := ih hbehind (by rw [hlenFull]; omega) hnext hvalid.2
      obtain ⟨descriptors, hmembers, hds⟩ :=
        eitDisplayDescriptor_members e.wellFormed hdescriptors hshown hvalid.1
      refine ⟨_ :: vs, ?_, .cons ⟨status, descriptors, hstatus, hds, rfl⟩ hvs⟩
      have hitem := (eventParts_value env e.head
        (e.descriptors.flatMap EitDescriptor.bytes).length hinside hmembers).item hitems first
        format_comma
      simpa only [List.append_assoc, List.cons_append, List.nil_append] using hitem

/-- The parts of a section, of which the events are printed. -/
theorem sectionParts_members (lenFull : Nat) (eit : List UInt8) {vs : List Json}
    (h : Items true parts vs) :
    Members (sectionParts lenFull eit ++ (parts ++ [.text "\n]\n"]))
      (sectionMembers 0 lenFull eit vs).tail := by
  have hevents : Next (.text ",\n\"EIT_events\":[\n" :: (parts ++ [.text "\n]\n"]))
      [(bytes "EIT_events", .array vs)] :=
    h.next_array (format [.one .comma, .quoted _, .one .colon, .one .openArray] _ _ rfl)
      (format [.one .closeArray] _ _ rfl)
  exact .number _ (format_key _ _ _ rfl) (.number _ (format_next _ _ _ rfl)
    (.number _ (format_next _ _ _ rfl) (.number _ (format_next _ _ _ rfl)
    (.number _ (format_next _ _ _ rfl) (.number _ (format_next _ _ _ rfl)
    (.number _ (format_next _ _ _ rfl) (.number _ (format_next _ _ _ rfl)
    (.number _ (format_next _ _ _ rfl) (.number _ (format_next _ _ _ rfl)
    (.number _ (format_next _ _ _ rfl) (.number _ (format_next _ _ _ rfl)
    (.number _ (format_next _ _ _ rfl) hevents))))))))))))

variable {fullEit : MumudvbTsPacket} {t : EitSection}

theorem unicastSendEITSection_value {number : Int} (hstored : Stored fullEit t)
    (h : unicastSendEITSection env fullEit number = .ok parts) (hvalid : Valid parts) :
    ∃ v, Value parts v ∧ SectionJson env number t v := by
  have hreads := hstored.reads
  rw [EitSection.bytes] at hreads
  have hevents := hreads.right
  rw [Nat.zero_add, t.headerLength] at hevents
  have hlenFull : fullEit.lenFull = eitLen + ((t.events.flatMap EitEvent.bytes).length + 4) := by
    rw [hstored.lenFull, EitSection.bytes, List.length_append, List.length_append, t.headerLength,
      t.crcLength]
  obtain ⟨contents, hcontents, h⟩ := bind_eq_ok.mp h
  cases h
  rw [eitDisplayContents, readBytes_all hreads t.headerLength, bind_ok] at hcontents
  obtain ⟨shown, hshown, hcontents⟩ := bind_eq_ok.mp hcontents
  cases hcontents
  simp only [valid_append, valid_text, valid_number, valid_nil, valid_sectionParts, true_and,
    and_true] at hvalid
  obtain ⟨vs, hitems, hvs⟩ := eventLoop_items hevents hlenFull hshown hvalid
  have hnext : Next (.text ",\n" :: _) _ :=
    (sectionParts_members fullEit.lenFull t.header hitems).behind (format [.one .comma] _ _ rfl)
  have hopen : Format "\n\x7b\n\t\"number\" : " [.openObject, .string (bytes "number"), .colon] :=
    format [.one .openObject, .quoted _, .one .colon] _ _ rfl
  have hclose : Format "\x7d" [.closeObject] := format [.one .closeObject] _ _ rfl
  have hvalue := hnext.number_object number hopen hclose
  refine ⟨_, hvalue, vs, hvs, ?_⟩
  rw [hstored.lenFull]
  rfl

end sections

/-! ## The tables -/

/-- The numbers of the sections that a node has. -/
def storedNumbers (node : EitNode) (numbers : List Nat) : List Nat :=
  numbers.filter fun i => node.sectionsStored.cells[i]? == some true

/-- Section `i` of a node, as an object. -/
def StoredJson (env : Outside) (node : EitNode) (i : Nat) (v : Json) : Prop :=
  ∃ pkt t, node.fullEitSections.cells[i]? = some (some pkt) ∧ HoldsSection node i pkt ∧
    Stored pkt t ∧ SectionJson env i t v

/-- A table: the numbers of its node, and its sections. -/
def TableJson (env : Outside) (node : EitNode) (v : Json) : Prop :=
  ∃ sections, List.Forall₂ (StoredJson env node)
      (storedNumbers node (List.range (node.lastSectionNumber + 1))) sections ∧
    v = .object [(bytes "sid", .string (integer node.serviceId)),
      (bytes "table_id", num node.tableId.toNat), (bytes "version", num node.version),
      (bytes "last_section_number", num node.lastSectionNumber),
      (bytes "EIT_sections", .array sections)]

/-- Each section of a node is a list of events that can be shown. -/
def Displayed (env : Outside) (node : EitNode) : Prop :=
  ∀ (i : Nat) pkt, node.fullEitSections.cells[i]? = some (some pkt) →
    ∃ t, Stored pkt t ∧ t.Sound env

section tables

variable {env : Outside} {node : EitNode}

theorem sectionsLoop_items (hinv : NodeInvariant node) (hdisplayed : Displayed env node)
    {numbers : List Nat} (hnumbers : ∀ i ∈ numbers, i < maxEitSections) (first : Bool) :
    ∃ parts vs, sectionsLoop env node first numbers = .ok parts ∧ Items first parts vs ∧
      List.Forall₂ (StoredJson env node) (storedNumbers node numbers) vs := by
  induction numbers generalizing first with
  | nil => exact ⟨[], [], rfl, items_nil first, .nil⟩
  | cons i is ih =>
    rw [List.forall_mem_cons] at hnumbers
    obtain ⟨stored, hread, hcell⟩ := node.sectionsStored.read_lt hnumbers.1
    rw [sectionsLoop, hread, bind_ok, storedNumbers, List.filter_cons, hcell]
    cases stored with
    | false => exact ih hnumbers.2 first
    | true =>
      obtain ⟨pkt, hpkt, hholds⟩ := hinv.stored i hcell
      obtain ⟨t, hstored, hsound⟩ := hdisplayed i pkt hpkt
      obtain ⟨contents, hcontents, hvalid⟩ := (eitDisplayContents_iff hstored).mpr hsound
      obtain ⟨shown, hshown, hvalid⟩ := (unicastSendEITSection_prints i).mpr
        ⟨contents, hcontents, hvalid⟩
      obtain ⟨v, hvalue, hsection⟩ := unicastSendEITSection_value hstored hshown hvalid
      obtain ⟨parts, vs, hrest, hitems, hvs⟩ := ih hnumbers.2 false
      refine ⟨_, v :: vs, ?_, hvalue.item hitems first format_comma,
        .cons ⟨pkt, t, hpkt, hholds, hstored, hsection⟩ hvs⟩
      rw [if_pos rfl, node.fullEitSections.read_ok hpkt, bind_ok]
      dsimp only
      rw [hshown, bind_ok, hrest]
      rfl

theorem tableParts_value (hinv : NodeInvariant node) (hdisplayed : Displayed env node) :
    ∃ parts v, tableParts env node = .ok parts ∧ Value parts v ∧ TableJson env node v := by
  have hnumbers : ∀ i ∈ List.range (node.lastSectionNumber + 1), i < maxEitSections := by
    intro i hi
    rw [List.mem_range] at hi
    exact Nat.lt_of_lt_of_le hi hinv.lastSectionNumber
  obtain ⟨sections, vs, hsections, hitems, hvs⟩ := sectionsLoop_items hinv hdisplayed hnumbers true
  have harray : Next (.text ",\n\"EIT_sections\":[\n" :: (sections ++ [.text "]\n"]))
      [(bytes "EIT_sections", .array vs)] :=
    hitems.next_array (format [.one .comma, .quoted _, .one .colon, .one .openArray] _ _ rfl)
      (format [.one .closeArray] _ _ rfl)
  have hmembers : Next (.text ",\n\t\"table_id\" : " :: .number node.tableId.toNat ::
      .text ",\n\t\"version\" : " :: .number node.version ::
      .text ",\n\t\"last_section_number\" : " :: .number node.lastSectionNumber :: _)
      ((bytes "table_id", num node.tableId.toNat) :: (bytes "version", num node.version) ::
      (bytes "last_section_number", num node.lastSectionNumber) :: _) :=
    .number _ (format_next _ _ _ rfl) (.number _ (format_next _ _ _ rfl)
      (.number _ (format_next _ _ _ rfl) harray))
  have hopen : Format "\x7b\n\t\"sid\" : " [.openObject, .string (bytes "sid"), .colon] :=
    format [.one .openObject, .quoted _, .one .colon] _ _ rfl
  have hclose : Format "\x7d" [.closeObject] := format [.one .closeObject] _ _ rfl
  have hvalue := hmembers.tail.string_object (plain_integer node.serviceId).inside hopen hclose
  simp only [List.append_assoc, List.cons_append, List.nil_append] at hvalue
  exact ⟨_, _, by rw [tableParts, hsections]; rfl, hvalue, vs, hvs, rfl⟩

theorem tablesLoop_items {nodes : List EitNode} (hinv : ∀ node ∈ nodes, NodeInvariant node)
    (hdisplayed : ∀ node ∈ nodes, Displayed env node) :
    ∃ parts vs, tablesLoop env nodes = .ok parts ∧ Items true parts vs ∧
      List.Forall₂ (TableJson env) nodes vs := by
  induction nodes with
  | nil => exact ⟨[], [], rfl, items_nil true, .nil⟩
  | cons node nodes ih =>
    rw [List.forall_mem_cons] at hinv hdisplayed
    obtain ⟨shown, v, hshown, hvalue, htable⟩ := tableParts_value hinv.1 hdisplayed.1
    obtain ⟨rest, vs, hrest, hitems, hvs⟩ := ih hinv.2 hdisplayed.2
    refine ⟨_, v :: vs, by rw [tablesLoop, hshown, bind_ok, hrest]; rfl, ?_, .cons htable hvs⟩
    -- the comma is written behind each table but the last one
    have hbehind : Items false ((if nodes.isEmpty then [] else [.text ",\n"]) ++ rest) vs := by
      cases hvs with
      | nil =>
        cases hrest
        exact items_nil false
      | cons => exact hitems.behind (format [.one .comma] _ _ rfl)
    obtain ⟨us, htokens, hmeans⟩ := hvalue
    obtain ⟨ws, htokens', hlisted⟩ := hbehind
    exact ⟨_, htokens.append htokens', hlisted.cons hmeans true⟩

/-- The page is one JSON text with all the tables. -/
theorem unicastSendEIT_parsed {nodes : List EitNode} (hinv : ∀ node ∈ nodes, NodeInvariant node)
    (hdisplayed : ∀ node ∈ nodes, Displayed env node) :
    ∃ parts tables, unicastSendEIT env nodes = .ok parts ∧
      parse (partsBytes parts) = some (.object [(bytes "EIT_tables", .array tables)]) ∧
      List.Forall₂ (TableJson env) nodes tables := by
  obtain ⟨shown, tables, hshown, ⟨ts, htokens, hlisted⟩, htables⟩ :=
    tablesLoop_items hinv hdisplayed
  refine ⟨_, tables, by rw [unicastSendEIT, hshown]; rfl, ?_, htables⟩
  have hopen : Format "\x7b\n\"EIT_tables\":[\n"
      [.openObject, .string (bytes "EIT_tables"), .colon, .openArray] :=
    format [.one .openObject, .quoted _, .one .colon, .one .openArray] _ _ rfl
  have hclose : Format "\x7d\n" [.closeObject] := format [.one .closeObject] _ _ rfl
  have hbracket : Tokens [.text "]\n"] [.closeArray] :=
    .text (format [.one .closeArray] _ _ rfl) .nil
  have hreads := (Tokens.text hopen (htokens.append hbracket)).reads
  obtain ⟨hscan, c, b, hbytes, hc⟩ := hclose
  rw [hbytes] at hscan
  have hall := hreads c b _ _ hc hscan
  have hmeans := (hlisted.array.single_member (bytes "EIT_tables")).object ⟨_, _, rfl⟩
  have htext : partsBytes (.text "\x7b\n\"EIT_tables\":[\n" ::
      (shown ++ [.text "]\n", .text "\x7d\n"])) =
      partsBytes (.text "\x7b\n\"EIT_tables\":[\n" :: (shown ++ [.text "]\n"])) ++ c :: b := by
    rw [← hbytes]
    simp [partsBytes, Part.bytes]
  rw [htext]
  exact parse_of_lex (lex_of_scan hall) hmeans

end tables

def namedHeader : List UInt8 :=
  [0x4e, 0xf0, 0x23, 0x00, 0x01, 0xc1, 0x00, 0x00, 0x00, 0x01, 0x00, 0x01, 0x00, 0x4e]

def namedCrc : List UInt8 := [0x53, 0xe4, 0x92, 0x57]

theorem namedHeader_length : namedHeader.length = eitLen := rfl

theorem namedCrc_length : namedCrc.length = 4 := rfl

theorem englishName_length : (8 : UInt8).toNat = englishName.bytes.length := rfl

/-- A section with an event that is named "A". -/
def namedSection : EitSection where
  header := namedHeader
  events := [eventOf englishName englishName_wellFormed 8 englishName_length]
  crc := namedCrc
  headerLength := namedHeader_length
  crcLength := namedCrc_length

def namedCells (counter : UInt8) : List UInt8 :=
  [0x47, 0x40, 18, counter, 0x00] ++ TsReassembly.pad 183 namedSection.bytes ++ List.replicate 8 0

theorem namedCells_length (counter : UInt8) : (namedCells counter).length = 196 := by
  simp [namedCells, TsReassembly.pad]
  omega

def namedPacket (counter : UInt8) : TableMemory := ⟨namedCells counter, namedCells_length counter⟩

/-- Each section that a node has is the one of the packet. -/
def holdsNamed (node : EitNode) : Bool :=
  node.fullEitSections.cells.all fun
    | none => true
    | some pkt => pkt.lenFull == 38 && pkt.dataFull.cells.take 38 == namedSection.bytes

def namedStore : Checked EitVars :=
  eitStorePackets [(namedPacket 0x13, EitDelivery.enough), (namedPacket 0x14, EitDelivery.enough)]
    (emptyStore true)

theorem namedStore_holds : (match namedStore with
    | .ok store => store.eitPackets.length == 1 && store.eitPackets.all holdsNamed
    | .error _ => false) = true := by
  decide +kernel

end MuMuDVB.EitPage
