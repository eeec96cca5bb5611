import MuMuDVB.EitDocument
import MuMuDVB.JsonFormats

/-!
# The EIT document as a value

The parts that the printers write are the tokens of a JSON value. The value of
a descriptor, an event, a section and a table is put together here in the order
of the printers, and `unicast_send_EIT` sends the one of all the tables.
-/
namespace MuMuDVB.EitTree

open CheckedMemory CString JsonText JsonFormats MuMuDVB.TsHeader MuMuDVB.Ts MuMuDVB.TsAssembler
open MuMuDVB.AutoconfTables MuMuDVB.NitNumbers MuMuDVB.SdtReading MuMuDVB.EitPrinters
open MuMuDVB.EitJson MuMuDVB.EitDocument

section tokens

def partsBytes (parts : List Part) : List UInt8 := parts.flatMap Part.bytes

/-- A number ends before the parts. -/
def Delimited (parts : List Part) : Prop := ∃ c b, partsBytes parts = c :: b ∧ delimits c = true

/-- The tokens of parts. -/
inductive Tokens : List Part → List Token → Prop where
  | nil : Tokens [] []
  | empty {parts : List Part} {us : List Token} : Tokens parts us → Tokens (.text "" :: parts) us
  | text {f : String} {parts : List Part} {ts us : List Token} :
      Format f ts → Tokens parts us → Tokens (.text f :: parts) (ts ++ us)
  | joined {f g : String} {parts : List Part} {ts us : List Token} :
      scan .between (bytes f ++ bytes g) = some (ts, .between) → Tokens parts us →
      Tokens (.text f :: .text g :: parts) (ts ++ us)
  | literal {content : List UInt8} {parts : List Part} {us : List Token} :
      Inside content → Tokens parts us → Tokens (.literal content :: parts) (.string content :: us)
  | numbered (n : Int) {parts : List Part} {us : List Token} : Delimited parts → Tokens parts us →
      Tokens (.number n :: parts) (.number (integer n) :: us)

variable {parts more : List Part} {ts us : List Token}

theorem delimited_format {f : String} (hf : Format f ts) (parts : List Part) :
    Delimited (.text f :: parts) := delimited_append hf.2 _

theorem Delimited.append (h : Delimited parts) (more : List Part) : Delimited (parts ++ more) := by
  rw [Delimited, partsBytes, List.flatMap_append]
  exact delimited_append h _

theorem Tokens.number (n : Int) {f : String} (hf : Format f ts) (h : Tokens parts us) :
    Tokens (.number n :: .text f :: parts) (.number (integer n) :: (ts ++ us)) :=
  .numbered n (delimited_format hf parts) (.text hf h)

theorem Tokens.append (h : Tokens parts ts) (h' : Tokens more us) :
    Tokens (parts ++ more) (ts ++ us) := by
  induction h with
  | nil => exact h'
  | empty _ ih => exact .empty ih
  | text hf _ ih =>
    rw [List.append_assoc]
    exact .text hf ih
  | joined hscan _ ih =>
    rw [List.append_assoc]
    exact .joined hscan ih
  | literal hinside _ ih => exact .literal hinside ih
  | numbered n hdelimited _ ih => exact .numbered n (hdelimited.append _) ih

/-- The parts are read as their tokens. -/
theorem Tokens.reads (h : Tokens parts ts) : Reads (partsBytes parts) ts := by
  induction h with
  | nil => exact reads_nil
  | empty _ ih => exact ih
  | text hf _ ih => exact ih.after hf.1
  | joined hscan _ ih =>
    have hjoined := ih.after hscan
    rw [List.append_assoc] at hjoined
    exact hjoined
  | literal hinside _ ih => exact ih.after (scan_literal hinside)
  | numbered n hdelimited _ ih =>
    have hnumber : Reads (integer n) [.number (integer n)] :=
      fun _ _ _ _ hc h => scan_integer_delimiter n hc h
    exact hnumber.append ih hdelimited

/-! ## Parts that are values -/

variable {ms : List (List UInt8 × Json)} {vs : List Json} {v : Json} {f g : String}
  {key content : List UInt8} {first : Bool}

def num (n : Int) : Json := .number (integer n)

theorem means_num (n : Int) : Means [.number (integer n)] (num n) := means_number _

/-- Parts that are one value. -/
def Value (parts : List Part) (v : Json) : Prop := ∃ ts, Tokens parts ts ∧ Means ts v

/-- The items of a list, from its first one on or behind it. -/
def Items (first : Bool) (parts : List Part) (vs : List Json) : Prop :=
  ∃ ts, Tokens parts ts ∧ Listed first ts vs

/-- The members of an object. -/
def Members (parts : List Part) (ms : List (List UInt8 × Json)) : Prop :=
  ∃ ts, Tokens parts ts ∧ MeansMembers ts ms ∧ ∃ key ts', ts = .string key :: ts'

/-- What is behind a member: other ones, or none. -/
def Tail (parts : List Part) (ms : List (List UInt8 × Json)) : Prop :=
  ∃ us, Tokens parts us ∧
    ((us = [] ∧ ms = []) ∨ ∃ ts, us = .comma :: ts ∧ MeansMembers ts ms)

/-- And a number ends before it. -/
structure Next (parts : List Part) (ms : List (List UInt8 × Json)) : Prop where
  tail : Tail parts ms
  start : Delimited parts

theorem items_nil (first : Bool) : Items first [] [] := ⟨[], .nil, listed_nil first⟩

theorem tail_nil : Tail [] [] := ⟨[], .nil, Or.inl ⟨rfl, rfl⟩⟩

theorem next_nil (hg : Format g []) : Next [.text g] [] :=
  ⟨⟨[], .text hg .nil, Or.inl ⟨rfl, rfl⟩⟩, delimited_format hg _⟩

/-- A value with a comma before it unless it is the first one. -/
theorem Value.item (h : Value parts v) (hrest : Items false more vs) (first : Bool)
    (hg : Format g [.comma]) :
    Items first (.text (if first then "" else g) :: (parts ++ more)) (v :: vs) := by
  obtain ⟨ts, htokens, hmeans⟩ := h
  obtain ⟨us, htokens', hlisted⟩ := hrest
  have hboth := htokens.append htokens'
  refine ⟨leading first ++ (ts ++ us), ?_, hlisted.cons hmeans first⟩
  cases first with
  | true => exact .empty hboth
  | false => exact .text hg hboth

/-- Items with the comma before them. -/
theorem Items.behind (h : Items true parts (v :: vs)) (hg : Format g [.comma]) :
    Items false (.text g :: parts) (v :: vs) := by
  obtain ⟨ts, htokens, hlisted⟩ := h
  refine ⟨_, .text hg htokens, ?_⟩
  rcases hlisted with ⟨-, hnil⟩ | ⟨us, rfl, hitems, hhead⟩
  · cases hnil
  · exact Or.inr ⟨_, rfl, hitems, hhead⟩

/-- The tokens of a value and of what is behind it. -/
theorem means_tail {us : List Token} (hv : Means ts v) (key : List UInt8)
    (h : (us = [] ∧ ms = []) ∨ ∃ ts, us = .comma :: ts ∧ MeansMembers ts ms) :
    MeansMembers (.string key :: .colon :: (ts ++ us)) ((key, v) :: ms) := by
  rcases h with ⟨rfl, rfl⟩ | ⟨us, rfl, hmembers⟩
  · rw [List.append_nil]
    exact hv.single_member key
  · exact hv.cons_member key hmembers

theorem Members.number (n : Int) (hf : Format f [.string key, .colon]) (h : Next parts ms) :
    Members (.text f :: .number n :: parts) ((key, num n) :: ms) := by
  obtain ⟨us, htokens, htail⟩ := h.tail
  exact ⟨_, .text hf (.numbered n h.start htokens), means_tail (means_num n) key htail, key, _, rfl⟩

theorem Members.string (hcontent : Inside content) (hf : Format f [.string key, .colon])
    (h : Tail parts ms) :
    Members (.text f :: .literal content :: parts) ((key, .string content) :: ms) := by
  obtain ⟨us, htokens, htail⟩ := h
  exact ⟨_, .text hf (.literal hcontent htokens), means_tail (means_string content) key htail,
    key, _, rfl⟩

/-- Members with the comma before them. -/
theorem Members.behind (h : Members parts ms) (hg : Format g [.comma]) :
    Next (.text g :: parts) ms := by
  obtain ⟨ts, htokens, hmeans, -⟩ := h
  exact ⟨⟨_, .text hg htokens, Or.inr ⟨ts, rfl, hmeans⟩⟩, delimited_format hg _⟩

theorem Next.number (n : Int) (hf : Format f [.comma, .string key, .colon]) (h : Next parts ms) :
    Next (.text f :: .number n :: parts) ((key, num n) :: ms) := by
  obtain ⟨us, htokens, htail⟩ := h.tail
  exact ⟨⟨_, .text hf (.numbered n h.start htokens), Or.inr ⟨_, rfl,
    means_tail (means_num n) key htail⟩⟩, delimited_format hf _⟩

theorem Next.string (hcontent : Inside content) (hf : Format f [.comma, .string key, .colon])
    (h : Tail parts ms) :
    Next (.text f :: .literal content :: parts) ((key, .string content) :: ms) := by
  obtain ⟨us, htokens, htail⟩ := h
  exact ⟨⟨_, .text hf (.literal hcontent htokens), Or.inr ⟨_, rfl,
    means_tail (means_string content) key htail⟩⟩, delimited_format hf _⟩

/-- The last member is an array. -/
theorem Items.next_array (h : Items true parts vs)
    (hf : Format f [.comma, .string key, .colon, .openArray]) (hg : Format g [.closeArray]) :
    Next (around f parts g) [(key, .array vs)] := by
  obtain ⟨ts, htokens, hlisted⟩ := h
  exact ⟨⟨_, .text hf (htokens.append (.text hg .nil)), Or.inr ⟨_, rfl,
    hlisted.array.single_member key⟩⟩, delimited_format hf _⟩

theorem Items.array_member (h : Items true parts vs)
    (hf : Format f [.string key, .colon, .openArray]) (hg : Format g [.closeArray]) :
    Members (around f parts g) [(key, .array vs)] := by
  obtain ⟨ts, htokens, hlisted⟩ := h
  exact ⟨_, .text hf (htokens.append (.text hg .nil)), hlisted.array.single_member key, key, _, rfl⟩

/-- An object with a number first. -/
theorem Next.number_object (n : Int) (hf : Format f [.openObject, .string key, .colon])
    (hg : Format g [.closeObject]) (h : Next parts ms) :
    Value (.text f :: .number n :: (parts ++ [.text g])) (.object ((key, num n) :: ms)) := by
  obtain ⟨us, htokens, htail⟩ := h.tail
  have hall := (Tokens.numbered n h.start htokens).append (.text hg .nil)
  exact ⟨_, .text hf hall, (means_tail (means_num n) key htail).object ⟨key, _, rfl⟩⟩

/-- And with a string first. -/
theorem Tail.string_object (hcontent : Inside content)
    (hf : Format f [.openObject, .string key, .colon]) (hg : Format g [.closeObject])
    (h : Tail parts ms) :
    Value (.text f :: .literal content :: (parts ++ [.text g]))
      (.object ((key, .string content) :: ms)) := by
  obtain ⟨us, htokens, htail⟩ := h
  have hall := (Tokens.literal hcontent htokens).append (.text hg .nil)
  exact ⟨_, .text hf hall, (means_tail (means_string content) key htail).object ⟨key, _, rfl⟩⟩

/-- An object before other items. -/
theorem Members.item (h : Members parts ms) (hrest : Items false more vs)
    (hf : Format f (leading first ++ [.openObject])) (hg : Format g [.closeObject]) :
    Items first (.text f :: (parts ++ .text g :: more)) (.object ms :: vs) := by
  obtain ⟨ts, htokens, hmeans, hhead⟩ := h
  obtain ⟨us, htokens', hlisted⟩ := hrest
  refine ⟨_, .text hf (htokens.append (.text hg htokens')), ?_⟩
  have hitem := hlisted.cons (hmeans.object hhead) first
  simpa using hitem

end tokens

/-! ## The printers of the descriptors -/

section printers

variable {env : Outside} {dataFull : Buffer UInt8 maxTsSize} {a : Nat} {parts : List Part}

theorem shortEvt_members (h : eitShowShortEvtDescr env dataFull a = .ok parts)
    (hvalid : Valid parts) : ∃ language name text, Members parts
      [(bytes "language", .string language), (bytes "name", .string name),
        (bytes "text", .string text)] := by
  obtain ⟨language, -, h⟩ := bind_eq_ok.mp h
  obtain ⟨nameLength, -, h⟩ := bind_eq_ok.mp h
  obtain ⟨name, -, h⟩ := bind_eq_ok.mp h
  obtain ⟨textLength, -, h⟩ := bind_eq_ok.mp h
  obtain ⟨text, -, h⟩ := bind_eq_ok.mp h
  cases h
  simp only [valid_text, valid_literal, valid_nil, and_true] at hvalid
  have htext : Next [.text ",\n\t\t\"text\" : ", .literal text, .text "\n"]
      [(bytes "text", .string text)] :=
    .string hvalid.2.2 (format_next _ _ _ rfl) (next_nil (format [] _ _ rfl)).tail
  have hname : Next (.text ",\n\t\t\"name\" : " :: .literal name :: _)
      ((bytes "name", .string name) :: _) :=
    .string hvalid.2.1 (format_next _ _ _ rfl) htext.tail
  exact ⟨language, name, text, .string hvalid.1 (format_key _ _ _ rfl) hname.tail⟩

/-- The items of an extended event descriptor. -/
def itemJson (item : List UInt8 × List UInt8) : Json :=
  .object [(bytes "item_descr", .string item.1), (bytes "item", .string item.2)]

theorem itemLoop_items {fuel length : Nat} {first : Bool} {shown : Nat × List Part}
    (h : itemLoop env dataFull fuel a length first = .ok shown) (hvalid : Valid shown.2) :
    ∃ items : List (List UInt8 × List UInt8), Items first shown.2 (items.map itemJson) := by
  induction fuel generalizing a length first shown with
  | zero => cases h
  | succ fuel ih =>
    rw [itemLoop] at h
    split at h
    · obtain ⟨descrLength, -, h⟩ := bind_eq_ok.mp h
      obtain ⟨descr, -, h⟩ := bind_eq_ok.mp h
      obtain ⟨itemLength, -, h⟩ := bind_eq_ok.mp h
      obtain ⟨item, -, h⟩ := bind_eq_ok.mp h
      obtain ⟨rest, hrest, h⟩ := bind_eq_ok.mp h
      cases h
      simp only [valid_text, valid_literal] at hvalid
      obtain ⟨items, hitems⟩ := ih hrest hvalid.2.2
      have hitem : Next [.text ",\n\t\t\"item\" : ", .literal item]
          [(bytes "item", .string item)] :=
        .string hvalid.2.1 (format_next _ _ _ rfl) tail_nil
      have hmembers : Members (.text "\t\t\"item_descr\" : " :: .literal descr :: _)
          ((bytes "item_descr", .string descr) :: _) :=
        .string hvalid.1 (format_key _ _ _ rfl) hitem.tail
      refine ⟨(descr, item) :: items, hmembers.item hitems ?_ (format [.one .closeObject] _ _ rfl)⟩
      cases first with
      | true => exact format [.one .openObject] _ _ rfl
      | false => exact format [.one .comma, .one .openObject] _ _ rfl
    · cases h
      exact ⟨[], items_nil first⟩

theorem extEvt_members (h : eitShowExtEvtDescr env dataFull a = .ok parts)
    (hvalid : Valid parts) :
    ∃ (number total : Nat) (language : List UInt8) (items : List (List UInt8 × List UInt8))
      (text : List UInt8), Members parts
      [(bytes "descr_number", num number), (bytes "descr_total_number", num total),
        (bytes "language", .string language), (bytes "items", .array (items.map itemJson)),
        (bytes "text", .string text)] := by
  obtain ⟨numbers, -, h⟩ := bind_eq_ok.mp h
  obtain ⟨language, -, h⟩ := bind_eq_ok.mp h
  obtain ⟨lengthOfItems, -, h⟩ := bind_eq_ok.mp h
  obtain ⟨shown, hshown, h⟩ := bind_eq_ok.mp h
  obtain ⟨textLength, -, h⟩ := bind_eq_ok.mp h
  obtain ⟨text, -, h⟩ := bind_eq_ok.mp h
  cases h
  simp only [valid_append, valid_text, valid_number, valid_literal, valid_nil, and_true] at hvalid
  obtain ⟨⟨hlanguage, hitemsValid⟩, htext⟩ := hvalid
  obtain ⟨items, ts, htokens, hlisted⟩ := itemLoop_items hshown hitemsValid
  have hopen : Format ",\n\t\t\"items\":[" [.comma, .string (bytes "items"), .colon, .openArray] :=
    format [.one .comma, .quoted _, .one .colon, .one .openArray] _ _ rfl
  -- the bracket is closed where the next member is named
  have htail : Tokens [.text "],\n\t\t\"text\": ", .literal text, .text "\n"]
      [.closeArray, .comma, .string (bytes "text"), .colon, .string text] :=
    .text (format [.one .closeArray, .one .comma, .quoted _, .one .colon] _ _ rfl)
      (.literal htext (.text (format [] _ _ rfl) .nil))
  have hitems : Next (.text ",\n\t\t\"items\":[" :: (shown.2 ++
      [.text "],\n\t\t\"text\": ", .literal text, .text "\n"]))
      [(bytes "items", .array (items.map itemJson)), (bytes "text", .string text)] := by
    have hmeans := hlisted.array.cons_member (bytes "items")
      ((means_string text).single_member (bytes "text"))
    refine ⟨⟨_, .text hopen (htokens.append htail), Or.inr ⟨.string (bytes "items") :: .colon ::
      .openArray :: (ts ++ [.closeArray, .comma, .string (bytes "text"), .colon, .string text]),
      rfl, ?_⟩⟩, delimited_format hopen _⟩
    simpa only [List.append_assoc, List.cons_append, List.nil_append] using hmeans
  have hlang : Next (.text ",\n\t\t\"language\" : " :: .literal language :: _)
      ((bytes "language", .string language) :: _) :=
    .string hlanguage (format_next _ _ _ rfl) hitems.tail
  have htotal : Next (.text " ,\n\t\t\"descr_total_number\" : " ::
      .number (numbers.toNat % 16 + 1 : Nat) :: _)
      ((bytes "descr_total_number", num (numbers.toNat % 16 + 1 : Nat)) :: _) :=
    .number _ (format_next _ _ _ rfl) hlang
  refine ⟨numbers.toNat / 16 + 1, numbers.toNat % 16 + 1, language, items, text, ?_⟩
  have hmembers := Members.number (numbers.toNat / 16 + 1 : Nat)
    (show Format "\t\t\"descr_number\" : " [.string (bytes "descr_number"), .colon] from
      format_key _ _ _ rfl) htotal
  rwa [List.append_assoc]

/-- A component, of which a short descriptor has the length only. -/
def IsComponent (ms : List (List UInt8 × Json)) : Prop :=
  ∃ len : Nat, ms = [(bytes "len", num len)] ∨
    ∃ (content type tag : Nat) (language text : List UInt8),
      ms = [(bytes "len", num len), (bytes "stream_content", num content),
        (bytes "component_type", num type), (bytes "component_tag", num tag),
        (bytes "language", .string language), (bytes "text", .string text)]

theorem component_members (h : eitShowComponentDescr env dataFull a = .ok parts)
    (hvalid : Valid parts) : ∃ ms, IsComponent ms ∧ Members parts ms := by
  obtain ⟨len, -, h⟩ := bind_eq_ok.mp h
  split at h
  · obtain ⟨streamContent, -, h⟩ := bind_eq_ok.mp h
    obtain ⟨componentType, -, h⟩ := bind_eq_ok.mp h
    obtain ⟨componentTag, -, h⟩ := bind_eq_ok.mp h
    obtain ⟨language, -, h⟩ := bind_eq_ok.mp h
    obtain ⟨text, -, h⟩ := bind_eq_ok.mp h
    cases h
    simp only [valid_text, valid_number, valid_literal, valid_nil, and_true] at hvalid
    refine ⟨_, ⟨len.toNat, Or.inr ⟨streamContent.toNat % 16, componentType.toNat,
      componentTag.toNat, language, text, rfl⟩⟩, ?_⟩
    have htext : Next [.text ",\n\t\t\"text\" : ", .literal text, .text "\n"]
        [(bytes "text", .string text)] :=
      .string hvalid.2 (format_next _ _ _ rfl) (next_nil (format [] _ _ rfl)).tail
    have hlanguage : Next (.text ",\n\t\t\"language\" : " :: .literal language :: _)
        ((bytes "language", .string language) :: _) :=
      .string hvalid.1 (format_next _ _ _ rfl) htext.tail
    exact .number _ (format_key _ _ _ rfl) (.number _ (format_next _ _ _ rfl)
      (.number _ (format_next _ _ _ rfl) (.number _ (format_next _ _ _ rfl) hlanguage)))
  · cases h
    exact ⟨_, ⟨len.toNat, Or.inl rfl⟩,
      .number _ (format_key _ _ _ rfl) (next_nil (format [] _ _ rfl))⟩

/-- A system of conditional access. -/
def caJson (ca : Nat × List UInt8) : Json :=
  .object [(bytes "id", num ca.1), (bytes "descr", .string ca.2)]

theorem caLoop_items {fuel buf i length : Nat} {first : Bool}
    (h : caLoop dataFull fuel buf i length first = .ok parts) :
    ∃ systems : List (Nat × List UInt8), Items first parts (systems.map caJson) := by
  induction fuel generalizing i first parts with
  | zero => cases h
  | succ fuel ih =>
    rw [caLoop] at h
    split at h
    · obtain ⟨caId, -, h⟩ := bind_eq_ok.mp h
      obtain ⟨rest, hrest, h⟩ := bind_eq_ok.mp h
      cases h
      obtain ⟨systems, hsystems⟩ := ih hrest
      have hdescr : Next [.text ",\n\t\t\t\"descr\" : ", .literal (caSysIdToStr caId)]
          [(bytes "descr", .string (caSysIdToStr caId))] :=
        .string (inside_caSysIdToStr caId) (format_next _ _ _ rfl) tail_nil
      have hmembers : Members (.text "\t\t\t\"id\" :" :: .number caId :: _)
          ((bytes "id", num caId) :: _) :=
        .number _ (format_key _ _ _ rfl) hdescr
      refine ⟨(caId, caSysIdToStr caId) :: systems,
        hmembers.item hsystems ?_ (format [.one .closeObject] _ _ rfl)⟩
      cases first with
      | true => exact format [.one .openObject] _ _ rfl
      | false => exact format [.one .comma, .one .openObject] _ _ rfl
    · cases h
      exact ⟨[], items_nil first⟩

theorem caIdentifier_members (h : eitShowCAIdentifierDescriptor dataFull a = .ok parts) :
    ∃ systems : List (Nat × List UInt8), Members parts
      [(bytes "CA_system_id", .array (systems.map caJson))] := by
  obtain ⟨length, -, h⟩ := bind_eq_ok.mp h
  obtain ⟨rest, hrest, h⟩ := bind_eq_ok.mp h
  cases h
  obtain ⟨systems, hsystems⟩ := caLoop_items hrest
  exact ⟨systems, hsystems.array_member (format [.quoted _, .one .colon, .one .openArray] _ _ rfl)
    (format [.one .closeArray] _ _ rfl)⟩

theorem content_members (h : eitShowContentDescriptor dataFull a = .ok parts) :
    ∃ level1 level2 user : Nat, Members parts
      [(bytes "content_nibble_lvl_1", num level1), (bytes "content_nibble_lvl_2", num level2),
        (bytes "user byte", num user)] := by
  obtain ⟨nibbles, -, h⟩ := bind_eq_ok.mp h
  obtain ⟨userByte, -, h⟩ := bind_eq_ok.mp h
  cases h
  exact ⟨_, _, _, .number _ (format_key _ _ _ rfl) (.number _ (format_next _ _ _ rfl)
    (.number _ (format_next _ _ _ rfl) (next_nil (format [] _ _ rfl))))⟩

/-- A rating for a country. -/
def ratingJson (rating : List UInt8 × List UInt8) : Json :=
  .object [(bytes "language", .string rating.1), (bytes "rating", .string rating.2)]

theorem ratingParts_members (rating : UInt8) :
    ∃ shown, Members (ratingParts rating) [(bytes "rating", .string shown)] := by
  have hconstant : ∀ {f : String} {shown : List UInt8},
      Format f [.string (bytes "rating"), .colon, .string shown] →
      Members [.text f] [(bytes "rating", .string shown)] := fun hf =>
    ⟨_, .text hf .nil, (means_string _).single_member _, _, _, rfl⟩
  rw [ratingParts]
  split
  · exact ⟨bytes "undefined", hconstant (format [.quoted _, .one .colon, .quoted _] _ _ rfl)⟩
  · split
    · exact ⟨_, .string ((plain_bytes _ rfl).inside.append (plain_integer _).inside)
        (format_key _ _ _ rfl) (next_nil (format [] _ _ rfl)).tail⟩
    · exact ⟨bytes "defined by broadcaster",
        hconstant (format [.quoted _, .one .colon, .quoted _] _ _ rfl)⟩

theorem ratingLoop_items {fuel buf delta length : Nat}
    (h : ratingLoop dataFull fuel buf delta length = .ok parts) (hvalid : Valid parts) :
    ∃ ratings : List (List UInt8 × List UInt8),
      Items (decide (delta ≤ 2)) parts (ratings.map ratingJson) := by
  induction fuel generalizing delta length parts with
  | zero => cases h
  | succ fuel ih =>
    rw [ratingLoop] at h
    split at h
    · obtain ⟨language, -, h⟩ := bind_eq_ok.mp h
      obtain ⟨rating, -, h⟩ := bind_eq_ok.mp h
      obtain ⟨rest, hrest, h⟩ := bind_eq_ok.mp h
      cases h
      simp only [valid_text, valid_literal, valid_append] at hvalid
      obtain ⟨ratings, hratings⟩ := ih hrest hvalid.2.2
      rw [decide_eq_false (show ¬ delta + 4 ≤ 2 by omega)] at hratings
      obtain ⟨shown, hshown⟩ := ratingParts_members rating
      have hcomma : Format ",\n" [.comma] := format [.one .comma] _ _ rfl
      have hopen : Format "\t\t\x7b\n\t\t\t\"language\" : "
          [.openObject, .string (bytes "language"), .colon] :=
        format [.one .openObject, .quoted _, .one .colon] _ _ rfl
      have hclose : Format "\t\t\x7d" [.closeObject] := format [.one .closeObject] _ _ rfl
      have hobject := (hshown.behind hcomma).tail.string_object hvalid.1 hopen hclose
      have hitem := hobject.item hratings (decide (delta ≤ 2)) hcomma
      have hleading :
          (if decide (delta ≤ 2) then "" else ",\n") = if 2 < delta then ",\n" else "" := by
        by_cases hdelta : 2 < delta
        · rw [if_pos hdelta, decide_eq_false (by omega), if_neg (by decide)]
        · rw [if_neg hdelta, decide_eq_true (by omega), if_pos rfl]
      refine ⟨(language, shown) :: ratings, ?_⟩
      rw [hleading] at hitem
      simpa only [List.append_assoc, List.cons_append, List.nil_append, List.map_cons,
        ratingJson] using hitem
    · cases h
      exact ⟨[], items_nil _⟩

/-- A component with its text. -/
def componentJson (c : List UInt8 × List UInt8) : Json :=
  .object [(bytes "language", .string c.1), (bytes "text", .string c.2)]

theorem componentLoop_items {fuel length : Nat} {first : Bool}
    (h : componentLoop env dataFull fuel a length first = .ok parts) (hvalid : Valid parts) :
    ∃ components : List (List UInt8 × List UInt8),
      Items first parts (components.map componentJson) := by
  induction fuel generalizing a length first parts with
  | zero => cases h
  | succ fuel ih =>
    rw [componentLoop] at h
    split at h
    · obtain ⟨language, -, h⟩ := bind_eq_ok.mp h
      obtain ⟨textLength, -, h⟩ := bind_eq_ok.mp h
      obtain ⟨arrays, -, h⟩ := bind_eq_ok.mp h
      obtain ⟨text, -, h⟩ := bind_eq_ok.mp h
      obtain ⟨rest, hrest, h⟩ := bind_eq_ok.mp h
      cases h
      simp only [valid_text, valid_literal] at hvalid
      obtain ⟨components, hcomponents⟩ := ih hrest hvalid.2.2
      have htext : Next [.text ",\n\t\t\"text\" : ", .literal text]
          [(bytes "text", .string text)] :=
        .string hvalid.2.1 (format_next _ _ _ rfl) tail_nil
      have hmembers : Members (.text "\t\t\"language\" : " :: .literal language :: _)
          ((bytes "language", .string language) :: _) :=
        .string hvalid.1 (format_key _ _ _ rfl) htext.tail
      refine ⟨(language, text) :: components,
        hmembers.item hcomponents ?_ (format [.one .closeObject] _ _ rfl)⟩
      cases first with
      | true => exact format [.one .openObject] _ _ rfl
      | false => exact format [.one .comma, .one .openObject] _ _ rfl
    · cases h
      exact ⟨[], items_nil first⟩

theorem multilingComp_members (h : eitShowMultilingCompDescr env dataFull a = .ok parts)
    (hvalid : Valid parts) :
    ∃ (tag : Nat) (components : List (List UInt8 × List UInt8)), Members parts
      [(bytes "component_tag", num tag),
        (bytes "components", .array (components.map componentJson))] := by
  obtain ⟨length, -, h⟩ := bind_eq_ok.mp h
  obtain ⟨componentTag, -, h⟩ := bind_eq_ok.mp h
  obtain ⟨rest, hrest, h⟩ := bind_eq_ok.mp h
  cases h
  simp only [valid_text, valid_number, valid_append, valid_nil, and_true] at hvalid
  obtain ⟨components, hcomponents⟩ := componentLoop_items hrest hvalid
  exact ⟨componentTag.toNat, components, .number _ (format_key _ _ _ rfl) (hcomponents.next_array
    (format [.one .comma, .quoted _, .one .colon, .one .openArray] _ _ rfl)
    (format [.one .closeArray] _ _ rfl))⟩

/-- The members of a descriptor behind its tag and its length: what it is called, and what is
shown of it. -/
inductive Shown : UInt8 → List (List UInt8 × Json) → Prop where
  | shortEvt (language name text : List UInt8) : Shown 0x4d
      [(bytes "descr", .string (bytes "Short event descriptor")), (bytes "short_evt", .object
        [(bytes "language", .string language), (bytes "name", .string name),
          (bytes "text", .string text)])]
  | extEvt (number total : Nat) (language : List UInt8) (items : List (List UInt8 × List UInt8))
      (text : List UInt8) : Shown 0x4e
      [(bytes "descr", .string (bytes "Extended event descriptor")), (bytes "ext_evt", .object
        [(bytes "descr_number", num number), (bytes "descr_total_number", num total),
          (bytes "language", .string language), (bytes "items", .array (items.map itemJson)),
          (bytes "text", .string text)])]
  | component (ms : List (List UInt8 × Json)) : IsComponent ms → Shown 0x50
      [(bytes "descr", .string (bytes "Component descriptor")), (bytes "component", .object ms)]
  | caIdentifier (systems : List (Nat × List UInt8)) : Shown 0x53
      [(bytes "descr", .string (bytes "CA identifier descriptor")), (bytes "CA_identifier", .object
        [(bytes "CA_system_id", .array (systems.map caJson))])]
  | content (level1 level2 user : Nat) : Shown 0x54
      [(bytes "descr", .string (bytes
          "Content descriptor (type of program cf tabl 28 EN 300 468 V1.13.1)")),
        (bytes "content", .object [(bytes "content_nibble_lvl_1", num level1),
          (bytes "content_nibble_lvl_2", num level2), (bytes "user byte", num user)])]
  | parentRating (ratings : List (List UInt8 × List UInt8)) : Shown 0x55
      [(bytes "descr", .string (bytes "Parental rating descriptor")),
        (bytes "parental_rating", .array (ratings.map ratingJson))]
  | multilingComp (tag : Nat) (components : List (List UInt8 × List UInt8)) : Shown 0x5e
      [(bytes "descr", .string (bytes "Multilingual component descriptor")),
        (bytes "multiling_component", .object [(bytes "component_tag", num tag),
          (bytes "components", .array (components.map componentJson))])]
  | other (tag : UInt8) (descr : List UInt8) : Shown tag [(bytes "descr", .string descr)]

/-- What a descriptor is called, and an object. -/
theorem Members.next {ms : List (List UInt8 × Json)} {f g : String} {key descr : List UInt8}
    (h : Members parts ms)
    (hf : Format f [.comma, .string (bytes "descr"), .colon, .string descr, .comma, .string key,
      .colon, .openObject])
    (hg : Format g [.closeObject]) :
    Next (around f parts g) [(bytes "descr", .string descr), (key, .object ms)] := by
  obtain ⟨ts, htokens, hmeans, hhead⟩ := h
  exact ⟨⟨_, .text hf (htokens.append (.text hg .nil)), Or.inr ⟨_, rfl,
    (means_string descr).cons_member _ ((hmeans.object hhead).single_member key)⟩⟩,
    delimited_format hf _⟩

theorem otherDescr_format (tag : UInt8) : ∃ descr, Format (otherDescr tag)
    [.comma, .string (bytes "descr"), .colon, .string descr] := by
  rw [otherDescr]
  split
  · exact ⟨bytes "Time shifted event descriptor",
      format [.one .comma, .quoted _, .one .colon, .quoted _] _ _ rfl⟩
  split
  · exact ⟨bytes "Telephone descriptor",
      format [.one .comma, .quoted _, .one .colon, .quoted _] _ _ rfl⟩
  split
  · exact ⟨bytes "Private data specifier descriptor",
      format [.one .comma, .quoted _, .one .colon, .quoted _] _ _ rfl⟩
  split
  · exact ⟨bytes "Short smoothing buffer descriptor",
      format [.one .comma, .quoted _, .one .colon, .quoted _] _ _ rfl⟩
  split
  · exact ⟨bytes "PDC descriptor",
      format [.one .comma, .quoted _, .one .colon, .quoted _] _ _ rfl⟩
  · exact ⟨bytes "Unknown descriptor",
      format [.one .comma, .quoted _, .one .colon, .quoted _] _ _ rfl⟩

theorem showDescriptor_next {tag : UInt8} (h : showDescriptor env dataFull tag a = .ok parts)
    (hvalid : Valid parts) : ∃ ms, Shown tag ms ∧ Next parts ms := by
  rw [showDescriptor] at h
  split at h
  case isTrue htag =>
    subst htag
    obtain ⟨shown, hshown, h⟩ := bind_eq_ok.mp h
    cases h
    obtain ⟨language, name, text, hmembers⟩ :=
      shortEvt_members hshown ((valid_around _ _).mp hvalid)
    exact ⟨_, .shortEvt language name text, hmembers.next
      (format [.one .comma, .quoted _, .one .colon, .quoted _, .one .comma, .quoted _, .one .colon,
        .one .openObject] _ _ rfl) (format [.one .closeObject] _ _ rfl)⟩
  split at h
  case isTrue htag =>
    subst htag
    obtain ⟨shown, hshown, h⟩ := bind_eq_ok.mp h
    cases h
    obtain ⟨number, total, language, items, text, hmembers⟩ :=
      extEvt_members hshown ((valid_around _ _).mp hvalid)
    exact ⟨_, .extEvt number total language items text, hmembers.next
      (format [.one .comma, .quoted _, .one .colon, .quoted _, .one .comma, .quoted _, .one .colon,
        .one .openObject] _ _ rfl) (format [.one .closeObject] _ _ rfl)⟩
  split at h
  case isTrue htag =>
    subst htag
    obtain ⟨shown, hshown, h⟩ := bind_eq_ok.mp h
    cases h
    obtain ⟨ms, hcomponent, hmembers⟩ := component_members hshown ((valid_around _ _).mp hvalid)
    exact ⟨_, .component ms hcomponent, hmembers.next
      (format [.one .comma, .quoted _, .one .colon, .quoted _, .one .comma, .quoted _, .one .colon,
        .one .openObject] _ _ rfl) (format [.one .closeObject] _ _ rfl)⟩
  split at h
  case isTrue htag =>
    subst htag
    obtain ⟨shown, hshown, h⟩ := bind_eq_ok.mp h
    cases h
    obtain ⟨systems, hmembers⟩ := caIdentifier_members hshown
    exact ⟨_, .caIdentifier systems, hmembers.next
      (format [.one .comma, .quoted _, .one .colon, .quoted _, .one .comma, .quoted _, .one .colon,
        .one .openObject] _ _ rfl) (format [.one .closeObject] _ _ rfl)⟩
  split at h
  case isTrue htag =>
    subst htag
    obtain ⟨shown, hshown, h⟩ := bind_eq_ok.mp h
    cases h
    obtain ⟨level1, level2, user, ts, htokens, hmeans, hhead⟩ := content_members hshown
    -- the name is written in two pieces
    have hscan : scan .between
        (bytes ",\n\t\t\"descr\" : \"Content descriptor (type of program cf tabl 28 " ++
        bytes "EN 300 468 V1.13.1)\",\n\t\t\"content\":\x7b\n") = some ([.comma,
        .string (bytes "descr"), .colon, .string (bytes
          "Content descriptor (type of program cf tabl 28 EN 300 468 V1.13.1)"), .comma,
        .string (bytes "content"), .colon, .openObject], .between) :=
      scan_joined [.one .comma, .quoted _, .one .colon, .quoted _, .one .comma, .quoted _,
        .one .colon, .one .openObject] _ _ rfl
    exact ⟨_, .content level1 level2 user,
      ⟨_, .joined hscan (htokens.append (.text (format [.one .closeObject] _ _ rfl) .nil)),
        Or.inr ⟨_, rfl, (means_string _).cons_member _ ((hmeans.object hhead).single_member _)⟩⟩,
      44, _, congrArg (· ++ _) (bytes_ofList _), rfl⟩
  split at h
  case isTrue htag =>
    subst htag
    obtain ⟨shown, hshown, h⟩ := bind_eq_ok.mp h
    cases h
    obtain ⟨length, -, hloop⟩ := bind_eq_ok.mp hshown
    obtain ⟨ratings, ts, htokens, hlisted⟩ := ratingLoop_items hloop ((valid_around _ _).mp hvalid)
    have hf : Format
        ",\n\t\t\"descr\" : \"Parental rating descriptor\",\n\t\t\"parental_rating\":[\n"
        [.comma, .string (bytes "descr"), .colon, .string (bytes "Parental rating descriptor"),
          .comma, .string (bytes "parental_rating"), .colon, .openArray] :=
      format [.one .comma, .quoted _, .one .colon, .quoted _, .one .comma, .quoted _, .one .colon,
        .one .openArray] _ _ rfl
    exact ⟨_, .parentRating ratings,
      ⟨_, .text hf (htokens.append (.text (format [.one .closeArray] _ _ rfl) .nil)),
        Or.inr ⟨_, rfl, (means_string _).cons_member _ (hlisted.array.single_member _)⟩⟩,
      delimited_format hf _⟩
  split at h
  case isTrue htag =>
    subst htag
    obtain ⟨shown, hshown, h⟩ := bind_eq_ok.mp h
    cases h
    obtain ⟨tag', components, ts, htokens, hmeans, hhead⟩ := multilingComp_members hshown
      ((valid_around _ _).mp ((valid_text _).mp hvalid))
    have hf : Format ",\n\t\t\"descr\" : \"Multilingual component descriptor\",\n" [.comma,
        .string (bytes "descr"), .colon, .string (bytes "Multilingual component descriptor"),
        .comma] :=
      format [.one .comma, .quoted _, .one .colon, .quoted _, .one .comma] _ _ rfl
    have hopen : Format "\t\t\"multiling_component\":\x7b\n"
        [.string (bytes "multiling_component"), .colon, .openObject] :=
      format [.quoted _, .one .colon, .one .openObject] _ _ rfl
    exact ⟨_, .multilingComp tag' components,
      ⟨_, .text hf (.text hopen (htokens.append
        (.text (format [.one .closeObject] _ _ rfl) .nil))),
        Or.inr ⟨_, rfl, (means_string _).cons_member _ ((hmeans.object hhead).single_member _)⟩⟩,
      delimited_format hf _⟩
  cases h
  obtain ⟨descr, hdescr⟩ := otherDescr_format tag
  exact ⟨_, .other tag descr,
    ⟨_, .text hdescr .nil, Or.inr ⟨_, rfl, (means_string _).single_member _⟩⟩,
    delimited_format hdescr _⟩

end printers

end MuMuDVB.EitTree
