import MuMuDVB.EitJson

/-!
# The document of an EIT section

A well-formed section is a list of events, each with its descriptors. The printers
meet every text where it stands, and what they write is made of JSON strings under a
condition on each descriptor alone.
-/
namespace MuMuDVB.EitDocument

open CheckedMemory CString JsonText MuMuDVB.TsHeader MuMuDVB.Ts MuMuDVB.TsAssembler
open MuMuDVB.AutoconfTables MuMuDVB.NitNumbers MuMuDVB.SdtReading MuMuDVB.EitPrinters
open MuMuDVB.EitJson

/-- A language code. -/
structure Letters where
  first : UInt8
  second : UInt8
  third : UInt8

def Letters.bytes (l : Letters) : List UInt8 := [l.first, l.second, l.third]

/-- A text with its length before it. -/
def counted (text : List UInt8) : List UInt8 := UInt8.ofNat text.length :: text

def itemBytes (items : List (List UInt8 × List UInt8)) : List UInt8 :=
  items.flatMap fun item => counted item.1 ++ counted item.2

def ratingBytes (ratings : List (Letters × UInt8)) : List UInt8 :=
  ratings.flatMap fun rating => rating.1.bytes ++ [rating.2]

def componentBytes (components : List (Letters × List UInt8)) : List UInt8 :=
  components.flatMap fun c => c.1.bytes ++ counted c.2

/-- The descriptors of an event. -/
inductive EitDescriptor where
  | shortEvt (language : Letters) (name text : List UInt8)
  | extEvt (numbers : UInt8) (language : Letters) (items : List (List UInt8 × List UInt8))
      (text : List UInt8)
  | component (payload : List UInt8)
  | caIdentifier (payload : List UInt8)
  | content (payload : List UInt8)
  | parentRating (ratings : List (Letters × UInt8))
  | multilingComp (componentTag : UInt8) (components : List (Letters × List UInt8))
  | other (tag : UInt8) (payload : List UInt8)

namespace EitDescriptor

def tag : EitDescriptor → UInt8
  | shortEvt .. => 0x4d
  | extEvt .. => 0x4e
  | component _ => 0x50
  | caIdentifier _ => 0x53
  | content _ => 0x54
  | parentRating _ => 0x55
  | multilingComp .. => 0x5e
  | other tag _ => tag

def payload : EitDescriptor → List UInt8
  | shortEvt language name text => language.bytes ++ (counted name ++ counted text)
  | extEvt numbers language items text =>
    [numbers] ++ (language.bytes ++ (counted (itemBytes items) ++ counted text))
  | component payload => payload
  | caIdentifier payload => payload
  | content payload => payload
  | parentRating ratings => ratingBytes ratings
  | multilingComp componentTag components => [componentTag] ++ componentBytes components
  | other _ payload => payload

def bytes (d : EitDescriptor) : List UInt8 :=
  [d.tag, UInt8.ofNat d.payload.length] ++ d.payload

/-- The length fits into its byte, and a descriptor of another kind has none of the tags above. -/
structure WellFormed (d : EitDescriptor) : Prop where
  length : d.payload.length < 256
  other : ∀ tag payload, d = .other tag payload → tag ≠ 0x4d ∧ tag ≠ 0x4e ∧ tag ≠ 0x50 ∧
    tag ≠ 0x53 ∧ tag ≠ 0x54 ∧ tag ≠ 0x55 ∧ tag ≠ 0x5e

end EitDescriptor

section sound

variable (env : Outside)

/-- The items that lie at a place are displayable. -/
def ItemsSound (a : Nat) : List (List UInt8 × List UInt8) → Prop
  | [] => True
  | item :: items => Displayable env (a + 1) item.1 ∧
    Displayable env (a + (1 + item.1.length) + 1) item.2 ∧
    ItemsSound (a + (1 + item.1.length) + (1 + item.2.length)) items

/-- The components that lie at a place have language codes and texts that may stand between
quotes as they are. -/
def ComponentsSound (a : Nat) : List (Letters × List UInt8) → Prop
  | [] => True
  | c :: components => Inside c.1.bytes ∧ DisplayableRaw env (a + 4) c.2 ∧
    ComponentsSound (a + (4 + c.2.length)) components

/-- What a descriptor at a place, with something behind it, must be for what is printed of it. -/
def EitDescriptor.Sound (a : Nat) (behind : List UInt8) : EitDescriptor → Prop
  | .shortEvt language name text => Inside language.bytes ∧ Displayable env (a + 6) name ∧
    Displayable env (a + (6 + name.length) + 1) text
  | .extEvt _ language items text => Inside language.bytes ∧ ItemsSound env (a + 7) items ∧
    Displayable env (a + 7 + (itemBytes items).length + 1) text
  | .component payload => 5 < payload.length → Inside ((payload.drop 3).take 3) ∧
    Displayable env (a + 8) ((payload.drop 6 ++ behind).take (payload.length - 5))
  | .parentRating ratings => ∀ rating ∈ ratings, Inside rating.1.bytes
  | .multilingComp _ components => ComponentsSound env (a + 3) components
  | _ => True

/-- The descriptors that lie at a place are sound. -/
def DescriptorsSound (a : Nat) (behind : List UInt8) : List EitDescriptor → Prop
  | [] => True
  | d :: ds => d.Sound env a (ds.flatMap EitDescriptor.bytes ++ behind) ∧
    DescriptorsSound (a + d.bytes.length) behind ds

end sound

section reads

variable {read : Nat → Checked UInt8} {a : Nat} {xs rest text : List UInt8}

theorem readBytes_all (h : ReadsAt read a (xs ++ rest)) {len : Nat} (hlen : xs.length = len) :
    readBytes read a len = .ok xs := by
  have hread := readBytes_ok h.left (show 0 + len ≤ xs.length by omega)
  rwa [Nat.add_zero, List.drop_zero, List.take_of_length_le (Nat.le_of_eq hlen)] at hread

/-- A text is read by its length. -/
theorem reads_counted (h : ReadsAt read a (counted text ++ rest)) (hlt : text.length < 256) :
    ∃ n, read a = .ok n ∧ n.toNat = text.length ∧ readBytes read (a + 1) text.length = .ok text ∧
      ReadsAt read (a + (1 + text.length)) rest := by
  have hfirst : read a = .ok (UInt8.ofNat text.length) := h 0 (by simp [counted])
  have hsplit : ReadsAt read a ([UInt8.ofNat text.length] ++ (text ++ rest)) := h
  have hbehind : ReadsAt read (a + 1) (text ++ rest) := hsplit.right
  refine ⟨_, hfirst, UInt8.toNat_ofNat_of_lt' hlt, readBytes_all hbehind rfl, ?_⟩
  rw [← Nat.add_assoc]
  exact hbehind.right

end reads

section prints

variable {m : Checked (List Part)} {parts : List Part} {P : Prop}

/-- The printer returns, and all that it writes between quotes are JSON strings. -/
def Prints (m : Checked (List Part)) : Prop := ∃ parts, m = .ok parts ∧ Valid parts

@[simp] theorem prints_ok : Prints (.ok parts) ↔ Valid parts :=
  ⟨fun ⟨_, heq, hvalid⟩ => Except.ok.inj heq ▸ hvalid, fun h => ⟨parts, rfl, h⟩⟩

theorem prints_returns {α : Type} {x : Checked α} {cond : Prop} {post : α → Prop}
    (h : Returns x cond post) {f : α → Checked (List Part)}
    (hf : ∀ a, post a → (Prints (f a) ↔ P)) : Prints (x >>= f) ↔ cond ∧ P := h.bind_iff hf

/-- What is written around other parts. -/
theorem prints_around {g : List Part → List Part}
    (hg : ∀ parts, Valid (g parts) ↔ P ∧ Valid parts) :
    Prints (m >>= fun parts => pure (g parts)) ↔ P ∧ Prints m := by
  constructor
  · rintro ⟨parts', h, hvalid⟩
    obtain ⟨parts, hm, h⟩ := bind_eq_ok.mp h
    cases h
    exact ⟨((hg parts).mp hvalid).1, parts, hm, ((hg parts).mp hvalid).2⟩
  · rintro ⟨hP, parts, hm, hvalid⟩
    exact ⟨g parts, by rw [hm]; rfl, (hg parts).mpr ⟨hP, hvalid⟩⟩

/-- Where nothing around them may go wrong, the other parts decide. -/
theorem prints_framed {g : List Part → List Part} (hg : ∀ parts, Valid (g parts) ↔ Valid parts) :
    Prints (m >>= fun parts => pure (g parts)) ↔ Prints m := by
  have haround : ∀ parts, Valid (g parts) ↔ True ∧ Valid parts := fun parts => by
    rw [hg, true_and]
  rw [prints_around haround, true_and]

/-- Two printers one after the other, and what is written around them. -/
theorem prints_both {n : Checked (List Part)} {g : List Part → List Part → List Part}
    (hg : ∀ parts parts', Valid (g parts parts') ↔ Valid parts ∧ Valid parts') :
    Prints (m >>= fun parts => n >>= fun parts' => pure (g parts parts')) ↔
      Prints m ∧ Prints n := by
  constructor
  · rintro ⟨written, h, hvalid⟩
    obtain ⟨parts, hm, h⟩ := bind_eq_ok.mp h
    obtain ⟨parts', hn, h⟩ := bind_eq_ok.mp h
    cases h
    obtain ⟨hparts, hparts'⟩ := (hg parts parts').mp hvalid
    exact ⟨⟨parts, hm, hparts⟩, parts', hn, hparts'⟩
  · rintro ⟨⟨parts, hm, hparts⟩, parts', hn, hparts'⟩
    exact ⟨g parts parts', by rw [hm, bind_ok, hn]; rfl, (hg parts parts').mpr ⟨hparts, hparts'⟩⟩

end prints

section printers

variable {env : Outside} {dataFull : Buffer UInt8 maxTsSize} {a : Nat} {tag len : UInt8}
  {language : Letters} {rest : List UInt8}

/-- What stands behind the tag and the length of a descriptor. -/
theorem reads_payload {payload : List UInt8}
    (h : ReadsAt dataFull.read a ([tag, len] ++ payload)) :
    ReadsAt dataFull.read (a + 2) payload := h.right

theorem eitShowShortEvtDescr_iff {name text : List UInt8} (hname : name.length < 256)
    (htext : text.length < 256)
    (h : ReadsAt dataFull.read a
      ([tag, len] ++ (language.bytes ++ (counted name ++ (counted text ++ rest))))) :
    Prints (eitShowShortEvtDescr env dataFull a) ↔ Inside language.bytes ∧
      Displayable env (a + 6) name ∧ Displayable env (a + (6 + name.length) + 1) text := by
  have hlanguage := reads_payload h
  have hcounted : ReadsAt dataFull.read (a + 5) (counted name ++ (counted text ++ rest)) :=
    hlanguage.right
  obtain ⟨n, hn, hlen, hread, hbehind⟩ := reads_counted hcounted hname
  have hdelta : a + 5 + (1 + name.length) = a + (6 + name.length) := by omega
  rw [hdelta] at hbehind
  obtain ⟨n', hn', hlen', hread', -⟩ := reads_counted hbehind htext
  rw [eitShowShortEvtDescr, readBytes_all hlanguage (show language.bytes.length = 3 from rfl),
    bind_ok, hn, bind_ok, hlen, and_left_comm]
  refine prints_returns (escaped_returns hread) fun name' hname' => ?_
  dsimp only
  rw [hn', bind_ok, hlen', and_comm]
  refine prints_returns (escaped_returns hread') fun text' htext' => ?_
  simp [hname', htext']

/-- The items of an extended event descriptor are escaped, and the loop ends behind them. -/
theorem itemLoop_returns {items : List (List UInt8 × List UInt8)} {fuel : Nat}
    (hitems : (itemBytes items).length < 256)
    (h : ReadsAt dataFull.read a (itemBytes items ++ rest))
    (hfuel : (itemBytes items).length ≤ fuel) (first : Bool) :
    Returns (itemLoop env dataFull (fuel + 1) a (itemBytes items).length first)
      (ItemsSound env a items) fun shown =>
        shown.1 = a + (itemBytes items).length ∧ Valid shown.2 := by
  induction items generalizing a fuel first with
  | nil => exact ⟨iff_of_true ⟨_, rfl⟩ trivial, fun shown h => by cases h; exact ⟨rfl, valid_nil⟩⟩
  | cons item items ih =>
    have hbytes : itemBytes (item :: items) =
        counted item.1 ++ (counted item.2 ++ itemBytes items) := by
      rw [itemBytes, List.flatMap_cons, List.append_assoc, ← itemBytes]
    have hlength : (itemBytes (item :: items)).length =
        2 + item.1.length + item.2.length + (itemBytes items).length := by
      rw [hbytes]
      simp only [counted, List.length_append, List.length_cons]
      omega
    rw [hlength] at hitems hfuel ⊢
    rw [hbytes, List.append_assoc, List.append_assoc] at h
    obtain ⟨n, hn, hlen, hread, hnext⟩ := reads_counted h (by omega)
    obtain ⟨n', hn', hlen', hread', hbehind⟩ := reads_counted hnext (by omega)
    obtain ⟨fuel, rfl⟩ : ∃ fuel', fuel = fuel' + 1 := ⟨fuel - 1, by omega⟩
    have hrest := ih (by omega) hbehind (show (itemBytes items).length ≤ fuel by omega) false
    have hleft : 2 + item.1.length + item.2.length + (itemBytes items).length -
        (2 + item.1.length + item.2.length) = (itemBytes items).length := Nat.add_sub_cancel_left ..
    rw [itemLoop, if_pos (by omega), hn, bind_ok, hlen]
    refine (escaped_returns hread).bind fun descr hdescr => ?_
    dsimp only
    rw [hn', bind_ok, hlen', hleft]
    refine (escaped_returns hread').bind fun text htext => ?_
    refine hrest.map fun shown hshown => ⟨?_, ?_⟩
    · rw [hshown.1]
      omega
    · simp [hdescr, htext, hshown.2]

theorem eitShowExtEvtDescr_iff {numbers : UInt8} {items : List (List UInt8 × List UInt8)}
    {text : List UInt8} (hitems : (itemBytes items).length < 256) (htext : text.length < 256)
    (h : ReadsAt dataFull.read a ([tag, len] ++ ([numbers] ++
      (language.bytes ++ (counted (itemBytes items) ++ (counted text ++ rest)))))) :
    Prints (eitShowExtEvtDescr env dataFull a) ↔ Inside language.bytes ∧
      ItemsSound env (a + 7) items ∧
      Displayable env (a + 7 + (itemBytes items).length + 1) text := by
  have hnumbers := reads_payload h
  have hlanguage : ReadsAt dataFull.read (a + 3) (language.bytes ++
      (counted (itemBytes items) ++ (counted text ++ rest))) := hnumbers.right
  have hcounted : ReadsAt dataFull.read (a + 6)
      (counted (itemBytes items) ++ (counted text ++ rest)) := hlanguage.right
  obtain ⟨n, hn, hlen, -, -⟩ := reads_counted hcounted hitems
  have hsplit : ReadsAt dataFull.read (a + 6) ([UInt8.ofNat (itemBytes items).length] ++
      (itemBytes items ++ (counted text ++ rest))) := hcounted
  have hloop : ReadsAt dataFull.read (a + 7) (itemBytes items ++ (counted text ++ rest)) :=
    hsplit.right
  obtain ⟨n', hn', hlen', hread', -⟩ := reads_counted hloop.right htext
  rw [eitShowExtEvtDescr, hnumbers 0 (by simp), bind_ok,
    readBytes_all hlanguage (show language.bytes.length = 3 from rfl), bind_ok, hn, bind_ok, hlen,
    and_left_comm]
  refine prints_returns (itemLoop_returns hitems hloop (Nat.le_refl _) true) fun shown hshown => ?_
  rw [hshown.1, hn', bind_ok, hlen', and_comm]
  refine prints_returns (escaped_returns hread') fun text' htext' => ?_
  simp [hshown.2, htext']

/-- The text of a component descriptor has the byte behind the descriptor with it. -/
theorem eitShowComponentDescr_iff {payload : List UInt8} (hlen : len.toNat = payload.length)
    (h : ReadsAt dataFull.read a ([tag, len] ++ (payload ++ rest))) (hrest : 0 < rest.length) :
    Prints (eitShowComponentDescr env dataFull a) ↔ (5 < payload.length →
      Inside ((payload.drop 3).take 3) ∧
        Displayable env (a + 8) ((payload.drop 6 ++ rest).take (payload.length - 5))) := by
  have hlength : dataFull.read (a + 1) = .ok len := h 1 (by simp)
  rw [eitShowComponentDescr, hlength, bind_ok, hlen]
  by_cases hlong : 5 < payload.length
  · have hpayload := reads_payload h
    have hall : (payload ++ rest).length = payload.length + rest.length := List.length_append
    have hlanguage := readBytes_ok hpayload (show 3 + 3 ≤ (payload ++ rest).length by omega)
    have htext := readBytes_ok hpayload
      (show 6 + (payload.length - 5) ≤ (payload ++ rest).length by omega)
    rw [List.drop_append_of_le_length (by omega),
      List.take_append_of_le_length (by rw [List.length_drop]; omega)] at hlanguage
    rw [List.drop_append_of_le_length (by omega)] at htext
    rw [if_pos hlong, forall_prop_of_true hlong, show a + 2 = a + 2 + 0 from rfl,
      hpayload 0 (by omega), bind_ok, show a + 3 = a + 2 + 1 from rfl, hpayload 1 (by omega),
      bind_ok, show a + 4 = a + 2 + 2 from rfl, hpayload 2 (by omega), bind_ok,
      show a + 5 = a + 2 + 3 from rfl, hlanguage, bind_ok, and_comm]
    refine prints_returns (escaped_returns htext) fun text htext => ?_
    simp [htext]
  · rw [if_neg hlong]
    exact iff_of_true ⟨_, rfl, by simp⟩ fun h => absurd h hlong

theorem caLoop_prints {buf i length fuel : Nat} (first : Bool)
    (hreads : ∀ k < length + 1, ∃ b, dataFull.read (buf + k) = .ok b) (hfuel : length ≤ i + fuel) :
    Prints (caLoop dataFull (fuel + 1) buf i length first) := by
  induction fuel generalizing i first with
  | zero =>
    rw [caLoop, if_neg (by omega)]
    exact ⟨_, rfl, valid_nil⟩
  | succ fuel ih =>
    rw [caLoop]
    split
    case isFalse => exact ⟨_, rfl, valid_nil⟩
    case isTrue hlt =>
      obtain ⟨hi, hhi⟩ := hreads i (by omega)
      obtain ⟨lo, hlo⟩ := hreads (i + 1) (by omega)
      rw [readHilo, hhi, bind_ok, Nat.add_assoc, hlo, bind_ok]
      obtain ⟨parts, hrest, hvalid⟩ := ih (i := i + 2) false (by omega)
      exact ⟨_, by rw [pure_ok, bind_ok, hrest]; rfl, by simp [inside_caSysIdToStr, hvalid]⟩

theorem eitShowCAIdentifierDescriptor_prints {payload : List UInt8}
    (hlen : len.toNat = payload.length)
    (h : ReadsAt dataFull.read a ([tag, len] ++ (payload ++ rest))) (hrest : 0 < rest.length) :
    Prints (eitShowCAIdentifierDescriptor dataFull a) := by
  have hlength : dataFull.read (a + 1) = .ok len := h 1 (by simp)
  rw [eitShowCAIdentifierDescriptor, hlength, bind_ok, hlen]
  refine (prints_framed fun parts => by simp).mpr (caLoop_prints true ?_ (by omega))
  exact fun k hk => ⟨_, reads_payload h k (by rw [List.length_append]; omega)⟩

theorem eitShowContentDescriptor_prints {payload : List UInt8}
    (h : ReadsAt dataFull.read a ([tag, len] ++ (payload ++ rest))) (hrest : 1 < rest.length) :
    Prints (eitShowContentDescriptor dataFull a) := by
  have hpayload := reads_payload h
  have hall : (payload ++ rest).length = payload.length + rest.length := List.length_append
  rw [eitShowContentDescriptor, show a + 2 = a + 2 + 0 from rfl, hpayload 0 (by omega), bind_ok,
    show a + 3 = a + 2 + 1 from rfl, hpayload 1 (by omega), bind_ok]
  exact ⟨_, rfl, by simp⟩

/-- The text that is printed as it is converted. -/
theorem prints_raw {buf length : Nat} {copied : List UInt8} {P : Prop}
    (hread : readBytes dataFull.read buf length = .ok copied)
    {f : List UInt8 → Checked (List Part)} (hf : ∀ s, Prints (f s) ↔ Inside s ∧ P) :
    Prints (texts env dataFull buf length >>= fun arrays => cstring arrays.1.cells >>= f) ↔
      DisplayableRaw env buf copied ∧ P := by
  have htexts := texts_returns env hread
  constructor
  · rintro ⟨parts, h, hvalid⟩
    obtain ⟨arrays, harrays, h⟩ := bind_eq_ok.mp h
    obtain ⟨s, hs, h⟩ := bind_eq_ok.mp h
    obtain ⟨text, s', hconverted, hs', hfits⟩ := htexts.returns.mp ⟨arrays, harrays⟩
    cases hconverted.symm.trans (htexts.result arrays harrays).1
    cases hs.symm.trans hs'
    obtain ⟨hinside, hP⟩ := (hf s).mp ⟨parts, h, hvalid⟩
    exact ⟨⟨arrays.1, s, hconverted, hs, hfits, hinside⟩, hP⟩
  · rintro ⟨⟨text, s, hconverted, hs, hfits, hinside⟩, hP⟩
    obtain ⟨arrays, harrays⟩ := htexts.returns.mpr ⟨text, s, hconverted, hs, hfits⟩
    cases hconverted.symm.trans (htexts.result arrays harrays).1
    obtain ⟨parts, h, hvalid⟩ := (hf s).mpr ⟨hinside, hP⟩
    exact ⟨parts, by rw [harrays, bind_ok, hs, bind_ok, h], hvalid⟩

theorem ratingLoop_iff {buf delta fuel : Nat} {ratings : List (Letters × UInt8)}
    (h : ReadsAt dataFull.read (buf + delta) (ratingBytes ratings ++ rest))
    (hfuel : (ratingBytes ratings).length ≤ fuel) :
    Prints (ratingLoop dataFull (fuel + 1) buf delta (ratingBytes ratings).length) ↔
      ∀ rating ∈ ratings, Inside rating.1.bytes := by
  induction ratings generalizing delta fuel with
  | nil => exact iff_of_true ⟨_, rfl, valid_nil⟩ (List.forall_mem_nil _)
  | cons rating ratings ih =>
    have hbytes : ratingBytes (rating :: ratings) =
        rating.1.bytes ++ ([rating.2] ++ ratingBytes ratings) := by
      rw [ratingBytes, List.flatMap_cons, List.append_assoc, ← ratingBytes]
    have hlength : (ratingBytes (rating :: ratings)).length = (ratingBytes ratings).length + 4 := by
      rw [hbytes]
      simp only [Letters.bytes, List.length_append, List.length_cons, List.length_nil]
      omega
    rw [hlength] at hfuel ⊢
    rw [hbytes, List.append_assoc, List.append_assoc] at h
    obtain ⟨fuel, rfl⟩ : ∃ fuel', fuel = fuel' + 1 := ⟨fuel - 1, by omega⟩
    have hrating : dataFull.read (buf + (delta + 3)) = .ok rating.2 := h.right 0 (by simp)
    have hbehind : ReadsAt dataFull.read (buf + (delta + 4)) (ratingBytes ratings ++ rest) :=
      h.right.right
    rw [ratingLoop, if_pos (Nat.succ_pos _),
      readBytes_all h (show rating.1.bytes.length = 3 from rfl), bind_ok, hrating, bind_ok,
      Nat.add_sub_cancel, List.forall_mem_cons,
      ← ih hbehind (show (ratingBytes ratings).length ≤ fuel by omega)]
    exact prints_around fun parts => by simp [valid_ratingParts]

theorem eitShowParentRatingDescr_iff {ratings : List (Letters × UInt8)}
    (hlen : len.toNat = (ratingBytes ratings).length)
    (h : ReadsAt dataFull.read a ([tag, len] ++ (ratingBytes ratings ++ rest))) :
    Prints (eitShowParentRatingDescr dataFull a) ↔ ∀ rating ∈ ratings, Inside rating.1.bytes := by
  have hlength : dataFull.read (a + 1) = .ok len := h 1 (by simp)
  rw [eitShowParentRatingDescr, hlength, bind_ok, hlen]
  exact ratingLoop_iff (reads_payload h) (Nat.le_refl _)

/-- The components are printed as they are converted. -/
theorem componentLoop_iff {fuel : Nat} {components : List (Letters × List UInt8)}
    (hcomponents : (componentBytes components).length < 256)
    (h : ReadsAt dataFull.read a (componentBytes components ++ rest))
    (hfuel : (componentBytes components).length ≤ fuel) (first : Bool) :
    Prints (componentLoop env dataFull (fuel + 1) a (componentBytes components).length first) ↔
      ComponentsSound env a components := by
  induction components generalizing a fuel first with
  | nil => exact iff_of_true ⟨_, rfl, valid_nil⟩ trivial
  | cons c components ih =>
    have hbytes : componentBytes (c :: components) =
        c.1.bytes ++ (counted c.2 ++ componentBytes components) := by
      rw [componentBytes, List.flatMap_cons, List.append_assoc, ← componentBytes]
    have hlength : (componentBytes (c :: components)).length =
        4 + c.2.length + (componentBytes components).length := by
      rw [hbytes]
      simp only [Letters.bytes, counted, List.length_append, List.length_cons, List.length_nil]
      omega
    rw [hlength] at hcomponents hfuel ⊢
    rw [hbytes, List.append_assoc, List.append_assoc] at h
    have hcounted : ReadsAt dataFull.read (a + 3)
        (counted c.2 ++ (componentBytes components ++ rest)) := h.right
    obtain ⟨n, hn, hlen, hread, hbehind⟩ := reads_counted hcounted (by omega)
    obtain ⟨fuel, rfl⟩ : ∃ fuel', fuel = fuel' + 1 := ⟨fuel - 1, by omega⟩
    have hplace : a + 3 + (1 + c.2.length) = a + (4 + c.2.length) := by omega
    have hleft : 4 + c.2.length + (componentBytes components).length - 4 - c.2.length =
        (componentBytes components).length := by omega
    rw [hplace] at hbehind
    have hrest := ih (by omega) hbehind (show (componentBytes components).length ≤ fuel by omega)
      false
    rw [componentLoop, if_pos (by omega),
      readBytes_all h (show c.1.bytes.length = 3 from rfl), bind_ok, hn, bind_ok, hlen, hleft,
      ComponentsSound, ← hrest, and_left_comm]
    refine prints_raw hread fun s => ?_
    rw [← and_assoc]
    exact prints_around fun parts => by simp [and_left_comm, and_assoc]

theorem eitShowMultilingCompDescr_iff {componentTag : UInt8}
    {components : List (Letters × List UInt8)}
    (hlen : len.toNat = (componentBytes components).length + 1)
    (h : ReadsAt dataFull.read a
      ([tag, len] ++ ([componentTag] ++ (componentBytes components ++ rest)))) :
    Prints (eitShowMultilingCompDescr env dataFull a) ↔ ComponentsSound env (a + 3) components := by
  have hlength : dataFull.read (a + 1) = .ok len := h 1 (by simp)
  have htag : dataFull.read (a + 2) = .ok componentTag := reads_payload h 0 (by simp)
  have hbehind : ReadsAt dataFull.read (a + 3) (componentBytes components ++ rest) :=
    (reads_payload h).right
  have hlt := len.toNat_lt
  rw [eitShowMultilingCompDescr, hlength, bind_ok, htag, bind_ok, hlen, Nat.add_sub_cancel,
    prints_framed fun parts => by simp]
  exact componentLoop_iff (by omega) hbehind (Nat.le_succ _) true

/-- A well-formed descriptor is printed with JSON strings exactly when it is sound. -/
theorem showDescriptor_iff {d : EitDescriptor} (hd : d.WellFormed)
    (h : ReadsAt dataFull.read a (d.bytes ++ rest)) (hrest : 1 < rest.length) :
    Prints (showDescriptor env dataFull d.tag a) ↔ d.Sound env a rest := by
  have hlen : (UInt8.ofNat d.payload.length).toNat = d.payload.length :=
    UInt8.toNat_ofNat_of_lt' hd.length
  have hlength := hd.length
  rw [EitDescriptor.bytes, List.append_assoc] at h
  rw [showDescriptor]
  cases d with
  | shortEvt language name text =>
    simp only [EitDescriptor.payload, counted, List.length_append, List.length_cons] at hlength
    rw [EitDescriptor.payload, List.append_assoc, List.append_assoc] at h
    rw [EitDescriptor.tag, if_pos rfl, prints_framed fun parts => by simp]
    exact eitShowShortEvtDescr_iff (by omega) (by omega) h
  | extEvt numbers language items text =>
    simp only [EitDescriptor.payload, counted, List.length_append, List.length_cons] at hlength
    rw [EitDescriptor.payload, List.append_assoc, List.append_assoc, List.append_assoc] at h
    rw [EitDescriptor.tag, if_neg (by decide), if_pos rfl,
      prints_framed fun parts => by simp]
    exact eitShowExtEvtDescr_iff (by omega) (by omega) h
  | component payload =>
    rw [EitDescriptor.tag, if_neg (by decide), if_neg (by decide), if_pos rfl,
      prints_framed fun parts => by simp]
    exact eitShowComponentDescr_iff hlen h (Nat.lt_of_succ_lt hrest)
  | caIdentifier payload =>
    rw [EitDescriptor.tag, if_neg (by decide), if_neg (by decide), if_neg (by decide), if_pos rfl,
      prints_framed fun parts => by simp]
    exact iff_of_true
      (eitShowCAIdentifierDescriptor_prints hlen h (Nat.lt_of_succ_lt hrest)) trivial
  | content payload =>
    rw [EitDescriptor.tag, if_neg (by decide), if_neg (by decide), if_neg (by decide),
      if_neg (by decide), if_pos rfl, prints_framed fun parts => by simp]
    exact iff_of_true (eitShowContentDescriptor_prints h hrest) trivial
  | parentRating ratings =>
    rw [EitDescriptor.tag, if_neg (by decide), if_neg (by decide), if_neg (by decide),
      if_neg (by decide), if_neg (by decide), if_pos rfl,
      prints_framed fun parts => by simp]
    exact eitShowParentRatingDescr_iff hlen h
  | multilingComp componentTag components =>
    rw [EitDescriptor.payload, List.append_assoc] at h
    rw [EitDescriptor.tag, if_neg (by decide), if_neg (by decide), if_neg (by decide),
      if_neg (by decide), if_neg (by decide), if_neg (by decide), if_pos rfl,
      prints_framed fun parts => by simp]
    exact eitShowMultilingCompDescr_iff hlen h
  | other otherTag payload =>
    obtain ⟨h₁, h₂, h₃, h₄, h₅, h₆, h₇⟩ := hd.other otherTag payload rfl
    rw [EitDescriptor.tag, if_neg h₁, if_neg h₂, if_neg h₃, if_neg h₄, if_neg h₅, if_neg h₆,
      if_neg h₇]
    exact iff_of_true ⟨_, rfl, by simp⟩ trivial

theorem EitDescriptor.length_bytes (d : EitDescriptor) : d.bytes.length = d.payload.length + 2 := by
  rw [EitDescriptor.bytes, List.length_append, Nat.add_comm]
  rfl

theorem descriptorLoop_iff {ds : List EitDescriptor} {fuel : Nat} (hds : ∀ d ∈ ds, d.WellFormed)
    (h : ReadsAt dataFull.read a (ds.flatMap EitDescriptor.bytes ++ rest)) (hrest : 1 < rest.length)
    (hfuel : (ds.flatMap EitDescriptor.bytes).length ≤ fuel) (first : Bool) :
    Prints (descriptorLoop env dataFull (fuel + 1) a (ds.flatMap EitDescriptor.bytes).length
      first) ↔ DescriptorsSound env a rest ds := by
  induction ds generalizing a fuel first with
  | nil => exact iff_of_true ⟨_, rfl, valid_nil⟩ trivial
  | cons d ds ih =>
    rw [List.forall_mem_cons] at hds
    have hlength := d.length_bytes
    rw [List.flatMap_cons, List.length_append] at hfuel ⊢
    rw [List.flatMap_cons, List.append_assoc] at h
    obtain ⟨fuel, rfl⟩ : ∃ fuel', fuel = fuel' + 1 := ⟨fuel - 1, by omega⟩
    have hnext := ih hds.2 h.right
      (show (ds.flatMap EitDescriptor.bytes).length ≤ fuel by omega) false
    have hbehind : 1 < (ds.flatMap EitDescriptor.bytes ++ rest).length := by
      rw [List.length_append]
      omega
    have htag : dataFull.read a = .ok d.tag := h 0 (by simp [EitDescriptor.bytes])
    have hlen : dataFull.read (a + 1) = .ok (UInt8.ofNat d.payload.length) :=
      h 1 (by simp [EitDescriptor.bytes])
    rw [descriptorLoop, if_pos (by omega), htag, bind_ok, hlen, bind_ok,
      UInt8.toNat_ofNat_of_lt' hds.1.length]
    dsimp only
    rw [← hlength, Nat.add_sub_cancel_left, DescriptorsSound,
      ← showDescriptor_iff hds.1 h hbehind, ← hnext]
    exact prints_both fun shown behind => by simp

theorem eitDisplayDescriptor_iff (env : Outside) {ds : List EitDescriptor}
    (hds : ∀ d ∈ ds, d.WellFormed)
    (h : ReadsAt dataFull.read a (ds.flatMap EitDescriptor.bytes ++ rest))
    (hrest : 1 < rest.length) :
    Prints (eitDisplayDescriptor env dataFull a (ds.flatMap EitDescriptor.bytes).length) ↔
      DescriptorsSound env a rest ds := by
  rw [eitDisplayDescriptor, prints_framed fun parts => by simp]
  exact descriptorLoop_iff hds h hrest (Nat.le_refl _) true

end printers

/-- An event with its descriptors. -/
structure EitEvent where
  head : List UInt8
  descriptors : List EitDescriptor
  headLength : head.length = eitEventLen
  loopLength : hilo ((byteAt head 10).toNat % 16) (byteAt head 11).toNat =
    (descriptors.flatMap EitDescriptor.bytes).length
  wellFormed : ∀ d ∈ descriptors, d.WellFormed

def EitEvent.bytes (v : EitEvent) : List UInt8 :=
  v.head ++ v.descriptors.flatMap EitDescriptor.bytes

/-- The events that lie at a place are sound. -/
def EventsSound (env : Outside) (a : Nat) (behind : List UInt8) : List EitEvent → Prop
  | [] => True
  | v :: vs => DescriptorsSound env (a + eitEventLen) (vs.flatMap EitEvent.bytes ++ behind)
      v.descriptors ∧ EventsSound env (a + v.bytes.length) behind vs

/-- A section of an EIT with well-formed descriptors. -/
structure EitSection where
  header : List UInt8
  events : List EitEvent
  crc : List UInt8
  headerLength : header.length = eitLen
  crcLength : crc.length = 4

namespace EitSection

variable (t : EitSection)

def bytes : List UInt8 := t.header ++ (t.events.flatMap EitEvent.bytes ++ t.crc)

/-- Every language code may stand between quotes, every text is displayable, and those of the
multilingual components may stand between quotes as they are converted. -/
def Sound (env : Outside) : Prop := EventsSound env eitLen t.crc t.events

end EitSection

/-- The section is what the packet holds. -/
structure Stored (fullEit : MumudvbTsPacket) (t : EitSection) : Prop where
  lenFull : fullEit.lenFull = t.bytes.length
  holds : t.bytes <+: fullEit.dataFull.cells

section events

variable {env : Outside} {dataFull : Buffer UInt8 maxTsSize} {a : Nat} {rest : List UInt8}

theorem valid_eventParts (event : List UInt8) {status : List UInt8} (hstatus : Inside status)
    (loopLength : Nat) : Valid (eventParts env event status loopLength) := by
  simp [eventParts, inside_date, inside_clock, hstatus]

theorem eventLoop_iff {vs : List EitEvent} {fuel : Nat}
    (h : ReadsAt dataFull.read a (vs.flatMap EitEvent.bytes ++ rest)) (hrest : rest.length = 4)
    (hfuel : (vs.flatMap EitEvent.bytes).length ≤ fuel) (first : Bool) :
    Prints (eventLoop env dataFull (a + ((vs.flatMap EitEvent.bytes).length + 4)) (fuel + 1) a
      first) ↔ EventsSound env a rest vs := by
  induction vs generalizing a fuel first with
  | nil =>
    rw [eventLoop, if_neg (by rw [List.flatMap_nil, List.length_nil, eitEventLen]; omega)]
    exact iff_of_true ⟨_, rfl, valid_nil⟩ trivial
  | cons v vs ih =>
    have hlength : v.bytes.length =
        eitEventLen + (v.descriptors.flatMap EitDescriptor.bytes).length := by
      rw [EitEvent.bytes, List.length_append, v.headLength]
    rw [eitEventLen] at hlength
    rw [List.flatMap_cons, List.append_assoc] at h
    rw [List.flatMap_cons, List.length_append] at hfuel ⊢
    obtain ⟨fuel, rfl⟩ : ∃ fuel', fuel = fuel' + 1 := ⟨fuel - 1, by omega⟩
    have hbehind := h.right
    rw [EitEvent.bytes, List.append_assoc] at h
    have hdescriptors := h.right
    rw [v.headLength] at hdescriptors
    obtain ⟨status, hstatus, hinside⟩ := runningStatus_read (byteAt v.head 10)
    have hlenFull : a + (v.bytes.length + (vs.flatMap EitEvent.bytes).length + 4) =
        a + v.bytes.length + ((vs.flatMap EitEvent.bytes).length + 4) := by omega
    have hdelta : a + ((v.descriptors.flatMap EitDescriptor.bytes).length + eitEventLen) =
        a + v.bytes.length := by rw [hlength, eitEventLen, Nat.add_comm 12]
    have hshown := eitDisplayDescriptor_iff env v.wellFormed hdescriptors
      (by rw [List.length_append]; omega)
    have hnext := ih hbehind (show (vs.flatMap EitEvent.bytes).length ≤ fuel by omega) false
    rw [eventLoop, if_pos (by rw [eitEventLen]; omega), readBytes_all h v.headLength, bind_ok]
    dsimp only
    rw [hstatus, bind_ok, v.loopLength, hdelta, hlenFull, EventsSound, ← hshown, ← hnext]
    exact prints_both fun shown behind => by simp [valid_eventParts _ hinside]

theorem valid_sectionParts (lenFull : Nat) (eit : List UInt8) :
    Valid (sectionParts lenFull eit) := by simp [sectionParts]

end events

section document

variable {env : Outside} {fullEit : MumudvbTsPacket} {t : EitSection}

theorem Stored.reads (h : Stored fullEit t) : ReadsAt fullEit.dataFull.read 0 t.bytes := by
  obtain ⟨more, hcells⟩ := h.holds
  exact reads_of_drop (a := 0) hcells.symm

/-- The events and all around them. -/
theorem eitDisplayContents_iff (h : Stored fullEit t) :
    Prints (eitDisplayContents env fullEit) ↔ t.Sound env := by
  have hreads := h.reads
  rw [EitSection.bytes] at hreads
  have hevents := hreads.right
  rw [Nat.zero_add, t.headerLength] at hevents
  have hlenFull : fullEit.lenFull = eitLen + ((t.events.flatMap EitEvent.bytes).length + 4) := by
    rw [h.lenFull, EitSection.bytes, List.length_append, List.length_append, t.headerLength,
      t.crcLength]
  rw [eitDisplayContents, readBytes_all hreads t.headerLength, bind_ok,
    prints_framed fun parts => by simp [valid_sectionParts], hlenFull]
  exact eventLoop_iff hevents t.crcLength (by omega) true

theorem unicastSendEITSection_prints (num : Int) :
    Prints (unicastSendEITSection env fullEit num) ↔ Prints (eitDisplayContents env fullEit) := by
  rw [unicastSendEITSection, prints_framed fun parts => by simp]

/-- Of a stored section the document returns with JSON strings only, exactly when the section is
sound. -/
theorem eitDocument_iff (env : Outside) (h : Stored fullEit t) (num : Int) :
    Prints (unicastSendEITSection env fullEit num) ↔ t.Sound env := by
  rw [unicastSendEITSection_prints, eitDisplayContents_iff h]

end document

/-- Texts stay as they are. -/
def unconverted : Outside where
  iconvOpen _ _ := none
  malloc _ := true
  stale _ := (Buffer.fill _ 0, Buffer.fill _ 0)
  ymd _ := (1993, 10, 13)

def eventHead (loopLength : UInt8) : List UInt8 :=
  [0x00, 0x01, 0xc0, 0x79, 0x12, 0x45, 0x00, 0x01, 0x30, 0x00, 0x80, loopLength]

theorem eventHead_loopLength {d : EitDescriptor} {loopLength : UInt8}
    (h : loopLength.toNat = d.bytes.length) :
    hilo ((byteAt (eventHead loopLength) 10).toNat % 16)
      (byteAt (eventHead loopLength) 11).toNat = ([d].flatMap EitDescriptor.bytes).length := by
  rw [List.flatMap_singleton, ← h]
  simp [eventHead, hilo, byteAt]

/-- An event with one descriptor. -/
def eventOf (d : EitDescriptor) (hd : d.WellFormed) (loopLength : UInt8)
    (h : loopLength.toNat = d.bytes.length) : EitEvent where
  head := eventHead loopLength
  descriptors := [d]
  headLength := rfl
  loopLength := eventHead_loopLength h
  wellFormed := List.forall_mem_singleton.mpr hd

/-- A section with one event. -/
def sectionOf (v : EitEvent) : EitSection where
  header := [0x4e, 0xf0, 0x21, 0x00, 0x01, 0xc1, 0x00, 0x00, 0x00, 0x01, 0x00, 0x01, 0x00, 0x4e]
  events := [v]
  crc := [0x00, 0x00, 0x00, 0x00]
  headerLength := rfl
  crcLength := rfl

def store (t : EitSection) (h : t.bytes.length ≤ maxTsSize) : MumudvbTsPacket :=
  CatCollection.handedOut t.bytes h

theorem store_stored (t : EitSection) (h : t.bytes.length ≤ maxTsSize) : Stored (store t h) t :=
  ⟨rfl, List.prefix_append _ _⟩

/-- A component whose text is a quote. -/
def quotedText : EitDescriptor := .multilingComp 1 [(⟨0x65, 0x6e, 0x67⟩, [34])]

theorem quotedText_wellFormed : quotedText.WellFormed :=
  ⟨by decide, fun _ _ h => nomatch h⟩

def quotedSection : EitSection := sectionOf (eventOf quotedText quotedText_wellFormed 8 rfl)

/-- It is escaped, and printed as it is. -/
theorem eitDocument_not : ¬ ∀ (env : Outside) (fullEit : MumudvbTsPacket) (t : EitSection)
    (num : Int), Stored fullEit t → Prints (unicastSendEITSection env fullEit num) := by
  intro h
  have hstored := store_stored quotedSection (by decide)
  have hprints := h unconverted _ _ 0 hstored
  rw [unicastSendEITSection_prints, eitDisplayContents_iff hstored] at hprints
  obtain ⟨⟨⟨-, ⟨text, s, hconverted, hs, -, hinside⟩, -⟩, -⟩, -⟩ := hprints
  have hquote : (convertedText unconverted (eitLen + eitEventLen + 3 + 4) [34] >>= fun text =>
      cstring text.cells) = .ok [34] := by decide +kernel
  rw [hconverted, bind_ok, hs] at hquote
  cases hquote
  exact absurd (hinside []) (by decide)

/-- An event named "A" in English. -/
def englishName : EitDescriptor := .shortEvt ⟨0x65, 0x6e, 0x67⟩ [0x41] []

theorem englishName_wellFormed : englishName.WellFormed :=
  ⟨by decide, fun _ _ h => nomatch h⟩

def englishSection : EitSection := sectionOf (eventOf englishName englishName_wellFormed 8 rfl)

theorem displayable_unconverted {buf : Nat} {copied s : List UInt8}
    (h : (convertedText unconverted buf copied >>= fun text => cstring text.cells) = .ok s)
    (hfits : JsonBounds.Fits maxDescrLen maxDescrLen s) : Displayable unconverted buf copied := by
  obtain ⟨text, htext, hs⟩ := bind_eq_ok.mp h
  exact ⟨text, s, htext, hs, hfits⟩

theorem englishSection_sound : englishSection.Sound unconverted := by
  refine ⟨⟨⟨?_, ?_, ?_⟩, trivial⟩, trivial⟩
  · exact (plain_bytes ['e', 'n', 'g'] rfl).inside
  · exact displayable_unconverted (s := [0x41]) (by decide +kernel) ⟨fun _ => by decide, trivial⟩
  · exact displayable_unconverted (s := []) (by decide +kernel) trivial

theorem eitDocument_english :
    Prints (unicastSendEITSection unconverted (store englishSection (by decide)) 0) :=
  (eitDocument_iff unconverted (store_stored englishSection (by decide)) 0).mpr
    englishSection_sound

end MuMuDVB.EitDocument
