import MuMuDVB.EitPrinters

/-!
# The strings of the EIT as JSON

A string literal is a JSON string when what stands between its quotes is inside of a
string from its start to its end. The escaped texts are, and so is what the formats
and the tables put there. The language codes are copied as they come, and of a
multilingual component it is not the escaped text that is printed.
-/
namespace MuMuDVB.EitJson

open CheckedMemory CString JsonText MuMuDVB.TsHeader MuMuDVB.Ts MuMuDVB.AutoconfTables
open MuMuDVB.NitNumbers MuMuDVB.SdtReading MuMuDVB.TextConversion MuMuDVB.EitPrinters
open JsonBounds (Holds Fits mumuStringToJson_holds mumuStringToJson_inside)
open JsonEscape (mumuStringToJson)

section parts

variable {parts more : List Part} {content : List UInt8}

/-- Each string literal is a JSON string. -/
def Valid (parts : List Part) : Prop := ∀ content, Part.literal content ∈ parts → Inside content

@[simp] theorem valid_nil : Valid [] := fun _ h => absurd h List.not_mem_nil

@[simp] theorem valid_text (s : String) : Valid (.text s :: parts) ↔ Valid parts := by
  simp [Valid]

@[simp] theorem valid_number (n : Int) : Valid (.number n :: parts) ↔ Valid parts := by
  simp [Valid]

@[simp] theorem valid_literal :
    Valid (.literal content :: parts) ↔ Inside content ∧ Valid parts := by
  simp [Valid]

@[simp] theorem valid_append : Valid (parts ++ more) ↔ Valid parts ∧ Valid more := by
  simp [Valid, or_imp, forall_and]

@[simp] theorem valid_around (before behind : String) :
    Valid (around before parts behind) ↔ Valid parts := by
  simp [around]

/-- A valid literal is written as one token. -/
theorem scan_literal (h : Inside content) :
    scan .between (Part.literal content).bytes = some ([.string content], .between) := by
  have hopen : step .between 34 = some ([], .string []) := rfl
  have hclose : scan (.string content) [34] = some ([.string content], .between) := by
    rw [scan, step, if_pos rfl]
    rfl
  rw [Part.bytes, scan_cons hopen]
  exact scan_append (h []) hclose

end parts

section constants

theorem plain_isDigit {c : UInt8} (h : isDigit c) : ¬c < 32 ∧ c ≠ 34 ∧ c ≠ 92 := by
  rw [isDigit, Bool.and_eq_true, decide_eq_true_iff, decide_eq_true_iff] at h
  refine ⟨fun hlt => ?_, ?_, ?_⟩
  · exact absurd (UInt8.lt_of_le_of_lt h.1 hlt) (by decide)
  · rintro rfl
    exact absurd h.1 (by decide)
  · rintro rfl
    exact absurd h.2 (by decide)

theorem plain_integer (n : Int) : Plain (integer n) := by
  have hdigits : Plain (bytes (Nat.repr n.natAbs)) := fun c hc =>
    plain_isDigit (digits_repr n.natAbs c hc)
  rw [integer]
  split
  · exact List.forall_mem_cons.mpr ⟨by decide, hdigits⟩
  · exact hdigits

theorem plain_cons {c : UInt8} {text : List UInt8} (hc : ¬c < 32 ∧ c ≠ 34 ∧ c ≠ 92)
    (h : Plain text) : Plain (c :: text) := List.forall_mem_cons.mpr ⟨hc, h⟩

theorem plain_twoDigits (n : Int) : Plain (twoDigits n) := by
  rw [twoDigits]
  split
  · exact plain_cons (by decide) (plain_integer n)
  · exact plain_integer n

theorem inside_clock (hh mm ss : UInt8) : Inside (clock hh mm ss) :=
  (plain_append (plain_twoDigits _) (plain_cons (by decide)
    (plain_append (plain_twoDigits _) (plain_cons (by decide) (plain_twoDigits _))))).inside

theorem inside_date (ymd : Int × Int × Int) : Inside (date ymd) :=
  (plain_append (plain_integer _) (plain_cons (by decide)
    (plain_append (plain_twoDigits _) (plain_cons (by decide) (plain_twoDigits _))))).inside

theorem plain_casysids : ∀ c ∈ casysids, Plain c.descr := by
  simp only [casysids, List.forall_mem_cons]
  and_intros
  all_goals first
    | exact plain_bytes _ rfl
    | exact fun _ h => absurd h List.not_mem_nil

theorem inside_caSysIdToStr (id : Nat) : Inside (caSysIdToStr id) := by
  rw [caSysIdToStr]
  split
  case h_1 c hfind => exact (plain_casysids c (List.mem_of_find?_eq_some hfind)).inside
  case h_2 => exact (plain_bytes _ rfl).inside

theorem runningStatus_read (b : UInt8) :
    ∃ status, runningStatusDescr.read (b.toNat / 32) = .ok status ∧ Inside status := by
  have hlt := b.toNat_lt
  obtain ⟨status, hread, hstatus⟩ := runningStatusDescr.read_lt
    (show b.toNat / 32 < 8 by omega)
  have hplain : ∀ status ∈ runningStatusDescr.cells, Plain status := by
    simp only [runningStatusDescr, List.forall_mem_cons]
    and_intros
    all_goals first
      | exact plain_bytes _ rfl
      | exact fun _ h => absurd h List.not_mem_nil
  exact ⟨status, hread, (hplain status (List.mem_of_getElem? hstatus)).inside⟩

theorem valid_ratingParts (rating : UInt8) : Valid (ratingParts rating) := by
  rw [ratingParts]
  split
  · simp
  · split
    · simpa using ((plain_bytes _ rfl).inside).append (plain_integer _).inside
    · simp

end constants

section texts

variable {env : Outside} {dataFull : Buffer UInt8 maxTsSize} {buf len : Nat}
  {copied : List UInt8}

/-- A text is converted inside of its array, and what it is converted to has room in the other
array when it is escaped. -/
def Displayable (env : Outside) (buf : Nat) (copied : List UInt8) : Prop :=
  ∃ text s, convertedText env buf copied = .ok text ∧ cstring text.cells = .ok s ∧
    Fits maxDescrLen maxDescrLen s

/-- A displayable text that may stand between quotes as it is converted. -/
def DisplayableRaw (env : Outside) (buf : Nat) (copied : List UInt8) : Prop :=
  ∃ text s, convertedText env buf copied = .ok text ∧ cstring text.cells = .ok s ∧
    Fits maxDescrLen maxDescrLen s ∧ Inside s

theorem convertedText_cstring {text : Buffer UInt8 maxDescrLen}
    (h : convertedText env buf copied = .ok text) : ∃ s, cstring text.cells = .ok s := by
  rw [convertedText] at h
  obtain ⟨start, hwrite, h⟩ := bind_eq_ok.mp h
  obtain ⟨converted, hconvert, h⟩ := bind_eq_ok.mp h
  cases h
  refine cstring_of_mem (convertEn300468StringIn_zero hconvert ?_)
  rw [Buffer.write_eq_ok hwrite, splice]
  simp

theorem holds_of_cstring {text : Buffer UInt8 maxDescrLen} {s : List UInt8}
    (h : cstring text.cells = .ok s) :
    s.length < maxDescrLen ∧ ∃ tail, Holds text maxDescrLen s tail := by
  obtain ⟨hzero, rest, hcells⟩ := cstring_eq_ok.mp h
  have hlen := text.length_cells
  rw [hcells, List.length_append, List.length_cons] at hlen
  exact ⟨by omega, 0 :: rest, hcells, hzero, by omega, fun _ => ⟨rest, rfl⟩⟩

/-- The two arrays of a text: the one has what it is converted to, and the other may be printed. -/
theorem texts_returns (env : Outside) (hread : readBytes dataFull.read buf len = .ok copied) :
    Returns (texts env dataFull buf len) (Displayable env buf copied) fun arrays =>
      convertedText env buf copied = .ok arrays.1 ∧
        ∃ content, cstring arrays.2.cells = .ok content ∧ Inside content := by
  rw [texts, hread, bind_ok]
  constructor
  · constructor
    · rintro ⟨arrays, h⟩
      obtain ⟨text, hconverted, h⟩ := bind_eq_ok.mp h
      obtain ⟨text2, hjson, h⟩ := bind_eq_ok.mp h
      obtain ⟨s, hs⟩ := convertedText_cstring hconverted
      obtain ⟨hlen, tail, hholds⟩ := holds_of_cstring hs
      obtain ⟨raw, hraw, -⟩ := mumuStringToJson_inside hholds hjson
      exact ⟨text, s, hconverted, hs, (mumuStringToJson_holds hholds (by decide) (by decide) _
        (Nat.lt_succ_of_lt hlen)).mp ⟨text2, raw, hjson, hraw⟩⟩
    · rintro ⟨text, s, hconverted, hs, hfits⟩
      obtain ⟨hlen, tail, hholds⟩ := holds_of_cstring hs
      obtain ⟨text2, -, hjson, -⟩ := (mumuStringToJson_holds hholds (by decide) (by decide)
        (env.stale buf).2 (Nat.lt_succ_of_lt hlen)).mpr hfits
      exact ⟨(text, text2), by rw [hconverted, bind_ok, hjson]; rfl⟩
  · intro arrays h
    obtain ⟨text, hconverted, h⟩ := bind_eq_ok.mp h
    obtain ⟨text2, hjson, h⟩ := bind_eq_ok.mp h
    cases h
    obtain ⟨s, hs⟩ := convertedText_cstring hconverted
    obtain ⟨-, tail, hholds⟩ := holds_of_cstring hs
    exact ⟨hconverted, mumuStringToJson_inside hholds hjson⟩

theorem escaped_returns (hread : readBytes dataFull.read buf len = .ok copied) :
    Returns (escaped env dataFull buf len) (Displayable env buf copied) Inside := by
  have htexts := texts_returns env hread
  rw [escaped]
  constructor
  · rw [← htexts.returns]
    constructor
    · rintro ⟨content, h⟩
      obtain ⟨arrays, harrays, -⟩ := bind_eq_ok.mp h
      exact ⟨arrays, harrays⟩
    · rintro ⟨arrays, harrays⟩
      obtain ⟨-, content, hcontent, -⟩ := htexts.result arrays harrays
      exact ⟨content, by rw [harrays, bind_ok, hcontent]⟩
  · intro content h
    obtain ⟨arrays, harrays, h⟩ := bind_eq_ok.mp h
    obtain ⟨-, content', hcontent, hinside⟩ := htexts.result arrays harrays
    cases h.symm.trans hcontent
    exact hinside

end texts

end MuMuDVB.EitJson
