import MuMuDVB.CString
import MuMuDVB.TsHeader

/-!
# The name of a service

A name is copied to the beginning of `service_name` with a zero behind it, and
`convert_en300468_string` converts it in place: the text that follows the first
characters goes through `iconv`, which may fill the array, and a zero is
written behind what `iconv` has written.
-/
namespace MuMuDVB.ServiceNames

open CheckedMemory CString MuMuDVB.TsHeader

@[simp] abbrev maxNameLen : Nat := 512

/-- `service_name`. It begins as zeros, and its last byte stays one. -/
structure ServiceName extends Buffer UInt8 maxNameLen where
  terminated : cells.getLast? = some 0

/-- The cells behind a text and its zero stay. -/
def overwritten (cells text : List UInt8) : List UInt8 := splice cells 0 (text ++ [0])

section overwritten

variable {cells text : List UInt8}

theorem length_overwritten (h : text.length < cells.length) :
    (overwritten cells text).length = cells.length :=
  length_splice (by rw [List.length_append, List.length_singleton]; omega)

theorem overwritten_eq (cells text : List UInt8) :
    overwritten cells text = text ++ 0 :: cells.drop (text.length + 1) := by
  rw [overwritten, splice, List.take_zero, List.nil_append, Nat.zero_add, List.length_append,
    List.length_singleton, List.append_assoc]
  rfl

theorem overwritten_terminated (hlast : cells.getLast? = some 0) :
    (overwritten cells text).getLast? = some 0 := by
  rw [overwritten_eq, List.getLast?_append_of_ne_nil _ (List.cons_ne_nil _ _),
    List.getLast?_cons]
  rcases Nat.lt_or_ge (text.length + 1) cells.length with hlt | hge
  · have hdrop : (cells.drop (text.length + 1)).getLast? = some 0 := by
      rw [List.getLast?_drop, if_neg (by omega), hlast]
    rw [hdrop]
    rfl
  · rw [List.drop_of_length_le hge]
    rfl

end overwritten

/-- The array that has not been written. -/
def ServiceName.zeros : ServiceName :=
  ⟨Buffer.fill maxNameLen 0, List.getLast?_replicate.trans (if_neg (by decide))⟩

/-- A text and a zero behind it go to the beginning of the array. -/
def ServiceName.put (name : ServiceName) (text : List UInt8) : Checked ServiceName :=
  if h : text.length < maxNameLen then
    .ok ⟨⟨overwritten name.cells text,
        (length_overwritten (h.trans_eq name.size.symm)).trans name.size⟩,
      overwritten_terminated name.terminated⟩
  else .error .outOfBounds

/-- A conversion that `iconv_open` gives: what `iconv` writes of a text into a room. -/
structure Conversion where
  written : List UInt8 → Nat → List UInt8
  fits : ∀ text room, (written text room).length ≤ room

/-- `iconv_open`, with the encodings to and from. -/
abbrev IconvOpen := String → String → Option Conversion

/-- `encodings_en300468` -/
def encodingsEn300468 : Buffer String 19 where
  cells := ["ISO8859-1", "ISO8859-2", "ISO8859-3", "ISO8859-4", "ISO8859-5", "ISO8859-6",
    "ISO8859-7", "ISO8859-8", "ISO8859-9", "ISO8859-10", "ISO8859-11", "ISO8859-12",
    "ISO8859-13", "ISO8859-14", "ISO8859-15", "ISO-10646", "GB2312", "BIG5", "ISO-10646/UTF8"]
  size := rfl

/-- `encoding_control_char` and the place of `realstart`, for a string that is not empty. -/
def encodingControl (string : List UInt8) : Nat × Nat :=
  let first := byteAt string 0
  if first < 0x20 then
    if first ≤ 0x0b then (first.toNat + 4 - 1, 1)
    else if first = 0x10 then
      let third := byteAt string 2
      if 0x01 ≤ third ∧ third ≤ 0x0f then (third.toNat - 1, 3) else (8, 3)
    else if first = 0x11 then (15, 1)
    else if first = 0x13 then (16, 1)
    else if first = 0x14 then (17, 1)
    else if first = 0x15 then (18, 1)
    -- one character more is skipped
    else if first = 0x1f then (8, 2)
    else (8, 1)
  else (8, 0)

/-- The length that is counted for the temporary buffer. -/
def lenstring (text : List UInt8) : Nat :=
  text.countP (fun c => c < 0x80 ∨ 0x9f < c) + text.countP (fun c => c = 0x8a)

/-- What is copied to the temporary buffer: control characters are dropped, and "CR/LF" is a
newline. -/
def copied (text : List UInt8) : List UInt8 :=
  text.filterMap fun c =>
    if c < 0x80 ∨ 0x9f < c then some c else if c = 0x8a then some 10 else none

/-- The conversion to UTF-8, or else the one from the default encoding. -/
def openConversion (iconvOpen : IconvOpen) (encoding : String) : Option Conversion :=
  (iconvOpen "UTF8" encoding).or (iconvOpen "UTF-8" "ISO8859-9")

variable (iconvOpen : IconvOpen)

/-- `convert_en300468_string` -/
def convertEn300468String (string : ServiceName) : Checked ServiceName :=
  if byteAt string.cells 0 = 0 then return string
  else do
    let (encodingControlChar, realstart) := encodingControl string.cells
    let text ← cstring (string.cells.drop realstart)
    let tempbuf ← (Buffer.fill (lenstring text + 1) 0).write 0 (copied text ++ [0])
    let encoding ← encodingsEn300468.read encodingControlChar
    match openConversion iconvOpen encoding with
    | some cd => do
      let inbuf ← tempbuf.slice 0 (copied text).length
      string.put (cd.written inbuf maxNameLen)
    | none => return string

/-- What `parse_service_descriptor` does with the name that it has found. -/
def storeName (name : ServiceName) (bytes : List UInt8) : Checked ServiceName := do
  let name ← name.put bytes
  convertEn300468String iconvOpen name

/-- The text behind the first characters. -/
def textOf (cells : List UInt8) : List UInt8 :=
  (cells.drop (encodingControl cells).2).takeWhile fun c => c ≠ 0

/-- What `iconv` writes of a name, when it is asked. -/
def converted (cells : List UInt8) : Option (List UInt8) :=
  if byteAt cells 0 = 0 then none
  else (openConversion iconvOpen
    (encodingsEn300468.cells.getD (encodingControl cells).1 "")).map fun cd =>
      cd.written (copied (textOf cells)) maxNameLen

/-- `iconv` does not fill the array with a name that is stored over `cells`. -/
def NameFits (cells bytes : List UInt8) : Prop :=
  ∀ written, converted iconvOpen (overwritten cells bytes) = some written →
    written.length ≠ maxNameLen

/-- The array after a name has been stored and converted. -/
def nameStored (cells bytes : List UInt8) : List UInt8 :=
  match converted iconvOpen (overwritten cells bytes) with
  | some written => overwritten (overwritten cells bytes) written
  | none => overwritten cells bytes

variable {iconvOpen : IconvOpen}

theorem encodingControl_inside (string : List UInt8) :
    (encodingControl string).1 < 19 ∧ (encodingControl string).2 ≤ 3 := by
  unfold encodingControl
  dsimp only
  split
  · split
    case isTrue hle =>
      have := UInt8.le_iff_toNat_le.mp hle
      simp only [UInt8.reduceToNat] at this
      omega
    case isFalse =>
      split
      · split
        case isTrue hthird =>
          have := UInt8.le_iff_toNat_le.mp hthird.2
          simp only [UInt8.reduceToNat] at this
          omega
        case isFalse => decide
      · repeat' split
        all_goals decide
  · decide

/-- As much is copied as has been counted. -/
theorem length_copied (text : List UInt8) : (copied text).length = lenstring text := by
  induction text with
  | nil => rfl
  | cons c text ih =>
    rw [lenstring] at ih
    rw [copied] at ih
    rw [copied, lenstring, List.filterMap_cons]
    by_cases hplain : c < 0x80 ∨ 0x9f < c
    · have hother : c ≠ 0x8a := by
        rintro rfl
        revert hplain
        decide
      rw [if_pos hplain, List.countP_cons_of_pos (by simpa using hplain),
        List.countP_cons_of_neg (by simpa using hother)]
      simp only [List.length_cons, ih]
      omega
    · rw [if_neg hplain, List.countP_cons_of_neg (by simpa using hplain)]
      by_cases hline : c = 0x8a
      · rw [if_pos hline, List.countP_cons_of_pos (by simpa using hline)]
        simp only [List.length_cons, ih]
        omega
      · rw [if_neg hline, List.countP_cons_of_neg (by simpa using hline)]
        exact ih

/-- A block that ends in a zero has a string. -/
theorem cstring_terminated {cells : List UInt8} (h : cells.getLast? = some 0) :
    cstring cells = .ok (cells.takeWhile fun c => c ≠ 0) := by
  induction cells with
  | nil => cases h
  | cons c cells ih =>
    rw [cstring, List.takeWhile_cons]
    by_cases hc : c = 0
    · rw [if_pos hc, if_neg (by simpa using hc)]
    · have hrest : cells.getLast? = some 0 := by
        rw [List.getLast?_cons] at h
        cases hlast : cells.getLast? with
        | none =>
          rw [hlast] at h
          exact absurd (Option.some.inj h) hc
        | some d =>
          rw [hlast] at h
          exact h
      rw [if_neg hc, ih hrest, if_pos (by simpa using hc)]
      rfl

theorem ServiceName.put_ok_iff (name : ServiceName) (text : List UInt8) :
    (∃ name', name.put text = .ok name') ↔ text.length < maxNameLen := by
  rw [put]
  split <;> simp [*]

theorem ServiceName.put_eq_ok {name name' : ServiceName} {text : List UInt8}
    (h : name.put text = .ok name') : name'.cells = overwritten name.cells text := by
  rw [put] at h
  split at h
  · rw [← Except.ok.inj h]
  · cases h

/-- All that is read and copied is inside, up to what `iconv` writes. -/
theorem convertEn300468String_eq (string : ServiceName) :
    convertEn300468String iconvOpen string = match converted iconvOpen string.cells with
      | some written => string.put written
      | none => .ok string := by
  rw [convertEn300468String, converted]
  split
  · rfl
  · obtain ⟨hencoding, hstart⟩ := encodingControl_inside string.cells
    have hlast : (string.cells.drop (encodingControl string.cells).2).getLast? = some 0 := by
      have hlong : ¬string.cells.length ≤ (encodingControl string.cells).2 := by
        rw [string.length_cells]
        exact Nat.not_le_of_lt (hstart.trans_lt (by decide))
      rw [List.getLast?_drop, if_neg hlong, string.terminated]
    have hcopied : 0 + (copied (textOf string.cells) ++ [0]).length ≤
        lenstring (textOf string.cells) + 1 := by
      rw [List.length_append, length_copied, List.length_singleton, Nat.zero_add]
    obtain ⟨tempbuf, hwrite, hcells⟩ :=
      (Buffer.fill (lenstring (textOf string.cells) + 1) 0).write_ok 0 _ hcopied
    obtain ⟨encoding, hread, hfound⟩ := encodingsEn300468.read_lt hencoding
    dsimp only
    rw [cstring_terminated hlast, bind_ok, ← textOf, hwrite, bind_ok, hread, bind_ok,
      List.getD_eq_getElem?_getD, hfound, Option.getD_some]
    cases openConversion iconvOpen encoding with
    | none => rfl
    | some cd =>
      have hinbuf : tempbuf.cells.take (copied (textOf string.cells)).length =
          copied (textOf string.cells) := by
        rw [hcells, ← overwritten, overwritten_eq, List.take_left]
      dsimp only [Option.map_some]
      rw [tempbuf.slice_ok (by rw [length_copied]; omega), bind_ok, List.drop_zero, hinbuf]

theorem converted_le {cells written : List UInt8} (h : converted iconvOpen cells = some written) :
    written.length ≤ maxNameLen := by
  rw [converted] at h
  split at h
  · cases h
  · obtain ⟨cd, -, rfl⟩ := Option.map_eq_some_iff.mp h
    exact cd.fits _ _

/-- A name is stored without writing behind the array exactly when `iconv` does not fill it. -/
theorem storeName_ok_iff (name : ServiceName) {bytes : List UInt8}
    (hbytes : bytes.length < maxNameLen) :
    (∃ name', storeName iconvOpen name bytes = .ok name') ↔
      NameFits iconvOpen name.cells bytes := by
  obtain ⟨stored, hput⟩ := (name.put_ok_iff bytes).mpr hbytes
  rw [storeName, hput, bind_ok, convertEn300468String_eq, NameFits,
    ← ServiceName.put_eq_ok hput]
  cases hconverted : converted iconvOpen stored.cells with
  | none => exact iff_of_true ⟨stored, rfl⟩ (by simp)
  | some written =>
    have hle := converted_le hconverted
    simp only [ServiceName.put_ok_iff, Option.some.injEq, forall_eq']
    omega

theorem storeName_eq_ok {name name' : ServiceName} {bytes : List UInt8}
    (h : storeName iconvOpen name bytes = .ok name') :
    name'.cells = nameStored iconvOpen name.cells bytes := by
  obtain ⟨stored, hput, h⟩ := bind_eq_ok.mp h
  rw [convertEn300468String_eq, ServiceName.put_eq_ok hput] at h
  rw [nameStored]
  cases hconverted : converted iconvOpen (overwritten name.cells bytes) with
  | none =>
    rw [hconverted] at h
    cases h
    exact ServiceName.put_eq_ok hput
  | some written =>
    rw [hconverted] at h
    rw [ServiceName.put_eq_ok h, ServiceName.put_eq_ok hput]

end MuMuDVB.ServiceNames
