import MuMuDVB.PmtReads
import MuMuDVB.ServiceNames

/-!
# What convert_en300468_string reads of a text

A text stands in an array with a zero behind it. The characters that tell its
encoding are skipped, and the rest is read up to a zero and converted in place.
No byte behind the zero of the text may be read here, of whatever size the array
is; the messages of the log are left out, up to the bytes of the text that they
name.
-/
namespace MuMuDVB.TextConversion

open CheckedMemory CString MuMuDVB.TsHeader MuMuDVB.PmtReads MuMuDVB.ServiceNames

/-- `encodingControl`, with the bytes read one at a time below the given bound. -/
def encodingControlIn (string : List UInt8) (bound : Nat) : Checked (Nat × Nat) := do
  let first ← readAt (byteAt string) bound 0
  if first < 0x20 then
    if first ≤ 0x0b then return (first.toNat + 4 - 1, 1)
    else if first = 0x10 then
      let third ← readAt (byteAt string) bound 2
      if 0x01 ≤ third ∧ third ≤ 0x0f then return (third.toNat - 1, 3) else return (8, 3)
    else if first = 0x11 then return (15, 1)
    else if first = 0x13 then return (16, 1)
    else if first = 0x14 then return (17, 1)
    else if first = 0x15 then return (18, 1)
    else if first = 0x1f then
      -- the message tells the character behind
      let _ ← readAt (byteAt string) bound 1
      return (8, 2)
    else return (8, 1)
  else return (8, 0)

section convert

variable {maxLen : Nat} (iconvOpen : IconvOpen) (malloc : Bool) (n : Nat)

/-- `convert_en300468_string`, for a text with its zero at `n`: the result and the array. -/
def convertEn300468StringIn (string : Buffer UInt8 maxLen) :
    Checked (Int × Buffer UInt8 maxLen) := do
  if (← readAt (byteAt string.cells) (n + 1) 0) = 0 then return (0, string)
  else do
    let (encodingControlChar, realstart) ← encodingControlIn string.cells (n + 1)
    let text ← cstring ((string.cells.take (n + 1)).drop realstart)
    if malloc then do
      let tempbuf ← (Buffer.fill (lenstring text + 1) 0).write 0 (copied text ++ [0])
      let encoding ← encodingsEn300468.read encodingControlChar
      match openConversion iconvOpen encoding with
      | some cd => do
        let inbuf ← tempbuf.slice 0 (copied text).length
        let string ← string.write 0 (cd.written inbuf maxLen ++ [0])
        return (encodingControlChar, string)
      | none => return (encodingControlChar, string)
    else return (-1, string)

/-- The conversion that is opened for the text. -/
def opened (cells : List UInt8) : Option Conversion :=
  openConversion iconvOpen (encodingsEn300468.cells.getD (encodingControl cells).1 "")

end convert

section reads

variable {n maxLen : Nat} {cells : List UInt8} {string : Buffer UInt8 maxLen}
  {iconvOpen : IconvOpen} {malloc : Bool}

/-- What tells the encoding is read, or the skipped characters go beyond the zero. -/
theorem encodingControlIn_cases (cells : List UInt8) (hpos : 0 < n) :
    encodingControlIn cells (n + 1) = .ok (encodingControl cells) ∨
      (n < (encodingControl cells).2 ∧
        encodingControlIn cells (n + 1) = .error .outOfBounds) := by
  rw [encodingControl, encodingControlIn, readAt_ok (Nat.succ_pos n), bind_ok]
  dsimp only
  by_cases h₁ : byteAt cells 0 < 0x20
  case neg =>
    rw [if_neg h₁, if_neg h₁]
    exact .inl rfl
  case pos =>
    rw [if_pos h₁, if_pos h₁]
    by_cases h₂ : byteAt cells 0 ≤ 0x0b
    case pos =>
      rw [if_pos h₂, if_pos h₂]
      exact .inl rfl
    case neg =>
      rw [if_neg h₂, if_neg h₂]
      by_cases h₃ : byteAt cells 0 = 0x10
      case pos =>
        -- the third character tells the part of ISO/IEC 8859
        rw [if_pos h₃, if_pos h₃]
        by_cases hthird : 2 < n + 1
        · rw [readAt_ok hthird, bind_ok]
          split <;> exact .inl rfl
        · rw [readAt_outside hthird]
          refine .inr ⟨?_, rfl⟩
          split <;> omega
      case neg =>
        rw [if_neg h₃, if_neg h₃, readAt_ok (by omega), bind_ok]
        split_ifs <;> exact .inl rfl

/-- The text behind the skipped characters ends before or at its zero. -/
theorem cstring_text (hnul : cells[n]? = some 0) {skip : Nat} (hskip : skip ≤ n) :
    cstring ((cells.take (n + 1)).drop skip) =
      .ok ((cells.drop skip).takeWhile fun c => c ≠ 0) := by
  have hlength := (List.getElem?_eq_some_iff.mp hnul).1
  have hlast : ((cells.take (n + 1)).drop skip).getLast? = some 0 := by
    rw [List.getLast?_drop, if_neg (by rw [List.length_take]; omega), List.getLast?_take,
      if_neg (Nat.succ_ne_zero n), Nat.add_sub_cancel, hnul]
    rfl
  have hcstring := cstring_terminated hlast
  obtain ⟨hfree, rest, hsplit⟩ := cstring_eq_ok.mp hcstring
  have hcells : cells.drop skip = (cells.take (n + 1)).drop skip ++ cells.drop (n + 1) := by
    conv_lhs => rw [← List.take_append_drop (n + 1) cells]
    rw [List.drop_append_of_le_length (by rw [List.length_take]; omega)]
  rw [hcstring, hcells]
  conv_rhs => rw [hsplit, List.append_assoc]
  rw [List.takeWhile_append_of_pos fun c hc => by
    simpa using fun hnull : c = 0 => hfree (hnull ▸ hc)]
  simp

/-- The call returns an index of `encodings_en300468`, which takes every access to be inside, and
leaves a string in the array. -/
def ConvertsInside (iconvOpen : IconvOpen) (malloc : Bool) (n : Nat)
    (string : Buffer UInt8 maxLen) : Prop :=
  ∃ i result text, convertEn300468StringIn iconvOpen malloc n string = .ok (i, result) ∧
    (0 ≤ i ∧ i < encodingsEn300468.cells.length) ∧ cstring result.cells = .ok text

/-- The text is empty; or there is memory for the copy, the skipped characters lie before the zero,
and `iconv` does not fill the array. -/
def Convertible (iconvOpen : IconvOpen) (malloc : Bool) (n maxLen : Nat) (cells : List UInt8) :
    Prop :=
  byteAt cells 0 = 0 ∨ (malloc = true ∧ (encodingControl cells).2 ≤ n ∧
    ∀ cd, opened iconvOpen cells = some cd →
      (cd.written (copied (textOf cells)) maxLen).length ≠ maxLen)

/-- The call for a text that is not empty. -/
theorem convertEn300468StringIn_eq (hfirst : byteAt string.cells 0 ≠ 0)
    (hnul : string.cells[n]? = some 0) (hskip : (encodingControl string.cells).2 ≤ n) :
    convertEn300468StringIn iconvOpen malloc n string =
      if malloc then
        match opened iconvOpen string.cells with
        | some cd =>
          (string.write 0 (cd.written (copied (textOf string.cells)) maxLen ++ [0])).map
            fun result => (((encodingControl string.cells).1 : Int), result)
        | none => .ok ((encodingControl string.cells).1, string)
      else .ok (-1, string) := by
  have hpos : 0 < n := by
    refine Nat.pos_of_ne_zero fun hn => hfirst ?_
    rw [byteAt, List.getD_eq_getElem?_getD, ← hn, hnul]
    rfl
  have hcontrol : encodingControlIn string.cells (n + 1) = .ok (encodingControl string.cells) :=
    (encodingControlIn_cases _ hpos).resolve_right fun h => Nat.not_lt_of_le hskip h.1
  obtain ⟨tempbuf, hwrite, hcells⟩ :=
    (Buffer.fill (lenstring (textOf string.cells) + 1) 0).write_ok 0
      (copied (textOf string.cells) ++ [0])
      (by rw [List.length_append, length_copied, List.length_singleton, Nat.zero_add])
  obtain ⟨encoding, hread, hfound⟩ :=
    encodingsEn300468.read_lt (encodingControl_inside string.cells).1
  rw [convertEn300468StringIn, readAt_ok (Nat.succ_pos n), bind_ok, if_neg hfirst, hcontrol,
    bind_ok]
  dsimp only
  rw [cstring_text hnul hskip, bind_ok, ← textOf]
  cases malloc with
  | false => rfl
  | true =>
    have hinbuf : tempbuf.cells.take (copied (textOf string.cells)).length =
        copied (textOf string.cells) := by
      rw [hcells, ← overwritten, overwritten_eq, List.take_left]
    rw [if_pos rfl, if_pos rfl, hwrite, bind_ok, hread, bind_ok, opened,
      List.getD_eq_getElem?_getD, hfound, Option.getD_some]
    cases openConversion iconvOpen encoding with
    | none => rfl
    | some cd =>
      dsimp only
      rw [tempbuf.slice_ok (by rw [length_copied]; omega), bind_ok, List.drop_zero, hinbuf]
      cases string.write 0 (cd.written (copied (textOf string.cells)) maxLen ++ [0]) <;> rfl

theorem convertEn300468StringIn_outside (hfirst : byteAt string.cells 0 ≠ 0) (hpos : 0 < n)
    (hskip : n < (encodingControl string.cells).2) :
    convertEn300468StringIn iconvOpen malloc n string = .error .outOfBounds := by
  rw [convertEn300468StringIn, readAt_ok (Nat.succ_pos n), bind_ok, if_neg hfirst]
  rcases encodingControlIn_cases string.cells hpos with hok | ⟨-, herror⟩
  · have hdrop : (string.cells.take (n + 1)).drop (encodingControl string.cells).2 = [] := by
      rw [List.drop_eq_nil_iff, List.length_take]
      omega
    rw [hok, bind_ok]
    dsimp only
    rw [hdrop]
    rfl
  · rw [herror]
    rfl

/-- An array with a zero still has one. -/
theorem convertEn300468StringIn_zero {r : Int × Buffer UInt8 maxLen}
    (h : convertEn300468StringIn iconvOpen malloc n string = .ok r) (hzero : 0 ∈ string.cells) :
    0 ∈ r.2.cells := by
  rw [convertEn300468StringIn] at h
  obtain ⟨first, -, h⟩ := bind_eq_ok.mp h
  split at h
  · cases h
    exact hzero
  · obtain ⟨control, -, h⟩ := bind_eq_ok.mp h
    obtain ⟨text, -, h⟩ := bind_eq_ok.mp h
    cases malloc with
    | false =>
      cases h
      exact hzero
    | true =>
      rw [if_pos rfl] at h
      obtain ⟨tempbuf, -, h⟩ := bind_eq_ok.mp h
      obtain ⟨encoding, -, h⟩ := bind_eq_ok.mp h
      cases hopen : openConversion iconvOpen encoding with
      | none =>
        rw [hopen] at h
        cases h
        exact hzero
      | some cd =>
        rw [hopen] at h
        obtain ⟨inbuf, -, h⟩ := bind_eq_ok.mp h
        obtain ⟨result, hwrite, h⟩ := bind_eq_ok.mp h
        cases h
        rw [Buffer.write_eq_ok hwrite, splice]
        simp

/-- With memory, the name of a service is converted in the same way: all of its array may be read,
whose last byte is a zero. -/
theorem convertEn300468StringIn_serviceName (string : ServiceName) :
    (convertEn300468StringIn iconvOpen true 511 string.toBuffer).map (·.2.cells) =
      (convertEn300468String iconvOpen string).map (·.cells) := by
  have hnul : string.cells[511]? = some 0 := by
    have hlast := string.terminated
    rwa [List.getLast?_eq_getElem?, string.length_cells] at hlast
  rw [convertEn300468String_eq, converted]
  by_cases hfirst : byteAt string.cells 0 = 0
  · rw [convertEn300468StringIn, readAt_ok (by decide), bind_ok, if_pos hfirst, if_pos hfirst]
    rfl
  · have hskip := (encodingControl_inside string.cells).2
    rw [convertEn300468StringIn_eq hfirst hnul (by omega), if_pos rfl, if_neg hfirst, ← opened]
    cases opened iconvOpen string.cells with
    | none => rfl
    | some cd =>
      dsimp only [Option.map_some]
      rw [ServiceName.put, Buffer.write]
      by_cases hlt : (cd.written (copied (textOf string.cells)) maxNameLen).length < maxNameLen
      · rw [dif_pos hlt, dif_pos (by rw [List.length_append, List.length_singleton]; omega)]
        rfl
      · rw [dif_neg hlt, dif_neg (by rw [List.length_append, List.length_singleton]; omega)]
        rfl

/-- A text of any bytes, zeros among them, is converted inside exactly when it is convertible. -/
theorem convertEn300468String_inside_iff (iconvOpen : IconvOpen) (malloc : Bool)
    (string : Buffer UInt8 maxLen) (hnul : string.cells[n]? = some 0) :
    ConvertsInside iconvOpen malloc n string ↔
      Convertible iconvOpen malloc n maxLen string.cells := by
  obtain ⟨text, htext⟩ := cstring_of_mem (List.mem_of_getElem? hnul)
  have hindex := (encodingControl_inside string.cells).1
  rw [Convertible]
  by_cases hfirst : byteAt string.cells 0 = 0
  · have hcall : convertEn300468StringIn iconvOpen malloc n string = .ok (0, string) := by
      rw [convertEn300468StringIn, readAt_ok (Nat.succ_pos n), bind_ok, if_pos hfirst]
      rfl
    exact iff_of_true ⟨0, string, text, hcall, by decide, htext⟩ (.inl hfirst)
  rw [or_iff_right hfirst]
  by_cases hskip : (encodingControl string.cells).2 ≤ n
  case neg =>
    have hpos : 0 < n := by
      refine Nat.pos_of_ne_zero fun hn => hfirst ?_
      rw [byteAt, List.getD_eq_getElem?_getD, ← hn, hnul]
      rfl
    refine iff_of_false ?_ fun h => hskip h.2.1
    rintro ⟨i, result, text, hcall, -⟩
    rw [convertEn300468StringIn_outside hfirst hpos (Nat.not_le.mp hskip)] at hcall
    cases hcall
  case pos =>
    rw [ConvertsInside, convertEn300468StringIn_eq hfirst hnul hskip, and_iff_right hskip]
    cases malloc with
    | false =>
      refine iff_of_false ?_ fun h => Bool.false_ne_true h.1
      rintro ⟨i, result, text, hcall, hi, -⟩
      cases hcall
      exact absurd hi.1 (by decide)
    | true =>
      rw [if_pos rfl, and_iff_right rfl]
      cases hopened : opened iconvOpen string.cells with
      | none =>
        refine iff_of_true ⟨_, string, text, rfl, ⟨Int.natCast_nonneg _, ?_⟩, htext⟩ (by simp)
        exact Int.ofNat_lt.mpr hindex
      | some cd =>
        set written := cd.written (copied (textOf string.cells)) maxLen with hwritten
        have hroom : written.length ≤ maxLen := cd.fits _ _
        have hend : (written ++ [0]).length = written.length + 1 := by simp
        simp only [Option.some.injEq, forall_eq', ← hwritten]
        constructor
        · rintro ⟨i, result, text, hcall, -⟩
          obtain ⟨result', hwrite, -⟩ := map_eq_ok hcall
          have hinside := (string.write_ok_iff 0 (written ++ [0])).mp ⟨result', hwrite⟩
          omega
        · intro hfits
          obtain ⟨result, hwrite, hcells⟩ := string.write_ok 0 (written ++ [0]) (by omega)
          have hmem : (0 : UInt8) ∈ result.cells := by
            rw [hcells, splice]
            simp
          obtain ⟨text, htext⟩ := cstring_of_mem hmem
          refine ⟨_, result, text, by rw [hwrite]; rfl, ⟨Int.natCast_nonneg _, ?_⟩, htext⟩
          exact Int.ofNat_lt.mpr hindex

end reads

/-! Two characters, of which the first tells that the third tells the encoding. -/

theorem length_padded {text : List UInt8} (h : text.length ≤ 256) :
    (text ++ List.replicate (256 - text.length) 0).length = 256 := by
  rw [List.length_append, List.length_replicate]
  omega

/-- A text in an array of zeros. -/
def padded (text : List UInt8) (h : text.length ≤ 256) : Buffer UInt8 256 :=
  ⟨text ++ List.replicate (256 - text.length) 0, length_padded h⟩

def tableA4 : Buffer UInt8 256 := padded [0x10, 0x01] (by decide)

theorem convertEn300468String_not_inside :
    ¬ ∀ (iconvOpen : IconvOpen) (malloc : Bool) (n maxLen : Nat) (string : Buffer UInt8 maxLen),
      n ≤ 255 → 256 ≤ maxLen → string.cells[n]? = some 0 →
        ConvertsInside iconvOpen malloc n string := by
  intro h
  obtain ⟨i, result, text, hcall, -⟩ :=
    h (fun _ _ => none) true 2 256 tableA4 (by decide) (by decide) rfl
  have hfault : (convertEn300468StringIn (fun _ _ => none) true 2 tableA4).map (·.1) =
      .error .outOfBounds := by decide +kernel
  rw [hcall] at hfault
  cases hfault

/-- A letter behind them is read inside. -/
theorem convertEn300468String_inside_letter :
    ConvertsInside (fun _ _ => none) true 4 (padded [0x10, 0x00, 0x02, 97] (by decide)) :=
  (convertEn300468String_inside_iff _ _ _ rfl).mpr
    (.inr ⟨rfl, by decide +kernel, fun _ h => nomatch h⟩)

end MuMuDVB.TextConversion
