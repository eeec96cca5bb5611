import MuMuDVB.FuelLoop
import MuMuDVB.JsonText

/-!
# mumu_string_to_json

Texts of the broadcast are put in JSON strings. What may not be in one, and `/`,
is escaped; a character of several bytes is copied if it is whole and there is
room for it, else it is left out byte by byte. The two arrays are blocks of
memory with their sizes, and every access to them is checked.
-/
namespace MuMuDVB.JsonEscape

open CheckedMemory CString FuelLoop JsonText

/-- A digit of `"%04x"`. -/
def hexDigit (n : Nat) : UInt8 := UInt8.ofNat (if n < 10 then 48 + n else 87 + n)

/-- `snprintf(hex,5,"%04x",c)`. -/
def hex (c : UInt8) : List UInt8 :=
  [hexDigit 0, hexDigit 0, hexDigit (c.toNat / 16), hexDigit (c.toNat % 16)]

/-- What is written for a character that JSON does not allow. -/
def escape (c : UInt8) : List UInt8 :=
  if c = 92 then [92, 92]
  else if c = 34 then [92, 34]
  else if c = 8 then [92, 98]
  else if c = 12 then [92, 102]
  else if c = 10 then [92, 110]
  else if c = 13 then [92, 114]
  else if c = 9 then [92, 116]
  else if c = 47 then [92, 47]
  else [92, 117, 48, 48] ++ (hex c).drop 2

/-- What is written for an ASCII character. -/
def asciiJson (c : UInt8) : List UInt8 :=
  if c < 32 ∨ c = 34 ∨ c = 47 ∨ c = 92 then escape c else [c]

section convert

variable {n lout : Nat} (input : Buffer UInt8 n) (lin : Nat)

/-- `offin`, `offout` and the array written to. -/
structure Progress (lout : Nat) where
  offin : Nat
  offout : Nat
  out : Buffer UInt8 lout

/-- The next `k` bytes continue a character. -/
def continues (offin : Nat) : Nat → Checked Bool
  | 0 => return true
  | k + 1 => do
    let c ← input.read offin
    if c &&& 0xc0 = 0x80 then continues (offin + 1) k else return false

/-- A character of `k` bytes begins here, and there is room for it. -/
def startsCharacter (s : Progress lout) (c mask lead : UInt8) (k : Nat) : Checked Bool :=
  if c &&& mask = lead ∧ k + 1 < lout - s.offout ∧ k + 1 < lin - s.offin then
    continues input (s.offin + 1) (k - 1)
  else return false

def copyCharacter (s : Progress lout) (k : Nat) : Checked (Progress lout) := do
  let bytes ← input.slice s.offin k
  let out ← s.out.write s.offout bytes
  return ⟨s.offin + k, s.offout + k, out⟩

/-- What a turn of the loop does with the byte that it read. -/
def convertByte (s : Progress lout) (c : UInt8) : Checked (Progress lout) := do
  if c &&& 0x80 = 0 then
    let out ← s.out.write s.offout (asciiJson c)
    return ⟨s.offin + 1, s.offout + (asciiJson c).length, out⟩
  else if ← startsCharacter input lin s c 0xe0 0xc0 2 then copyCharacter input s 2
  else if ← startsCharacter input lin s c 0xf0 0xe0 3 then copyCharacter input s 3
  else if ← startsCharacter input lin s c 0xf8 0xf0 4 then copyCharacter input s 4
  else return { s with offin := s.offin + 1 }

def convertTurn (s : Progress lout) : Checked (Turn (Progress lout) (Progress lout)) :=
  if s.offin < lin ∧ s.offout < lout then do
    let c ← input.read s.offin
    if c = 0 then return .done s
    else
      let s ← convertByte input lin s c
      return .again s
  else return .done s

/-- `mumu_string_to_json(in, lin, out, lout)`, whose loop is given `fuel` turns. -/
def mumuStringToJson (fuel : Nat) (out : Buffer UInt8 lout) : Checked (Buffer UInt8 lout) := do
  if (← input.read 0) = 0 then out.write 0 [0]
  else
    let s ← run (convertTurn input lin) fuel ⟨0, 0, out⟩
    if s.offout < lout then s.out.write s.offout [0] else s.out.write lout [0]

end convert

/-! ## What is written for a character -/

/-- A character of the text in the JSON string. -/
def jsonChar (c : Char) : List UInt8 :=
  if c.toNat < 128 then asciiJson (UInt8.ofNat c.toNat) else String.utf8EncodeChar c

/-- A text as the bytes of UTF-8. -/
def utf8 (chars : List Char) : List UInt8 := chars.flatMap String.utf8EncodeChar

def json (chars : List Char) : List UInt8 := chars.flatMap jsonChar

section characters

variable {b c : UInt8}

/-- What holds of all bytes is checked for each of them. -/
theorem forall_byte {P : UInt8 → Prop} (h : ∀ n : Fin 256, P (UInt8.ofNat n)) (b : UInt8) :
    P b := by
  have hb := h ⟨b.toNat, b.toNat_lt⟩
  rwa [UInt8.ofNat_toNat] at hb

/-- The bytes of a character that is not ASCII. -/
structure Sequence (lead : UInt8) (tail : List UInt8) : Prop where
  follows : ∀ d ∈ tail, d &&& 0xc0 = 0x80
  leads : (tail.length = 1 ∧ lead &&& 0xe0 = 0xc0) ∨ (tail.length = 2 ∧ lead &&& 0xf0 = 0xe0) ∨
    (tail.length = 3 ∧ lead &&& 0xf8 = 0xf0)

theorem continuation (m : Nat) : UInt8.ofNat (m % 64 + 128) &&& 0xc0 = 0x80 := by
  have h : ∀ n : Fin 64, UInt8.ofNat (n + 128) &&& 0xc0 = 0x80 := by decide
  exact h ⟨m % 64, Nat.mod_lt _ (by decide)⟩

theorem utf8EncodeChar_ascii {c : Char} (h : c.toNat < 128) :
    String.utf8EncodeChar c = [UInt8.ofNat c.toNat] := if_pos (Nat.le_of_lt_succ h)

theorem utf8EncodeChar_sequence {c : Char} (h : 128 ≤ c.toNat) :
    ∃ lead tail, String.utf8EncodeChar c = lead :: tail ∧ Sequence lead tail := by
  have hnot : ¬ c.val.toNat ≤ 0x7f := Nat.not_le_of_lt h
  have hcont := continuation
  rw [String.utf8EncodeChar]
  simp only [if_neg hnot]
  split
  case isTrue =>
    refine ⟨_, _, rfl, ?_, Or.inl ⟨rfl, ?_⟩⟩
    · intro d hd
      rw [List.mem_singleton.mp hd]
      exact hcont _
    · have hlead : ∀ n : Fin 32, UInt8.ofNat (n + 0xc0) &&& 0xe0 = 0xc0 := by decide
      exact hlead ⟨c.val.toNat / 64 % 32, Nat.mod_lt _ (by decide)⟩
  case isFalse =>
    split
    case isTrue =>
      refine ⟨_, _, rfl, ?_, Or.inr (Or.inl ⟨rfl, ?_⟩)⟩
      · intro d hd
        rcases List.mem_cons.mp hd with rfl | hd
        · exact hcont _
        · rw [List.mem_singleton.mp hd]
          exact hcont _
      · have hlead : ∀ n : Fin 16, UInt8.ofNat (n + 0xe0) &&& 0xf0 = 0xe0 := by decide
        exact hlead ⟨c.val.toNat / 4096 % 16, Nat.mod_lt _ (by decide)⟩
    case isFalse =>
      refine ⟨_, _, rfl, ?_, Or.inr (Or.inr ⟨rfl, ?_⟩)⟩
      · intro d hd
        rcases List.mem_cons.mp hd with rfl | hd
        · exact hcont _
        · rcases List.mem_cons.mp hd with rfl | hd
          · exact hcont _
          · rw [List.mem_singleton.mp hd]
            exact hcont _
      · have hlead : ∀ n : Fin 8, UInt8.ofNat (n + 0xf0) &&& 0xf8 = 0xf0 := by decide
        exact hlead ⟨c.val.toNat / 262144 % 8, Nat.mod_lt _ (by decide)⟩

/-- The masks tell the first bytes of the four lengths apart. -/
theorem lead_masks (lead : UInt8) :
    (lead &&& 0xe0 = 0xc0 → lead &&& 0x80 ≠ 0) ∧
    (lead &&& 0xf0 = 0xe0 → lead &&& 0x80 ≠ 0 ∧ lead &&& 0xe0 ≠ 0xc0) ∧
    (lead &&& 0xf8 = 0xf0 → lead &&& 0x80 ≠ 0 ∧ lead &&& 0xe0 ≠ 0xc0 ∧ lead &&& 0xf0 ≠ 0xe0) :=
  forall_byte (P := fun lead => (lead &&& 0xe0 = 0xc0 → lead &&& 0x80 ≠ 0) ∧
    (lead &&& 0xf0 = 0xe0 → lead &&& 0x80 ≠ 0 ∧ lead &&& 0xe0 ≠ 0xc0) ∧
    (lead &&& 0xf8 = 0xf0 → lead &&& 0x80 ≠ 0 ∧ lead &&& 0xe0 ≠ 0xc0 ∧ lead &&& 0xf0 ≠ 0xe0))
    (by decide +kernel) lead

/-- The bytes of a long character need no escape. -/
theorem plain_high (h : b &&& 0x80 ≠ 0) : ¬ b < 32 ∧ b ≠ 34 ∧ b ≠ 92 := by
  revert h
  exact forall_byte (P := fun b => b &&& 0x80 ≠ 0 → ¬ b < 32 ∧ b ≠ 34 ∧ b ≠ 92)
    (by decide +kernel) b

theorem high_of_continuation (h : b &&& 0xc0 = 0x80) : b &&& 0x80 ≠ 0 := by
  revert h
  exact forall_byte (P := fun b => b &&& 0xc0 = 0x80 → b &&& 0x80 ≠ 0) (by decide +kernel) b

theorem Sequence.high {lead : UInt8} {tail : List UInt8} (h : Sequence lead tail) :
    ∀ d ∈ lead :: tail, d &&& 0x80 ≠ 0 := by
  intro d hd
  rcases List.mem_cons.mp hd with rfl | hd
  · have hmasks := lead_masks d
    rcases h.leads with ⟨-, hlead⟩ | ⟨-, hlead⟩ | ⟨-, hlead⟩
    · exact hmasks.1 hlead
    · exact (hmasks.2.1 hlead).1
    · exact (hmasks.2.2 hlead).1
  · exact high_of_continuation (h.follows d hd)

/-- A control character in its escape. -/
theorem hex_control (n : Fin 32) :
    isHex (hexDigit (n / 16)) ∧ isHex (hexDigit (n % 16)) ∧
      16 * hexValue (hexDigit (n / 16)) + hexValue (hexDigit (n % 16)) = n := by
  revert n
  decide

/-- An ASCII character is written as it is, behind a backslash, or as a code unit. -/
theorem asciiJson_cases (b : UInt8) :
    (asciiJson b = [b] ∧ ¬ b < 32 ∧ b ≠ 34 ∧ b ≠ 92) ∨
    (∃ e ∈ simpleEscapes, asciiJson b = [92, e] ∧ escapeValue e = b) ∨
    (b < 32 ∧ asciiJson b =
      [92, 117, 48, 48, hexDigit (b.toNat / 16), hexDigit (b.toNat % 16)]) := by
  unfold asciiJson
  split
  case isTrue hspecial =>
    right
    unfold escape
    split_ifs with h₁ h₂ h₃ h₄ h₅ h₆ h₇ h₈
    · exact Or.inl ⟨92, by decide, rfl, h₁.symm⟩
    · exact Or.inl ⟨34, by decide, rfl, h₂.symm⟩
    · exact Or.inl ⟨98, by decide, rfl, h₃.symm⟩
    · exact Or.inl ⟨102, by decide, rfl, h₄.symm⟩
    · exact Or.inl ⟨110, by decide, rfl, h₅.symm⟩
    · exact Or.inl ⟨114, by decide, rfl, h₆.symm⟩
    · exact Or.inl ⟨116, by decide, rfl, h₇.symm⟩
    · exact Or.inl ⟨47, by decide, rfl, h₈.symm⟩
    · refine Or.inr ⟨?_, rfl⟩
      rcases hspecial with hlow | hquote | hslash | hback
      · exact hlow
      · exact absurd hquote h₂
      · exact absurd hslash h₈
      · exact absurd hback h₁
  case isFalse hspecial =>
    rw [not_or, not_or, not_or] at hspecial
    exact Or.inl ⟨rfl, hspecial.1, hspecial.2.1, hspecial.2.2.2⟩

theorem inside_asciiJson (b : UInt8) : Inside (asciiJson b) := by
  rcases asciiJson_cases b with ⟨heq, hplain⟩ | ⟨e, he, heq, -⟩ | ⟨hlow, heq⟩
  · rw [heq]
    refine Plain.inside fun d hd => ?_
    rw [List.mem_singleton.mp hd]
    exact hplain
  · rw [heq]
    exact inside_escape he
  · rw [heq]
    obtain ⟨h₃, h₄, -⟩ := hex_control ⟨_, UInt8.lt_iff_toNat_lt.mp hlow⟩
    exact inside_unicode rfl rfl h₃ h₄

/-- At most six bytes are written for a character, and no terminator. -/
theorem asciiJson_bounds (hzero : b ≠ 0) : 0 ∉ asciiJson b ∧ (asciiJson b).length ≤ 6 := by
  rcases asciiJson_cases b with ⟨heq, -⟩ | ⟨e, he, heq, -⟩ | ⟨hlow, heq⟩
  · rw [heq]
    exact ⟨fun hmem => hzero (List.mem_singleton.mp hmem).symm, by simp⟩
  · rw [heq]
    have hescapes : ∀ e ∈ simpleEscapes, (0 : UInt8) ∉ [92, e] := by simp [simpleEscapes]
    exact ⟨hescapes e he, by simp⟩
  · rw [heq]
    refine ⟨?_, by simp⟩
    obtain ⟨hfirst, hsecond, -⟩ := hex_control ⟨_, UInt8.lt_iff_toNat_lt.mp hlow⟩
    have hne : ∀ d, isHex d → (0 : UInt8) ≠ d := by
      rintro d hd rfl
      exact absurd hd (by decide)
    simp only [List.mem_cons, List.not_mem_nil, not_or]
    exact ⟨by decide, by decide, by decide, by decide, hne _ hfirst, hne _ hsecond, not_false⟩

end characters

/-! ## The text in the string -/

section text

variable {c : Char} {chars : List Char} {s : List UInt8}

theorem toNat_ofNat_ascii (hc : c.toNat < 128) : (UInt8.ofNat c.toNat).toNat = c.toNat := by
  rw [UInt8.toNat_ofNat']
  omega

theorem jsonChar_ascii (hc : c.toNat < 128) : jsonChar c = asciiJson (UInt8.ofNat c.toNat) :=
  if_pos hc

theorem jsonChar_long (hc : 128 ≤ c.toNat) : jsonChar c = String.utf8EncodeChar c :=
  if_neg (Nat.not_lt_of_le hc)

theorem inside_jsonChar (c : Char) : Inside (jsonChar c) := by
  by_cases hc : c.toNat < 128
  · rw [jsonChar_ascii hc]
    exact inside_asciiJson _
  · obtain ⟨lead, tail, heq, hseq⟩ := utf8EncodeChar_sequence (Nat.not_lt.mp hc)
    rw [jsonChar_long (Nat.not_lt.mp hc), heq]
    exact Plain.inside fun d hd => plain_high (hseq.high d hd)

theorem unescape_jsonChar (c : Char) (s : List UInt8) :
    unescape (jsonChar c ++ s) = (unescape s).map (String.utf8EncodeChar c ++ ·) := by
  by_cases hc : c.toNat < 128
  · rw [jsonChar_ascii hc, utf8EncodeChar_ascii hc]
    rcases asciiJson_cases (UInt8.ofNat c.toNat) with ⟨heq, -, -, hback⟩ | ⟨e, he, heq, hval⟩ |
      ⟨hlow, heq⟩
    · rw [heq]
      exact unescape_byte hback
    · rw [heq, ← hval]
      exact unescape_escape he
    · have hn : (UInt8.ofNat c.toNat).toNat < 32 := UInt8.lt_iff_toNat_lt.mp hlow
      obtain ⟨h₃, h₄, hvalue⟩ := hex_control ⟨_, hn⟩
      simp only [toNat_ofNat_ascii hc] at hn h₃ h₄ hvalue
      have hunit : 4096 * hexValue 48 + 256 * hexValue 48 +
          16 * hexValue (hexDigit (c.toNat / 16)) + hexValue (hexDigit (c.toNat % 16)) =
            c.toNat := by
        have hzero : hexValue 48 = 0 := rfl
        rw [hzero]
        omega
      have hhigh : isHigh c.toNat = false := by
        rw [isHigh, Bool.and_eq_false_iff]
        exact Or.inl (decide_eq_false (by omega))
      have hlow' : isLow c.toNat = false := by
        rw [isLow, Bool.and_eq_false_iff]
        exact Or.inl (decide_eq_false (by omega))
      rw [heq, toNat_ofNat_ascii hc]
      refine (unescape_unit (s := s) rfl rfl h₃ h₄ hunit hhigh hlow').trans ?_
      rw [Char.ofNat_toNat, utf8EncodeChar_ascii hc]
  · obtain ⟨lead, tail, heq, hseq⟩ := utf8EncodeChar_sequence (Nat.not_lt.mp hc)
    rw [jsonChar_long (Nat.not_lt.mp hc), heq]
    have hplain : ∀ t : List UInt8, (∀ d ∈ t, d &&& 0x80 ≠ 0) →
        unescape (t ++ s) = (unescape s).map (t ++ ·) := by
      intro t ht
      induction t with
      | nil =>
        simp only [List.nil_append]
        cases unescape s <;> rfl
      | cons d t ih =>
        rw [List.cons_append, unescape_byte (plain_high (ht d List.mem_cons_self)).2.2,
          ih fun e he => ht e (List.mem_cons_of_mem d he)]
        cases unescape s <;> rfl
    exact hplain _ hseq.high

theorem inside_json (chars : List Char) : Inside (json chars) := by
  induction chars with
  | nil => exact inside_nil
  | cons c chars ih => exact (inside_jsonChar c).append ih

/-- Undoing the escapes gives the text back. -/
theorem unescape_json (chars : List Char) : unescape (json chars) = some (utf8 chars) := by
  induction chars with
  | nil => rfl
  | cons c chars ih =>
    change unescape (jsonChar c ++ json chars) = some (String.utf8EncodeChar c ++ utf8 chars)
    rw [unescape_jsonChar, ih]
    rfl

/-- At most six bytes are written for each byte, and no terminator. -/
theorem jsonChar_bounds (hzero : c.toNat ≠ 0) :
    0 ∉ jsonChar c ∧ (jsonChar c).length ≤ 6 * (String.utf8EncodeChar c).length := by
  by_cases hc : c.toNat < 128
  · rw [jsonChar_ascii hc, utf8EncodeChar_ascii hc]
    refine asciiJson_bounds fun hnull => hzero ?_
    rw [← toNat_ofNat_ascii hc, hnull]
    rfl
  · obtain ⟨lead, tail, heq, hseq⟩ := utf8EncodeChar_sequence (Nat.not_lt.mp hc)
    rw [jsonChar_long (Nat.not_lt.mp hc), heq]
    exact ⟨fun hmem => hseq.high 0 hmem rfl, by omega⟩

theorem utf8_append (chars chars' : List Char) :
    utf8 (chars ++ chars') = utf8 chars ++ utf8 chars' := List.flatMap_append

theorem json_bounds (hzero : ∀ c ∈ chars, c.toNat ≠ 0) :
    0 ∉ json chars ∧ (json chars).length ≤ 6 * (utf8 chars).length := by
  induction chars with
  | nil => exact ⟨List.not_mem_nil, Nat.le_refl 0⟩
  | cons c chars ih =>
    obtain ⟨hfree, hlength⟩ := jsonChar_bounds (hzero c List.mem_cons_self)
    obtain ⟨hfree', hlength'⟩ := ih fun d hd => hzero d (List.mem_cons_of_mem c hd)
    change 0 ∉ jsonChar c ++ json chars ∧ (jsonChar c ++ json chars).length ≤
      6 * (String.utf8EncodeChar c ++ utf8 chars).length
    rw [List.mem_append, not_or, List.length_append, List.length_append]
    exact ⟨⟨hfree, hfree'⟩, by omega⟩

end text

/-! ## The loop -/

section loop

variable {n lout lin : Nat} {input : Buffer UInt8 n} {s : Progress lout} {c : Char}
  {done todo : List Char} {a b rest : List UInt8}

/-- The bytes that continue a character are found where they are. -/
theorem continues_ok (hcells : input.cells = a ++ (b ++ rest)) (hb : ∀ d ∈ b, d &&& 0xc0 = 0x80) :
    continues input a.length b.length = .ok true := by
  induction b generalizing a with
  | nil => rfl
  | cons d b ih =>
    have hread : input.read a.length = .ok d :=
      input.read_middle (hcells) (Nat.add_zero _) rfl
    have hnext := ih (a := a ++ [d]) (by rw [hcells]; simp)
      fun e he => hb e (List.mem_cons_of_mem d he)
    rw [List.length_append, List.length_singleton] at hnext
    rw [List.length_cons, continues, hread, bind_ok, if_pos (hb d List.mem_cons_self), hnext]

/-- What has been written so far is the JSON text of the characters read. -/
structure Converted (done : List Char) (s : Progress lout) : Prop where
  offin : s.offin = (utf8 done).length
  offout : s.offout = (json done).length
  out : ∃ rest, s.out.cells = json done ++ rest

theorem Converted.write (h : Converted done s) (hfree : s.offout + (jsonChar c).length ≤ lout) :
    ∃ out, s.out.write s.offout (jsonChar c) = .ok out ∧
      Converted (done ++ [c])
        ⟨s.offin + (String.utf8EncodeChar c).length, s.offout + (jsonChar c).length, out⟩ := by
  obtain ⟨rest, hcells⟩ := h.out
  obtain ⟨out, hwrite, hout⟩ := s.out.write_ok s.offout (jsonChar c) hfree
  refine ⟨out, hwrite, ?_, ?_, rest.drop (jsonChar c).length, ?_⟩
  · simp only [h.offin, utf8, List.flatMap_append, List.length_append, List.flatMap_singleton]
  · simp only [h.offout, json, List.flatMap_append, List.length_append, List.flatMap_singleton]
  · rw [hout, hcells, h.offout, splice, List.take_left, ← List.drop_drop, List.drop_left]
    simp only [json, List.flatMap_append, List.flatMap_singleton]

theorem startsCharacter_ok {c mask lead : UInt8} {k : Nat} (hlead : c &&& mask = lead)
    (hroom : k + 1 < lout - s.offout) (hmore : k + 1 < lin - s.offin)
    (hcontinues : continues input (s.offin + 1) (k - 1) = .ok true) :
    startsCharacter input lin s c mask lead k = .ok true := by
  rw [startsCharacter, if_pos ⟨hlead, hroom, hmore⟩, hcontinues]

theorem startsCharacter_other {c mask lead : UInt8} {k : Nat} (hlead : c &&& mask ≠ lead) :
    startsCharacter input lin s c mask lead k = .ok false := by
  rw [startsCharacter, if_neg fun h => hlead h.1]
  rfl

/-- One turn converts a character, of any length. -/
theorem convertByte_char (h : Converted done s) (hzero : c.toNat ≠ 0)
    (hcells : input.cells = utf8 done ++ (String.utf8EncodeChar c ++ rest))
    (hin : s.offin + (String.utf8EncodeChar c).length + 6 ≤ lin)
    (hout : s.offout + 6 * (String.utf8EncodeChar c).length + 6 ≤ lout) :
    ∃ d s', input.read s.offin = .ok d ∧ d ≠ 0 ∧ convertByte input lin s d = .ok s' ∧
      Converted (done ++ [c]) s' := by
  obtain ⟨hnozero, hlength⟩ := jsonChar_bounds hzero
  obtain ⟨out, hwrite, hconverted⟩ := h.write (c := c) (by omega)
  by_cases hc : c.toNat < 128
  · rw [utf8EncodeChar_ascii hc] at hcells hconverted
    rw [jsonChar_ascii hc] at hwrite hconverted
    have hread : input.read s.offin = .ok (UInt8.ofNat c.toNat) :=
      input.read_middle hcells (by rw [h.offin, Nat.add_zero]) rfl
    refine ⟨_, _, hread, ?_, ?_, hconverted⟩
    · intro heq
      have hval := congrArg UInt8.toNat heq
      rw [toNat_ofNat_ascii hc] at hval
      exact hzero hval
    · have hascii : UInt8.ofNat c.toNat &&& 0x80 = 0 := by
        have hall : ∀ m : Fin 128, UInt8.ofNat m &&& 0x80 = 0 := by decide
        exact hall ⟨c.toNat, hc⟩
      rw [convertByte, if_pos hascii, hwrite]
      rfl
  · obtain ⟨lead, tail, heq, hseq⟩ := utf8EncodeChar_sequence (Nat.not_lt.mp hc)
    rw [jsonChar_long (Nat.not_lt.mp hc)] at hwrite hconverted
    rw [heq] at hcells hwrite hconverted hin hout
    have hread : input.read s.offin = .ok lead :=
      input.read_middle hcells (by rw [h.offin, Nat.add_zero]) rfl
    have hhigh := hseq.high lead List.mem_cons_self
    have hslice : input.slice s.offin (lead :: tail).length = .ok (lead :: tail) :=
      input.slice_middle hcells h.offin.symm rfl
    have hfollow : continues input (s.offin + 1) tail.length = .ok true := by
      have hafter : input.cells = (utf8 done ++ [lead]) ++ (tail ++ rest) := by
        rw [hcells]
        simp
      have hcontinues := continues_ok hafter hseq.follows
      rwa [List.length_append, List.length_singleton, ← h.offin] at hcontinues
    have hcopy : copyCharacter input s (lead :: tail).length =
        .ok ⟨s.offin + (lead :: tail).length, s.offout + (lead :: tail).length, out⟩ := by
      rw [copyCharacter, hslice, bind_ok, hwrite]
      rfl
    have hmasks := lead_masks lead
    refine ⟨lead, _, hread, fun hnull => hhigh (by rw [hnull]; rfl), ?_, hconverted⟩
    rw [List.length_cons] at hcopy hin hout ⊢
    rw [convertByte, if_neg hhigh]
    rcases hseq.leads with ⟨htail, hlead⟩ | ⟨htail, hlead⟩ | ⟨htail, hlead⟩
    · rw [htail] at hfollow hcopy hin hout ⊢
      rw [startsCharacter_ok hlead (by omega) (by omega) hfollow, bind_ok, if_pos rfl, hcopy]
    · have hnot := (hmasks.2.1 hlead).2
      rw [htail] at hfollow hcopy hin hout ⊢
      rw [startsCharacter_other hnot, bind_ok, if_neg Bool.false_ne_true,
        startsCharacter_ok hlead (by omega) (by omega) hfollow, bind_ok, if_pos rfl, hcopy]
    · have hnot := (hmasks.2.2 hlead).2
      rw [htail] at hfollow hcopy hin hout ⊢
      rw [startsCharacter_other hnot.1, bind_ok, if_neg Bool.false_ne_true,
        startsCharacter_other hnot.2, bind_ok, if_neg Bool.false_ne_true,
        startsCharacter_ok hlead (by omega) (by omega) hfollow, bind_ok, if_pos rfl, hcopy]

/-- The characters still to be read are converted one in each turn. -/
theorem run_convertTurn {chars : List Char} (hinput : input.cells = utf8 chars ++ 0 :: rest)
    (hlin : (utf8 chars).length + 6 ≤ lin) (hlout : 6 * (utf8 chars).length + 6 ≤ lout)
    (hzero : ∀ c ∈ chars, c.toNat ≠ 0) (hsplit : chars = done ++ todo) (h : Converted done s) :
    ∃ s', run (convertTurn input lin) (todo.length + 1) s = .ok s' ∧ Converted chars s' := by
  induction todo generalizing done s with
  | nil =>
    rw [List.append_nil] at hsplit
    subst hsplit
    have hlength := (json_bounds hzero).2
    have hread : input.read s.offin = .ok 0 :=
      input.read_middle hinput (by rw [h.offin, Nat.add_zero]) rfl
    have hmore : s.offin < lin ∧ s.offout < lout := by
      rw [h.offin, h.offout]
      omega
    refine ⟨s, ?_, h⟩
    rw [List.length_nil, Nat.zero_add, run, convertTurn, if_pos hmore, hread]
    rfl
  | cons c todo ih =>
    have hdone : ∀ c ∈ done, c.toNat ≠ 0 := fun c hc => hzero c (by
      rw [hsplit]
      exact List.mem_append_left _ hc)
    have hlength := (json_bounds hdone).2
    have hutf8 : utf8 chars = utf8 done ++ (String.utf8EncodeChar c ++ utf8 todo) := by
      rw [hsplit, utf8_append]
      rfl
    have hsizes := congrArg List.length hutf8
    rw [List.length_append, List.length_append] at hsizes
    have hcells : input.cells =
        utf8 done ++ (String.utf8EncodeChar c ++ (utf8 todo ++ 0 :: rest)) := by
      rw [hinput, hutf8]
      simp only [List.append_assoc]
    have hoffin := h.offin
    have hoffout := h.offout
    have hmem : c ∈ chars := by
      rw [hsplit]
      simp
    have hroom : s.offin + (String.utf8EncodeChar c).length + 6 ≤ lin := by omega
    obtain ⟨d, s', hread, hd, hconvert, hconverted⟩ :=
      convertByte_char h (hzero c hmem) hcells hroom (by omega)
    have hturn : convertTurn input lin s = .ok (.again s') := by
      have hmore : s.offin < lin ∧ s.offout < lout := by omega
      rw [convertTurn, if_pos hmore, hread, bind_ok, if_neg hd, hconvert]
      rfl
    have hnext : chars = (done ++ [c]) ++ todo := by
      rw [hsplit]
      simp
    obtain ⟨last, hrun, hlast⟩ := ih hnext hconverted
    exact ⟨last, by rw [List.length_cons, run_again hturn, hrun], hlast⟩

end loop

/-- The bytes are those of a text in UTF-8. -/
def ValidUtf8 (s : List UInt8) : Prop := ∃ chars, s = utf8 chars

section call

variable {n lout lin : Nat} {input : Buffer UInt8 n} {s : List UInt8}

theorem length_le_utf8 (chars : List Char) : chars.length ≤ (utf8 chars).length := by
  induction chars with
  | nil => exact Nat.le_refl 0
  | cons c chars ih =>
    have hpos := List.length_pos_of_ne_nil (String.utf8EncodeChar_ne_nil (c := c))
    change chars.length + 1 ≤ (String.utf8EncodeChar c ++ utf8 chars).length
    rw [List.length_append]
    omega

theorem ne_zero_of_utf8 {chars : List Char} (h : 0 ∉ utf8 chars) : ∀ c ∈ chars, c.toNat ≠ 0 := by
  intro c hc hnull
  refine h (List.mem_flatMap.mpr ⟨c, hc, ?_⟩)
  rw [utf8EncodeChar_ascii (by omega), hnull]
  exact List.mem_singleton_self _

/-- A text in UTF-8 is put in a JSON string, from which it can be read back. With one turn for each
byte, and one more, the loop has ended. -/
theorem mumuStringToJson_roundTrip (hvalid : ValidUtf8 s) (hin : cstring input.cells = .ok s)
    (hlin : s.length + 6 ≤ lin) (hlout : 6 * s.length + 6 ≤ lout) (out : Buffer UInt8 lout)
    (more : Nat) :
    ∃ out' raw, mumuStringToJson input lin (s.length + 1 + more) out = .ok out' ∧
      cstring out'.cells = .ok raw ∧ Inside raw ∧ unescape raw = some s := by
  obtain ⟨chars, rfl⟩ := hvalid
  obtain ⟨hnozero, rest, hcells⟩ := cstring_eq_ok.mp hin
  have hzero := ne_zero_of_utf8 hnozero
  obtain ⟨hfree, hlength⟩ := json_bounds hzero
  rw [mumuStringToJson]
  cases hbytes : utf8 chars with
  | nil =>
    rw [hbytes] at hcells
    obtain ⟨out', hwrite, hout⟩ := out.write_ok 0 [0] (by simp; omega)
    refine ⟨out', [], ?_, ?_, inside_nil, rfl⟩
    · rw [input.read_ok (a := 0) (by rw [hcells]; rfl), bind_ok, if_pos rfl, hwrite]
    · rw [hout]
      rfl
  | cons d bytes =>
    have hd : d ≠ 0 := fun hnull => hnozero (by rw [hbytes, hnull]; exact List.mem_cons_self)
    have hstart : Converted [] (⟨0, 0, out⟩ : Progress lout) := ⟨rfl, rfl, out.cells, rfl⟩
    obtain ⟨s', hrun, hconverted⟩ := run_convertTurn hcells hlin hlout hzero rfl hstart
    have hmore : chars.length + 1 ≤ (utf8 chars).length + 1 + more := by
      have hle := length_le_utf8 chars
      omega
    obtain ⟨extra, hextra⟩ := Nat.le.dest hmore
    have hroom : s'.offout < lout := by
      rw [hconverted.offout]
      omega
    obtain ⟨outRest, hcells'⟩ := hconverted.out
    obtain ⟨out', hwrite, hout⟩ := s'.out.write_ok s'.offout [0]
      (by rw [List.length_singleton]; omega)
    refine ⟨out', json chars, ?_, ?_, inside_json chars, ?_⟩
    · rw [input.read_ok (a := d) (by rw [hcells, hbytes]; rfl), bind_ok, if_neg hd, ← hbytes,
        ← hextra, run_mono (by rw [hrun]; exact fun heq => by cases heq), hrun, bind_ok,
        if_pos hroom, hwrite]
    · rw [hout, hconverted.offout, hcells', splice, List.take_left, List.append_assoc]
      exact cstring_append hfree _
    · rw [unescape_json, hbytes]

end call

/-! A text with a quote and with a character of two bytes. -/

def quoted : Buffer UInt8 5 := ⟨[97, 34, 195, 169, 0], rfl⟩

theorem mumuStringToJson_roundTrip_quoted : ∃ out raw,
    mumuStringToJson quoted 10 5 (Buffer.fill 30 0) = .ok out ∧ cstring out.cells = .ok raw ∧
      Inside raw ∧ unescape raw = some [97, 34, 195, 169] :=
  mumuStringToJson_roundTrip ⟨[97, 34, 233].map Char.ofNat, rfl⟩ rfl (by decide) (by decide) _ 0

example : (mumuStringToJson quoted 10 5 (Buffer.fill 7 1)).map (·.cells) =
    .ok [97, 92, 34, 195, 169, 0, 1] := by decide +kernel

end MuMuDVB.JsonEscape
