import MuMuDVB.JsonText

/-!
# Formats and lists of JSON

The text between the values of a document is made of blanks, punctuation and
strings without escapes: its tokens are read off its characters, without going
through the scanner. A list is often written with a comma before each of its
items but the first.
-/
namespace JsonFormats

open CString JsonText

/-- A token of a format. -/
inductive Mark where
  | one (t : Token)
  | quoted (chars : List Char)

def Mark.token : Mark → Token
  | .one t => t
  | .quoted chars => .string (bytes (String.ofList chars))

def blankCode (n : Nat) : Bool := Nat.beq n 32 || Nat.beq n 9 || Nat.beq n 10 || Nat.beq n 13

def oneCode (n : Nat) : Token → Bool
  | .openArray => Nat.beq n 91
  | .closeArray => Nat.beq n 93
  | .openObject => Nat.beq n 123
  | .closeObject => Nat.beq n 125
  | .colon => Nat.beq n 58
  | .comma => Nat.beq n 44
  | _ => false

def plainCode (n : Nat) : Bool :=
  Nat.ble 32 n && !Nat.beq n 34 && !Nat.beq n 92 && Nat.ble n 255

/-- The characters are those of the tokens, where a string may be open of which some characters
are still to come. -/
def spells : List Char → Option (List Char) → List Mark → Bool
  | [], none, marks => marks.isEmpty
  | [], some _, _ => false
  | c :: cs, none, marks =>
    if blankCode c.toNat then spells cs none marks
    else
      match marks with
      | .one t :: marks => oneCode c.toNat t && spells cs none marks
      | .quoted chars :: marks => Nat.beq c.toNat 34 && spells cs (some chars) marks
      | [] => false
  | c :: cs, some [], marks => Nat.beq c.toNat 34 && spells cs none marks
  | c :: cs, some (d :: ds), marks =>
    plainCode c.toNat && Nat.beq c.toNat d.toNat && spells cs (some ds) marks

section formats

variable {c : Char} {cs chars : List Char} {marks : List Mark} {t : Token}

/-- The bytes of characters. -/
def charBytes (cs : List Char) : List UInt8 := cs.map fun c => UInt8.ofNat c.toNat

theorem bytes_ofList (cs : List Char) : bytes (String.ofList cs) = charBytes cs := by
  rw [bytes, String.toList_ofList, charBytes]

theorem step_blank (h : blankCode c.toNat = true) :
    step .between (UInt8.ofNat c.toNat) = some ([], .between) := by
  simp only [blankCode, Bool.or_eq_true, Nat.beq_eq] at h
  rcases h with ((h | h) | h) | h <;> rw [h] <;> rfl

theorem step_one (h : oneCode c.toNat t = true) :
    step .between (UInt8.ofNat c.toNat) = some ([t], .between) := by
  cases t with
  | openArray => rw [Nat.eq_of_beq_eq_true h]; rfl
  | closeArray => rw [Nat.eq_of_beq_eq_true h]; rfl
  | openObject => rw [Nat.eq_of_beq_eq_true h]; rfl
  | closeObject => rw [Nat.eq_of_beq_eq_true h]; rfl
  | colon => rw [Nat.eq_of_beq_eq_true h]; rfl
  | comma => rw [Nat.eq_of_beq_eq_true h]; rfl
  | _ => cases h

theorem step_plain (h : plainCode c.toNat = true) (raw : List UInt8) :
    step (.string raw) (UInt8.ofNat c.toNat) =
      some ([], .string (raw ++ [UInt8.ofNat c.toNat])) := by
  simp only [plainCode, Bool.and_eq_true, Bool.not_eq_true', Nat.ble_eq] at h
  obtain ⟨⟨⟨hlow, hquote⟩, hescape⟩, hhigh⟩ := h
  have hbyte : (UInt8.ofNat c.toNat).toNat = c.toNat := UInt8.toNat_ofNat_of_lt' (by
    show c.toNat < 256
    omega)
  have hne : ∀ n < 256, Nat.beq c.toNat n = false → UInt8.ofNat c.toNat ≠ UInt8.ofNat n := by
    intro n hn hbeq heq
    have htoNat := congrArg UInt8.toNat heq
    rw [hbyte, UInt8.toNat_ofNat_of_lt' hn] at htoNat
    rw [htoNat] at hbeq
    simp at hbeq
  have hnoQuote : UInt8.ofNat c.toNat ≠ 34 := hne 34 (by decide) hquote
  have hnoEscape : UInt8.ofNat c.toNat ≠ 92 := hne 92 (by decide) hescape
  have hnoControl : ¬ UInt8.ofNat c.toNat < 32 := by
    rw [UInt8.lt_iff_toNat_lt, hbyte]
    exact Nat.not_lt.mpr hlow
  rw [step, if_neg hnoQuote, if_neg hnoEscape, if_neg hnoControl]

/-- The scanner finds the tokens, in a string that is open or between the tokens. -/
theorem scan_spells : (spells cs none marks = true →
      scan .between (charBytes cs) = some (marks.map Mark.token, .between)) ∧
    ∀ rest before, spells cs (some rest) marks = true →
      scan (.string before) (charBytes cs) =
        some (.string (before ++ charBytes rest) :: marks.map Mark.token, .between) := by
  induction cs generalizing marks with
  | nil =>
    refine ⟨fun h => ?_, fun rest before h => ?_⟩
    · cases marks with
      | nil => rfl
      | cons mark marks => cases h
    · cases rest <;> cases h
  | cons c cs ih =>
    have hcons : charBytes (c :: cs) = UInt8.ofNat c.toNat :: charBytes cs := rfl
    rw [hcons]
    refine ⟨fun h => ?_, fun rest before h => ?_⟩
    · rw [spells.eq_def] at h
      dsimp only at h
      by_cases hblank : blankCode c.toNat = true
      · rw [if_pos hblank] at h
        rw [scan_cons (step_blank hblank)]
        exact ih.1 h
      · rw [if_neg hblank] at h
        cases marks with
        | nil => cases h
        | cons mark marks =>
          cases mark with
          | one t =>
            obtain ⟨hone, hrest⟩ := (Bool.and_eq_true _ _).mp h
            rw [scan, step_one hone]
            dsimp only
            rw [ih.1 hrest]
            rfl
          | quoted chars =>
            obtain ⟨hquote, hrest⟩ := (Bool.and_eq_true _ _).mp h
            have hopen : step .between (UInt8.ofNat c.toNat) = some ([], .string []) := by
              rw [Nat.eq_of_beq_eq_true hquote]
              rfl
            rw [scan_cons hopen, ih.2 chars [] hrest, List.map_cons, Mark.token, bytes_ofList]
            rfl
    · cases rest with
      | nil =>
        obtain ⟨hquote, hrest⟩ := (Bool.and_eq_true _ _).mp h
        have hbyte : UInt8.ofNat c.toNat = 34 := by
          rw [Nat.eq_of_beq_eq_true hquote]
          rfl
        rw [hbyte, scan_quote (ih.1 hrest)]
        simp [charBytes]
      | cons d ds =>
        obtain ⟨hboth, hrest⟩ := (Bool.and_eq_true _ _).mp h
        obtain ⟨hplain, hsame⟩ := (Bool.and_eq_true _ _).mp hboth
        rw [scan_cons (step_plain hplain before), ih.2 ds _ hrest, List.append_assoc]
        rw [Nat.eq_of_beq_eq_true hsame]
        rfl

theorem delimits_blank (h : blankCode c.toNat = true) : delimits (UInt8.ofNat c.toNat) = true := by
  simp only [blankCode, Bool.or_eq_true, Nat.beq_eq] at h
  rcases h with ((h | h) | h) | h <;> rw [h] <;> rfl

theorem delimits_one (h : oneCode c.toNat t = true) : delimits (UInt8.ofNat c.toNat) = true := by
  cases t with
  | openArray => rw [Nat.eq_of_beq_eq_true h]; rfl
  | closeArray => rw [Nat.eq_of_beq_eq_true h]; rfl
  | openObject => rw [Nat.eq_of_beq_eq_true h]; rfl
  | closeObject => rw [Nat.eq_of_beq_eq_true h]; rfl
  | colon => rw [Nat.eq_of_beq_eq_true h]; rfl
  | comma => rw [Nat.eq_of_beq_eq_true h]; rfl
  | _ => cases h

/-- A format has the tokens, and what stands before it ends there. -/
def Format (f : String) (ts : List Token) : Prop :=
  scan .between (bytes f) = some (ts, .between) ∧ ∃ c b, bytes f = c :: b ∧ delimits c = true

/-- The tokens of a format are looked up from its characters. -/
theorem format (marks : List Mark) (c : Char) (cs : List Char)
    (h : spells (c :: cs) none marks = true) :
    Format (String.ofList (c :: cs)) (marks.map Mark.token) := by
  refine ⟨by rw [bytes_ofList]; exact scan_spells.1 h, _, _, bytes_ofList _, ?_⟩
  show delimits (UInt8.ofNat c.toNat) = true
  rw [spells.eq_def] at h
  dsimp only at h
  by_cases hblank : blankCode c.toNat = true
  · exact delimits_blank hblank
  · rw [if_neg hblank] at h
    cases marks with
    | nil => cases h
    | cons mark marks =>
      cases mark with
      | one t => exact delimits_one ((Bool.and_eq_true _ _).mp h).1
      | quoted chars =>
        rw [Nat.eq_of_beq_eq_true ((Bool.and_eq_true _ _).mp h).1]
        rfl

/-- A format in two pieces. -/
theorem scan_joined (marks : List Mark) (cs ds : List Char)
    (h : spells (cs ++ ds) none marks = true) :
    scan .between (bytes (String.ofList cs) ++ bytes (String.ofList ds)) =
      some (marks.map Mark.token, .between) := by
  rw [bytes_ofList, bytes_ofList, charBytes, charBytes, ← List.map_append]
  exact scan_spells.1 h

/-- A format that ends in the name of a member. -/
theorem format_key (c : Char) (cs key : List Char)
    (h : spells (c :: cs) none [.quoted key, .one .colon] = true) :
    Format (String.ofList (c :: cs)) [.string (bytes (String.ofList key)), .colon] :=
  format _ c cs h

/-- And that of a member behind another one. -/
theorem format_next (c : Char) (cs key : List Char)
    (h : spells (c :: cs) none [.one .comma, .quoted key, .one .colon] = true) :
    Format (String.ofList (c :: cs)) [.comma, .string (bytes (String.ofList key)), .colon] :=
  format _ c cs h

end formats

/-! ## Lists with a comma before each item -/

section lists

variable {ts us : List Token} {v : Json} {vs : List Json}

def leading (first : Bool) : List Token := if first then [] else [.comma]

/-- Nothing, or the items, with a comma before the first unless it is that of the list. -/
def Listed (first : Bool) (ts : List Token) (vs : List Json) : Prop :=
  (ts = [] ∧ vs = []) ∨ ∃ us, ts = leading first ++ us ∧ MeansItems us vs ∧
    ∃ t us', us = t :: us' ∧ t ≠ .closeArray

theorem listed_nil (first : Bool) : Listed first [] [] := Or.inl ⟨rfl, rfl⟩

theorem Listed.cons (hv : Means ts v) (h : Listed false us vs) (first : Bool) :
    Listed first (leading first ++ (ts ++ us)) (v :: vs) := by
  obtain ⟨t, ts', rfl, ht⟩ := hv.head
  rcases h with ⟨rfl, rfl⟩ | ⟨us, rfl, hitems, -⟩
  · exact Or.inr ⟨t :: ts', by rw [List.append_nil], hv.single_item, t, ts', rfl, ht⟩
  · exact Or.inr ⟨_, rfl, hv.cons_item hitems, t, _, rfl, ht⟩

theorem means_array_nil : Means [.openArray, .closeArray] (.array []) := by
  intro fuel rest hfuel
  cases fuel with
  | zero => cases hfuel
  | succ fuel => rfl

theorem Listed.array (h : Listed true ts vs) :
    Means (.openArray :: (ts ++ [.closeArray])) (.array vs) := by
  rcases h with ⟨rfl, rfl⟩ | ⟨us, rfl, hitems, hhead⟩
  · exact means_array_nil
  · exact hitems.array hhead

end lists

end JsonFormats
