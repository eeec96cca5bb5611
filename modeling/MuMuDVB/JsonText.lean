import MuMuDVB.CString

/-!
# JSON texts

A text is cut into tokens from left to right, and the tokens are read as a
value. Strings and numbers are kept as they are written. What a text means is
computed by `parse`; the rules below say what the texts put together from
smaller ones mean, without going through them again.
-/
namespace JsonText

open CString

inductive Json where
  | null
  | bool (b : Bool)
  | number (literal : List UInt8)
  | string (raw : List UInt8)
  | array (items : List Json)
  | object (members : List (List UInt8 × Json))

def Json.items : Json → List Json
  | .array vs => vs
  | _ => []

def Json.member (key : List UInt8) : Json → Option Json
  | .object ms => (ms.find? (·.1 == key)).map (·.2)
  | _ => none

inductive Token where
  | string (raw : List UInt8)
  | number (literal : List UInt8)
  | true | false | null
  | openArray | closeArray | openObject | closeObject | colon | comma
  deriving DecidableEq

section lexer

def isBlank (c : UInt8) : Bool := c == 32 || c == 9 || c == 10 || c == 13

def punctuation (c : UInt8) : Option Token :=
  if c = 91 then some .openArray
  else if c = 93 then some .closeArray
  else if c = 123 then some .openObject
  else if c = 125 then some .closeObject
  else if c = 58 then some .colon
  else if c = 44 then some .comma
  else none

def validExponent : List UInt8 → Bool
  | [] => true
  | e :: w =>
    (e == 69 || e == 101) &&
      match w with
      | [] => false
      | c :: ds =>
        if c == 43 || c == 45 then !ds.isEmpty && ds.all isDigit else (c :: ds).all isDigit

def validFraction (w : List UInt8) : Bool :=
  match w with
  | [] => true
  | c :: ds =>
    if c = 46 then
      match ds with
      | [] => false
      | d :: ds => isDigit d && validExponent (ds.dropWhile isDigit)
    else validExponent (c :: ds)

/-- The digits before the point: no zero before another digit. -/
def validUnsigned : List UInt8 → Bool
  | [] => false
  | c :: ds =>
    if c = 48 then validFraction ds else isDigit c && validFraction (ds.dropWhile isDigit)

def validNumber : List UInt8 → Bool
  | [] => false
  | c :: w => if c = 45 then validUnsigned w else validUnsigned (c :: w)

def wordToken (w : List UInt8) : Option Token :=
  if w = bytes "true" then some .true
  else if w = bytes "false" then some .false
  else if w = bytes "null" then some .null
  else if validNumber w then some (.number w)
  else none

/-- What the text before a byte is in the middle of. -/
inductive Mode where
  | between
  | word (chars : List UInt8)
  | string (raw : List UInt8)
  | escape (raw : List UInt8)
  | hex (raw : List UInt8) (left : Nat)
  deriving DecidableEq

/-- A byte that is not inside of a token. -/
def start (c : UInt8) : List Token × Mode :=
  if isBlank c then ([], .between)
  else
    match punctuation c with
    | some t => ([t], .between)
    | none => if c = 34 then ([], .string []) else ([], .word [c])

def delimits (c : UInt8) : Bool := isBlank c || (punctuation c).isSome || c == 34

/-- `"\/bfnrt` -/
def simpleEscapes : List UInt8 := [34, 92, 47, 98, 102, 110, 114, 116]

def isHex (c : UInt8) : Bool := isDigit c || (65 ≤ c && c ≤ 70) || (97 ≤ c && c ≤ 102)

def step (m : Mode) (c : UInt8) : Option (List Token × Mode) :=
  match m with
  | .between => some (start c)
  | .word w =>
    if delimits c then (wordToken w).map fun t => (t :: (start c).1, (start c).2)
    else some ([], .word (w ++ [c]))
  | .string raw =>
    if c = 34 then some ([.string raw], .between)
    else if c = 92 then some ([], .escape (raw ++ [c]))
    else if c < 32 then none
    else some ([], .string (raw ++ [c]))
  | .escape raw =>
    if c ∈ simpleEscapes then some ([], .string (raw ++ [c]))
    else if c = 117 then some ([], .hex (raw ++ [c]) 4)
    else none
  | .hex raw left =>
    if isHex c then
      some ([], if left ≤ 1 then .string (raw ++ [c]) else .hex (raw ++ [c]) (left - 1))
    else none

/-- The tokens that end in a text, and what is open at its end. -/
def scan (m : Mode) : List UInt8 → Option (List Token × Mode)
  | [] => some ([], m)
  | c :: cs =>
    match step m c with
    | none => none
    | some (ts, m) =>
      match scan m cs with
      | none => none
      | some (us, m) => some (ts ++ us, m)

def finish : Mode → Option (List Token)
  | .between => some []
  | .word w => (wordToken w).map fun t => [t]
  | _ => none

def lex (text : List UInt8) : Option (List Token) :=
  match scan .between text with
  | none => none
  | some (ts, m) => (finish m).map (ts ++ ·)

variable {m m' m'' : Mode} {a b raw w : List UInt8} {c : UInt8} {ts us : List Token} {t : Token}

theorem scan_append (ha : scan m a = some (ts, m')) (hb : scan m' b = some (us, m'')) :
    scan m (a ++ b) = some (ts ++ us, m'') := by
  induction a generalizing m ts with
  | nil =>
    cases ha
    exact hb
  | cons c cs ih =>
    rw [scan] at ha
    rw [List.cons_append, scan]
    cases hstep : step m c with
    | none =>
      rw [hstep] at ha
      cases ha
    | some r =>
      obtain ⟨ts₁, m₁⟩ := r
      rw [hstep] at ha
      dsimp only at ha ⊢
      cases hcs : scan m₁ cs with
      | none =>
        rw [hcs] at ha
        cases ha
      | some r =>
        obtain ⟨ts₂, m₂⟩ := r
        rw [hcs] at ha
        cases ha
        rw [ih hcs, List.append_assoc]

theorem lex_of_scan (h : scan .between a = some (ts, .between)) : lex a = some ts := by
  rw [lex, h]
  exact congrArg some (List.append_nil ts)

/-- Bytes that stand for themselves in a string. -/
def Plain (text : List UInt8) : Prop := ∀ c ∈ text, ¬c < 32 ∧ c ≠ 34 ∧ c ≠ 92

def isPlain (c : UInt8) : Bool :=
  Nat.ble 32 c.toNat && !Nat.beq c.toNat 34 && !Nat.beq c.toNat 92

theorem plain_of_isPlain (h : isPlain c) : ¬c < 32 ∧ c ≠ 34 ∧ c ≠ 92 := by
  rw [isPlain, Bool.and_eq_true, Bool.and_eq_true, Bool.not_eq_true', Bool.not_eq_true'] at h
  obtain ⟨⟨hlow, hquote⟩, hescape⟩ := h
  refine ⟨fun hlt => ?_, ?_, ?_⟩
  · exact absurd (Nat.le_of_ble_eq_true hlow) (Nat.not_le_of_lt hlt)
  · rintro rfl
    cases hquote
  · rintro rfl
    cases hescape

/-- A literal is looked at as the list of its characters. -/
theorem plain_bytes (l : List Char) (h : (l.map fun c => UInt8.ofNat c.toNat).all isPlain) :
    Plain (bytes (String.ofList l)) := by
  rw [bytes, String.toList_ofList]
  exact fun c hc => plain_of_isPlain (List.all_eq_true.mp h c hc)

theorem plain_append (ha : Plain a) (hb : Plain b) : Plain (a ++ b) := by
  intro c hc
  rcases List.mem_append.mp hc with hc | hc
  · exact ha c hc
  · exact hb c hc

theorem scan_plain (h : Plain a) : scan (.string raw) a = some ([], .string (raw ++ a)) := by
  induction a generalizing raw with
  | nil => rw [scan, List.append_nil]
  | cons c cs ih =>
    obtain ⟨hlow, hquote, hescape⟩ := h c List.mem_cons_self
    have hstep : step (.string raw) c = some ([], .string (raw ++ [c])) := by
      rw [step, if_neg hquote, if_neg hescape, if_neg hlow]
    rw [scan, hstep]
    dsimp only
    rw [ih fun d hd => h d (List.mem_cons_of_mem c hd), List.append_assoc]
    rfl

/-- The text is inside of a string from its start to its end: its quotes and backslashes belong to
escapes, and it has no control characters. -/
def Inside (text : List UInt8) : Prop :=
  ∀ raw, scan (.string raw) text = some ([], .string (raw ++ text))

theorem Plain.inside (h : Plain a) : Inside a := fun _ => scan_plain h

theorem inside_nil : Inside [] := fun raw => by rw [scan, List.append_nil]

theorem Inside.append (ha : Inside a) (hb : Inside b) : Inside (a ++ b) := by
  intro raw
  have h := scan_append (ha raw) (hb (raw ++ a))
  rwa [List.append_assoc] at h

/-- A byte that ends no token. -/
theorem scan_cons (h : step m c = some ([], m')) : scan m (c :: a) = scan m' a := by
  rw [scan, h]
  dsimp only
  cases scan m' a <;> rfl

theorem inside_escape (h : c ∈ simpleEscapes) : Inside [92, c] := by
  intro raw
  have hopen : step (.string raw) 92 = some ([], .escape (raw ++ [92])) := by
    rw [step, if_neg (by decide), if_pos rfl]
  have hclose : step (.escape (raw ++ [92])) c = some ([], .string (raw ++ [92] ++ [c])) := by
    rw [step, if_pos h]
  rw [scan_cons hopen, scan_cons hclose, scan, List.append_assoc]
  rfl

theorem inside_unicode {d₁ d₂ d₃ d₄ : UInt8} (h₁ : isHex d₁) (h₂ : isHex d₂) (h₃ : isHex d₃)
    (h₄ : isHex d₄) : Inside [92, 117, d₁, d₂, d₃, d₄] := by
  intro raw
  have hopen : step (.string raw) 92 = some ([], .escape (raw ++ [92])) := by
    rw [step, if_neg (by decide), if_pos rfl]
  have hu : step (.escape (raw ++ [92])) 117 = some ([], .hex (raw ++ [92] ++ [117]) 4) := by
    rw [step, if_neg (by decide), if_pos rfl]
  have hhex : ∀ {raw : List UInt8} {d : UInt8} {left : Nat}, isHex d →
      step (.hex raw (left + 2)) d = some ([], .hex (raw ++ [d]) (left + 1)) := by
    intro raw d left hd
    rw [step, if_pos hd, if_neg (by omega)]
    rfl
  have hlast : ∀ {raw : List UInt8} {d : UInt8}, isHex d →
      step (.hex raw 1) d = some ([], .string (raw ++ [d])) := by
    intro raw d hd
    rw [step, if_pos hd, if_pos (Nat.le_refl 1)]
  rw [scan_cons hopen, scan_cons hu, scan_cons (hhex h₁), scan_cons (hhex h₂), scan_cons (hhex h₃),
    scan_cons (hlast h₄), scan]
  simp only [List.append_assoc, List.cons_append, List.nil_append]

/-- The end of a string. -/
theorem scan_quote (h : scan .between a = some (ts, m)) :
    scan (.string raw) (34 :: a) = some (.string raw :: ts, m) := by
  have hstep : step (.string raw) 34 = some ([.string raw], .between) := by
    rw [step, if_pos rfl]
  rw [scan, hstep]
  dsimp only
  rw [h]
  rfl

/-- A whole string. -/
theorem scan_string (hplain : Plain raw) (h : scan .between a = some (ts, m)) :
    scan (.string []) (raw ++ 34 :: a) = some (.string raw :: ts, m) := by
  have hraw : scan (.string []) raw = some ([], .string raw) := scan_plain hplain
  exact scan_append hraw (scan_quote h)

/-- The end of a word. -/
theorem scan_delimiter (hw : wordToken w = some t) (hc : delimits c)
    (h : scan .between (c :: a) = some (ts, m)) :
    scan (.word w) (c :: a) = some (t :: ts, m) := by
  have hstep : step (.word w) c = some (t :: (start c).1, (start c).2) := by
    rw [step, if_pos hc, hw]
    rfl
  have hbetween : step .between c = some (start c) := rfl
  rw [scan, hbetween] at h
  rw [scan, hstep]
  dsimp only at h ⊢
  cases hscan : scan (start c).2 a with
  | none =>
    rw [hscan] at h
    cases h
  | some r =>
    rw [hscan] at h
    cases h
    rfl

theorem scan_chars (h : ∀ c ∈ a, delimits c = false) :
    scan (.word w) a = some ([], .word (w ++ a)) := by
  induction a generalizing w with
  | nil => rw [scan, List.append_nil]
  | cons c cs ih =>
    have hstep : step (.word w) c = some ([], .word (w ++ [c])) := by
      rw [step, if_neg (by rw [h c List.mem_cons_self]; exact Bool.false_ne_true)]
    rw [scan, hstep]
    dsimp only
    rw [ih fun d hd => h d (List.mem_cons_of_mem c hd), List.append_assoc]
    rfl

/-- A word that begins after a token. -/
theorem scan_word (h : ∀ d ∈ c :: a, delimits d = false) :
    scan .between (c :: a) = some ([], .word (c :: a)) := by
  have hc := h c List.mem_cons_self
  rw [delimits, Bool.or_eq_false_iff, Bool.or_eq_false_iff] at hc
  obtain ⟨⟨hblank, hpunctuation⟩, hquote⟩ := hc
  have hstart : start c = ([], .word [c]) := by
    rw [start, hblank, Option.isSome_eq_false_iff.mp hpunctuation |> Option.isNone_iff_eq_none.mp,
      if_neg Bool.false_ne_true, if_neg (beq_eq_false_iff_ne.mp hquote)]
  have hstep : step .between c = some ([], .word [c]) := congrArg some hstart
  rw [scan, hstep]
  dsimp only
  rw [scan_chars fun d hd => h d (List.mem_cons_of_mem c hd)]
  rfl

/-- The digits of a number. -/
theorem delimits_digit (h : isDigit c) : delimits c = false := by
  have hall : ∀ n < 256, isDigit (UInt8.ofNat n) → delimits (UInt8.ofNat n) = false := by
    decide +kernel
  have hc := hall c.toNat c.toNat_lt
  rw [UInt8.ofNat_toNat] at hc
  exact hc h

/-- The number as `%d` prints it. -/
def integer (n : Int) : List UInt8 :=
  if n < 0 then 45 :: bytes (Nat.repr n.natAbs) else bytes (Nat.repr n.natAbs)

theorem isDigit_ofNat {c : Char} (h : c.isDigit) : isDigit (UInt8.ofNat c.toNat) := by
  have hall : ∀ n < 128, (Char.ofNat n).isDigit → isDigit (UInt8.ofNat n) := by decide +kernel
  have hlt : c.toNat < 128 := by
    rw [Char.isDigit, Bool.and_eq_true, decide_eq_true_iff, decide_eq_true_iff] at h
    have hle : c.toNat ≤ 57 := h.2
    omega
  have hc := hall c.toNat hlt
  rw [Char.ofNat_toNat] at hc
  exact hc h

theorem digits_repr (n : Nat) : ∀ c ∈ bytes (Nat.repr n), isDigit c := by
  intro c hc
  rw [bytes, Nat.toList_repr] at hc
  obtain ⟨d, hd, rfl⟩ := List.mem_map.mp hc
  exact isDigit_ofNat (Nat.isDigit_of_mem_toDigits (by decide) (by decide) hd)

theorem toDigits_head {n : Nat} (hn : n ≠ 0) : ∃ d ds, Nat.toDigits 10 n = d :: ds ∧ d ≠ '0' := by
  induction n using Nat.strong_induction_on with
  | _ n ih =>
    rw [Nat.toDigits_eq_if (by decide)]
    by_cases hlt : n < 10
    · have hall : ∀ n < 10, n ≠ 0 → n.digitChar ≠ '0' := by decide
      rw [if_pos hlt]
      exact ⟨_, [], rfl, hall n hlt hn⟩
    · rw [if_neg hlt]
      obtain ⟨d, ds, hdigits, hd⟩ := ih (n / 10) (by omega) (by omega)
      rw [hdigits]
      exact ⟨d, _, rfl, hd⟩

/-- A zero does not stand before another digit. -/
theorem repr_head (n : Nat) : ∃ c ds, bytes (Nat.repr n) = c :: ds ∧ (c = 48 → ds = []) := by
  by_cases hn : n = 0
  · subst hn
    exact ⟨48, [], rfl, fun _ => rfl⟩
  · obtain ⟨d, ds, hdigits, hd⟩ := toDigits_head hn
    have hmem : d.isDigit := Nat.isDigit_of_mem_toDigits (n := n) (b := 10) (by decide)
      (by decide) (by rw [hdigits]; exact List.mem_cons_self)
    refine ⟨UInt8.ofNat d.toNat, _, by rw [bytes, Nat.toList_repr, hdigits]; rfl, fun h => ?_⟩
    have hall : ∀ n < 128, (Char.ofNat n).isDigit → UInt8.ofNat n = 48 → Char.ofNat n = '0' := by
      decide +kernel
    have hlt : d.toNat < 128 := by
      rw [Char.isDigit, Bool.and_eq_true, decide_eq_true_iff, decide_eq_true_iff] at hmem
      have hle : d.toNat ≤ 57 := hmem.2
      omega
    have hzero := hall d.toNat hlt
    rw [Char.ofNat_toNat] at hzero
    exact absurd (hzero hmem h) hd

theorem validUnsigned_repr (n : Nat) : validUnsigned (bytes (Nat.repr n)) := by
  have hdigits := digits_repr n
  obtain ⟨c, ds, hrepr, hzero⟩ := repr_head n
  rw [hrepr] at hdigits ⊢
  rw [validUnsigned]
  split
  case isTrue hc =>
    rw [hzero hc]
    rfl
  case isFalse =>
    have hrest : ds.dropWhile isDigit = [] :=
      List.dropWhile_eq_nil_iff.mpr fun d hd => hdigits d (List.mem_cons_of_mem c hd)
    rw [hdigits c List.mem_cons_self, hrest]
    rfl

theorem validNumber_integer (n : Int) : validNumber (integer n) := by
  rw [integer]
  split
  · exact validUnsigned_repr n.natAbs
  · have hdigits := digits_repr n.natAbs
    have hvalid := validUnsigned_repr n.natAbs
    obtain ⟨c, ds, hrepr, -⟩ := repr_head n.natAbs
    rw [hrepr] at hdigits hvalid ⊢
    rw [validNumber, if_neg]
    · exact hvalid
    · rintro rfl
      exact absurd (hdigits 45 List.mem_cons_self) (by decide)

theorem wordToken_number (h : validNumber w) : wordToken w = some (.number w) := by
  rw [wordToken, if_neg, if_neg, if_neg, if_pos h]
  all_goals
    rintro rfl
    exact absurd h (by decide)

theorem wordToken_integer (n : Int) : wordToken (integer n) = some (.number (integer n)) :=
  wordToken_number (validNumber_integer n)

/-- A number after a token. -/
theorem scan_integer (n : Int) : scan .between (integer n) = some ([], .word (integer n)) := by
  have hchars : ∀ c ∈ integer n, delimits c = false := by
    intro c hc
    rw [integer] at hc
    split at hc
    · rcases List.mem_cons.mp hc with rfl | hc
      · decide
      · exact delimits_digit (digits_repr _ c hc)
    · exact delimits_digit (digits_repr _ c hc)
  cases hw : integer n with
  | nil =>
    have hvalid := validNumber_integer n
    rw [hw] at hvalid
    cases hvalid
  | cons c cs =>
    rw [hw] at hchars
    exact scan_word hchars

/-- A whole number, with what ends it. -/
theorem scan_integer_delimiter (n : Int) (hc : delimits c)
    (h : scan .between (c :: a) = some (ts, m)) :
    scan .between (integer n ++ c :: a) = some (.number (integer n) :: ts, m) :=
  scan_append (scan_integer n) (scan_delimiter (wordToken_integer n) hc h)

end lexer

section parser

mutual

/-- A value at the start of the tokens, and what is left of them. -/
def parseValue : Nat → List Token → Option (Json × List Token)
  | 0, _ => none
  | fuel + 1, ts =>
    match ts with
    | .string raw :: ts => some (.string raw, ts)
    | .number literal :: ts => some (.number literal, ts)
    | .true :: ts => some (.bool .true, ts)
    | .false :: ts => some (.bool .false, ts)
    | .null :: ts => some (.null, ts)
    | .openArray :: .closeArray :: ts => some (.array [], ts)
    | .openArray :: ts => (parseItems fuel ts).map fun r => (.array r.1, r.2)
    | .openObject :: .closeObject :: ts => some (.object [], ts)
    | .openObject :: ts => (parseMembers fuel ts).map fun r => (.object r.1, r.2)
    | _ => none

def parseItems : Nat → List Token → Option (List Json × List Token)
  | 0, _ => none
  | fuel + 1, ts =>
    match parseValue fuel ts with
    | some (v, .comma :: ts) => (parseItems fuel ts).map fun r => (v :: r.1, r.2)
    | some (v, .closeArray :: ts) => some ([v], ts)
    | _ => none

def parseMembers : Nat → List Token → Option (List (List UInt8 × Json) × List Token)
  | 0, _ => none
  | fuel + 1, ts =>
    match ts with
    | .string key :: .colon :: ts =>
      match parseValue fuel ts with
      | some (v, .comma :: ts) => (parseMembers fuel ts).map fun r => ((key, v) :: r.1, r.2)
      | some (v, .closeObject :: ts) => some ([(key, v)], ts)
      | _ => none
    | _ => none

end

/-- The value of a text that is one JSON text as a whole. -/
def parse (text : List UInt8) : Option Json :=
  match lex text with
  | none => none
  | some ts =>
    match parseValue ts.length ts with
    | some (v, []) => some v
    | _ => none

/-- The tokens are those of the value, whatever follows. -/
def Means (ts : List Token) (v : Json) : Prop :=
  ∀ fuel rest, ts.length ≤ fuel → parseValue fuel (ts ++ rest) = some (v, rest)

def MeansItems (ts : List Token) (vs : List Json) : Prop :=
  ∀ fuel rest, ts.length < fuel → parseItems fuel (ts ++ .closeArray :: rest) = some (vs, rest)

def MeansMembers (ts : List Token) (ms : List (List UInt8 × Json)) : Prop :=
  ∀ fuel rest, ts.length < fuel →
    parseMembers fuel (ts ++ .closeObject :: rest) = some (ms, rest)

variable {ts us : List Token} {v : Json} {vs : List Json} {ms : List (List UInt8 × Json)}
  {text : List UInt8}

theorem means_string (raw : List UInt8) : Means [.string raw] (.string raw) := by
  intro fuel rest hfuel
  cases fuel with
  | zero => cases hfuel
  | succ fuel => rfl

theorem means_number (literal : List UInt8) : Means [.number literal] (.number literal) := by
  intro fuel rest hfuel
  cases fuel with
  | zero => cases hfuel
  | succ fuel => rfl

theorem means_object_nil : Means [.openObject, .closeObject] (.object []) := by
  intro fuel rest hfuel
  cases fuel with
  | zero => cases hfuel
  | succ fuel => rfl

/-- The tokens of a value do not begin with a closing bracket. -/
theorem Means.head (h : Means ts v) : ∃ t ts', ts = t :: ts' ∧ t ≠ .closeArray := by
  cases ts with
  | nil =>
    have hzero := h 0 [] (Nat.le_refl 0)
    cases hzero
  | cons t ts' =>
    refine ⟨t, ts', rfl, ?_⟩
    rintro rfl
    have hparse := h (ts'.length + 1) [] (Nat.le_refl _)
    cases hparse

theorem Means.single_item (h : Means ts v) : MeansItems ts [v] := by
  intro fuel rest hfuel
  cases fuel with
  | zero => cases hfuel
  | succ fuel =>
    rw [parseItems, h fuel _ (Nat.le_of_lt_succ hfuel)]

theorem Means.cons_item (h : Means ts v) (hs : MeansItems us vs) :
    MeansItems (ts ++ .comma :: us) (v :: vs) := by
  intro fuel rest hfuel
  rw [List.length_append, List.length_cons] at hfuel
  cases fuel with
  | zero => cases hfuel
  | succ fuel =>
    rw [List.append_assoc, List.cons_append, parseItems, h fuel _ (by omega)]
    dsimp only
    rw [hs fuel rest (by omega)]
    rfl

theorem Means.single_member (h : Means ts v) (key : List UInt8) :
    MeansMembers (.string key :: .colon :: ts) [(key, v)] := by
  intro fuel rest hfuel
  rw [List.length_cons, List.length_cons] at hfuel
  cases fuel with
  | zero => cases hfuel
  | succ fuel =>
    rw [List.cons_append, List.cons_append, parseMembers, h fuel _ (by omega)]

theorem Means.cons_member (h : Means ts v) (key : List UInt8) (hs : MeansMembers us ms) :
    MeansMembers (.string key :: .colon :: (ts ++ .comma :: us)) ((key, v) :: ms) := by
  intro fuel rest hfuel
  rw [List.length_cons, List.length_cons, List.length_append, List.length_cons] at hfuel
  cases fuel with
  | zero => cases hfuel
  | succ fuel =>
    rw [List.cons_append, List.cons_append, List.append_assoc, List.cons_append, parseMembers,
      h fuel _ (by omega)]
    dsimp only
    rw [hs fuel rest (by omega)]
    rfl

/-- An array of at least one item. -/
theorem MeansItems.array (h : MeansItems ts vs)
    (hhead : ∃ t ts', ts = t :: ts' ∧ t ≠ .closeArray) :
    Means (.openArray :: (ts ++ [.closeArray])) (.array vs) := by
  intro fuel rest hfuel
  rw [List.length_cons, List.length_append, List.length_singleton] at hfuel
  cases fuel with
  | zero => cases hfuel
  | succ fuel =>
    have hitems := h fuel rest (by omega)
    have hvalue : parseValue (fuel + 1) (.openArray :: (ts ++ .closeArray :: rest)) =
        (parseItems fuel (ts ++ .closeArray :: rest)).map fun r => (.array r.1, r.2) := by
      obtain ⟨t, ts', rfl, ht⟩ := hhead
      cases t
      case closeArray => exact absurd rfl ht
      all_goals rfl
    rw [List.cons_append, List.append_assoc, List.singleton_append, hvalue, hitems]
    rfl

theorem MeansMembers.object (h : MeansMembers ts ms)
    (hhead : ∃ key ts', ts = .string key :: ts') :
    Means (.openObject :: (ts ++ [.closeObject])) (.object ms) := by
  intro fuel rest hfuel
  rw [List.length_cons, List.length_append, List.length_singleton] at hfuel
  cases fuel with
  | zero => cases hfuel
  | succ fuel =>
    have hmembers := h fuel rest (by omega)
    have hvalue : parseValue (fuel + 1) (.openObject :: (ts ++ .closeObject :: rest)) =
        (parseMembers fuel (ts ++ .closeObject :: rest)).map fun r => (.object r.1, r.2) := by
      obtain ⟨key, ts', rfl⟩ := hhead
      rfl
    rw [List.cons_append, List.append_assoc, List.singleton_append, hvalue, hmembers]
    rfl

theorem parse_of_lex (hlex : lex text = some ts) (hmeans : Means ts v) : parse text = some v := by
  have hparse := hmeans ts.length [] (Nat.le_refl _)
  rw [List.append_nil] at hparse
  rw [parse, hlex]
  dsimp only
  rw [hparse]

end parser

section texts

variable {a b k t u sep o cl key raw : List UInt8} {ts us : List Token} {v : Json} {vs : List Json}
  {ms : List (List UInt8 × Json)}

/-- The tokens of a text that is followed by a delimiter. -/
def Reads (text : List UInt8) (ts : List Token) : Prop :=
  ∀ c a us m, delimits c → scan .between (c :: a) = some (us, m) →
    scan .between (text ++ c :: a) = some (ts ++ us, m)

/-- A text that begins with a delimiter and is one token. -/
def Punctuates (text : List UInt8) (t : Token) : Prop :=
  scan .between text = some ([t], .between) ∧ ∃ c a, text = c :: a ∧ delimits c

def TextOf (text : List UInt8) (v : Json) : Prop := ∃ ts, Reads text ts ∧ Means ts v

def TextOfItems (text : List UInt8) (vs : List Json) : Prop :=
  ∃ ts, Reads text ts ∧ MeansItems ts vs ∧ ∃ t ts', ts = t :: ts' ∧ t ≠ .closeArray

def TextOfMembers (text : List UInt8) (ms : List (List UInt8 × Json)) : Prop :=
  ∃ ts, Reads text ts ∧ MeansMembers ts ms ∧ ∃ key ts', ts = .string key :: ts'

/-- The text before a value in an object. -/
def IsKey (text key : List UInt8) : Prop :=
  scan .between text = some ([.string key, .colon], .between)

theorem Reads.after (hb : Reads b us) (ha : scan .between a = some (ts, .between)) :
    Reads (a ++ b) (ts ++ us) := by
  intro c rest vs m hc h
  rw [List.append_assoc, List.append_assoc]
  exact scan_append ha (hb c rest vs m hc h)

theorem reads_nil : Reads [] [] := fun _ _ _ _ _ h => h

theorem reads_of_scan (h : scan .between a = some (ts, .between)) : Reads a ts := by
  have hreads := reads_nil.after h
  rwa [List.append_nil, List.append_nil] at hreads

/-- A text that ends before a delimiter. -/
theorem Reads.append (ha : Reads a ts) (hb : Reads b us)
    (hdelim : ∃ c b', b = c :: b' ∧ delimits c) : Reads (a ++ b) (ts ++ us) := by
  obtain ⟨c, b', rfl, hc⟩ := hdelim
  intro d rest vs m hd h
  rw [List.append_assoc, List.append_assoc]
  exact ha c _ _ m hc (hb d rest vs m hd h)

theorem Punctuates.reads {t : Token} (h : Punctuates a t) : Reads a [t] := reads_of_scan h.1

theorem delimited_append (h : ∃ c a', a = c :: a' ∧ delimits c) (b : List UInt8) :
    ∃ c a', a ++ b = c :: a' ∧ delimits c := by
  obtain ⟨c, a', rfl, hc⟩ := h
  exact ⟨c, a' ++ b, rfl, hc⟩

theorem textOf_integer (n : Int) : TextOf (integer n) (.number (integer n)) :=
  ⟨_, fun _ _ _ _ hc h => scan_integer_delimiter n hc h, means_number _⟩

theorem textOf_string (hraw : Plain raw) : TextOf (34 :: (raw ++ [34])) (.string raw) := by
  refine ⟨_, reads_of_scan ?_, means_string raw⟩
  have hopen : scan .between [34] = some ([], .string []) := rfl
  have hend : scan .between [] = some ([], .between) := rfl
  exact scan_append hopen (scan_string hraw hend)

theorem textOf_of_scan (hscan : scan .between t = some (ts, .between)) (hmeans : Means ts v) :
    TextOf t v := ⟨ts, reads_of_scan hscan, hmeans⟩

theorem TextOf.after (hv : TextOf t v) (ha : scan .between a = some ([], .between)) :
    TextOf (a ++ t) v := by
  obtain ⟨ts, hreads, hmeans⟩ := hv
  exact ⟨ts, hreads.after ha, hmeans⟩

theorem TextOf.item (hv : TextOf t v) : TextOfItems t [v] := by
  obtain ⟨ts, hreads, hmeans⟩ := hv
  exact ⟨ts, hreads, hmeans.single_item, hmeans.head⟩

theorem TextOfItems.cons (hv : TextOf t v) (hsep : Punctuates sep .comma)
    (hu : TextOfItems u vs) : TextOfItems (t ++ (sep ++ u)) (v :: vs) := by
  obtain ⟨ts, hreads, hmeans⟩ := hv
  obtain ⟨us, hreads', hmeans', -⟩ := hu
  refine ⟨ts ++ .comma :: us, ?_, hmeans.cons_item hmeans', ?_⟩
  · exact hreads.append (hreads'.after hsep.1) (delimited_append hsep.2 u)
  · obtain ⟨t, ts', rfl, ht⟩ := hmeans.head
    exact ⟨t, _, rfl, ht⟩

/-- Items that have the same text behind each of them. -/
theorem TextOfItems.of_followed {texts : List (List UInt8)} (hsep : Punctuates sep .comma)
    (h : List.Forall₂ TextOf texts vs) (hne : texts ≠ []) :
    ∃ u, (texts.map (· ++ sep)).flatten = u ++ sep ∧ TextOfItems u vs := by
  induction h with
  | nil => exact absurd rfl hne
  | @cons t v texts vs hv hrest ih =>
    rw [List.map_cons, List.flatten_cons]
    cases hrest with
    | nil => exact ⟨t, by rw [List.map_nil, List.flatten_nil, List.append_nil], hv.item⟩
    | cons hv' hrest' =>
      obtain ⟨u, hu, hitems⟩ := ih (List.cons_ne_nil _ _)
      exact ⟨t ++ (sep ++ u), by rw [hu]; simp, TextOfItems.cons hv hsep hitems⟩

theorem TextOfItems.array (hu : TextOfItems u vs)
    (ho : scan .between o = some ([.openArray], .between))
    (hcl : Punctuates cl .closeArray) : TextOf (o ++ (u ++ cl)) (.array vs) := by
  obtain ⟨ts, hreads, hmeans, hhead⟩ := hu
  exact ⟨_, (hreads.append hcl.reads hcl.2).after ho, hmeans.array hhead⟩

theorem TextOf.member (hv : TextOf t v) (hk : IsKey k key) : TextOfMembers (k ++ t) [(key, v)] := by
  obtain ⟨ts, hreads, hmeans⟩ := hv
  exact ⟨_, hreads.after hk, hmeans.single_member key, key, _, rfl⟩

theorem TextOfMembers.cons (hk : IsKey k key) (hv : TextOf t v) (hsep : Punctuates sep .comma)
    (hu : TextOfMembers u ms) : TextOfMembers (k ++ (t ++ (sep ++ u))) ((key, v) :: ms) := by
  obtain ⟨ts, hreads, hmeans⟩ := hv
  obtain ⟨us, hreads', hmeans', -⟩ := hu
  refine ⟨_, ?_, hmeans.cons_member key hmeans', key, _, rfl⟩
  exact (hreads.append (hreads'.after hsep.1) (delimited_append hsep.2 u)).after hk

theorem TextOfMembers.object (hu : TextOfMembers u ms)
    (ho : scan .between o = some ([.openObject], .between)) (hcl : Punctuates cl .closeObject) :
    TextOf (o ++ (u ++ cl)) (.object ms) := by
  obtain ⟨ts, hreads, hmeans, hhead⟩ := hu
  exact ⟨_, (hreads.append hcl.reads hcl.2).after ho, hmeans.object hhead⟩

/-- A value with blanks behind it. -/
theorem TextOf.parse (hv : TextOf t v) (hb : scan .between b = some ([], .between))
    (hdelim : ∃ c b', b = c :: b' ∧ delimits c) : parse (t ++ b) = some v := by
  obtain ⟨ts, hreads, hmeans⟩ := hv
  obtain ⟨c, b', rfl, hc⟩ := hdelim
  have hscan := hreads c b' [] .between hc hb
  rw [List.append_nil] at hscan
  exact parse_of_lex (lex_of_scan hscan) hmeans

theorem isKey_string (hplain : Plain key) (ha : scan .between a = some ([], .between))
    (hb : scan .between b = some ([.colon], .between)) :
    IsKey (a ++ 34 :: (key ++ 34 :: b)) key := by
  have hopen : step .between 34 = some ([], .string []) := rfl
  refine scan_append ha ?_
  rw [scan, hopen]
  dsimp only
  rw [scan_string hplain hb]
  rfl

end texts

/-! ## What a string stands for -/

/-- A byte that stands for itself, or a code unit that is written as an escape. -/
inductive Piece where
  | byte (c : UInt8)
  | unit (u : Nat)

/-- What a character behind a backslash stands for. -/
def escapeValue (e : UInt8) : UInt8 :=
  if e = 98 then 8 else if e = 102 then 12 else if e = 110 then 10 else if e = 114 then 13
  else if e = 116 then 9 else e

def hexValue (c : UInt8) : Nat :=
  if c ≤ 57 then c.toNat - 48 else if c ≤ 70 then c.toNat - 55 else c.toNat - 87

/-- The code unit of four digits. -/
def unitValue (d₁ d₂ d₃ d₄ : UInt8) : Nat :=
  4096 * hexValue d₁ + 256 * hexValue d₂ + 16 * hexValue d₃ + hexValue d₄

def pieces : List UInt8 → Option (List Piece)
  | [] => some []
  | c :: s =>
    if c = 92 then
      match s with
      | [] => none
      | e :: s =>
        if e = 117 then
          match s with
          | d₁ :: d₂ :: d₃ :: d₄ :: s =>
            if isHex d₁ && isHex d₂ && isHex d₃ && isHex d₄ then
              (pieces s).map (.unit (unitValue d₁ d₂ d₃ d₄) :: ·)
            else none
          | _ => none
        else if e ∈ simpleEscapes then (pieces s).map (.byte (escapeValue e) :: ·)
        else none
    else (pieces s).map (.byte c :: ·)

def isHigh (u : Nat) : Bool := 0xd800 ≤ u && u < 0xdc00

def isLow (u : Nat) : Bool := 0xdc00 ≤ u && u < 0xe000

/-- The character of a pair of code units. -/
def pairChar (u v : Nat) : Char := Char.ofNat (0x10000 + 0x400 * (u - 0xd800) + (v - 0xdc00))

/-- Code units are written in UTF-8, the two of a pair together. -/
def assemble : List Piece → Option (List UInt8)
  | [] => some []
  | .byte c :: ps => (assemble ps).map (c :: ·)
  | .unit u :: ps =>
    if isHigh u then
      match ps with
      | .unit v :: ps =>
        if isLow v then (assemble ps).map (String.utf8EncodeChar (pairChar u v) ++ ·) else none
      | _ => none
    else if isLow u then none
    else (assemble ps).map (String.utf8EncodeChar (Char.ofNat u) ++ ·)

/-- The bytes that a string without its quotes stands for. -/
def unescape (raw : List UInt8) : Option (List UInt8) := (pieces raw).bind assemble

example : unescape [92, 117, 100, 56, 51, 100, 92, 117, 100, 101, 48, 48] =
    some [240, 159, 152, 128] := by decide +kernel

section unescape

variable {s : List UInt8} {c e : UInt8}

theorem unescape_byte (h : c ≠ 92) : unescape (c :: s) = (unescape s).map (c :: ·) := by
  rw [unescape, unescape, pieces.eq_def]
  simp only [if_neg h]
  cases pieces s <;> rfl

theorem unescape_escape (h : e ∈ simpleEscapes) :
    unescape (92 :: e :: s) = (unescape s).map (escapeValue e :: ·) := by
  have hu : e ≠ 117 := fun heq => by
    rw [heq] at h
    revert h
    decide
  rw [unescape, unescape, pieces.eq_def]
  simp only [if_true, if_neg hu, if_pos h]
  cases pieces s <;> rfl

theorem unescape_unit {d₁ d₂ d₃ d₄ : UInt8} {u : Nat} (h₁ : isHex d₁) (h₂ : isHex d₂)
    (h₃ : isHex d₃) (h₄ : isHex d₄)
    (hu : unitValue d₁ d₂ d₃ d₄ = u) (hhigh : isHigh u = false) (hlow : isLow u = false) :
    unescape (92 :: 117 :: d₁ :: d₂ :: d₃ :: d₄ :: s) =
      (unescape s).map (String.utf8EncodeChar (Char.ofNat u) ++ ·) := by
  rw [unescape, unescape, pieces.eq_def]
  simp only [h₁, h₂, h₃, h₄, hu, Bool.and_self, if_true]
  cases pieces s with
  | none => rfl
  | some ps =>
    rw [Option.map_some, Option.bind_some, assemble.eq_def]
    simp only [hhigh, hlow, Bool.false_eq_true, if_false]
    rfl

end unescape

end JsonText
