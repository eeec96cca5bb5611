import Mathlib.Algebra.Group.Int.Defs
import Mathlib.Algebra.Group.Nat.Defs
import Mathlib.Data.List.DropRight
import MuMuDVB.CheckedMemory

/-!
# C strings

The functions of the C library on zero-terminated strings. A string is the
list of its bytes before the terminator; `cstring` reads it out of a block of
memory and faults when the block holds no zero.
-/
namespace CString

open CheckedMemory

/-- The bytes of an ASCII literal. -/
def bytes (s : String) : List UInt8 := s.toList.map fun c => UInt8.ofNat c.toNat

/-- The string that begins at the start of a block. -/
def cstring : List UInt8 → Checked (List UInt8)
  | [] => .error .outOfBounds
  | c :: cells =>
    if c = 0 then .ok []
    else do
      let s ← cstring cells
      return c :: s

/-- `strstr`: where the first occurrence begins. -/
def strstr (needle : List UInt8) : List UInt8 → Option Nat
  | [] => if needle = [] then some 0 else none
  | c :: s => if needle <+: c :: s then some 0 else (strstr needle s).map (· + 1)

/-- `strchr`: where the character comes first. -/
def strchr (c : UInt8) (s : List UInt8) : Option Nat := s.findIdx? (· == c)

/-- The bytes that `strncpy` writes, of a string that begins at the start of a block. -/
def strncpy : Nat → List UInt8 → Checked (List UInt8)
  | 0, _ => .ok []
  | _ + 1, [] => .error .outOfBounds
  | n + 1, c :: cells =>
    if c = 0 then .ok (List.replicate (n + 1) 0)
    else do
      let s ← strncpy n cells
      return c :: s

/-- `isspace` in the C locale. -/
def isSpace (c : UInt8) : Bool := c == 32 || (9 ≤ c && c ≤ 13)

/-- The first token of `strtok(s, delim)`. -/
def strtok (delim : UInt8) (s : List UInt8) : Option (List UInt8) :=
  match s.dropWhile (· == delim) with
  | [] => none
  | c :: rest => some ((c :: rest).takeWhile (· != delim))

/-- Where `strtok` writes the end of the first token, when it is not the end of the string. -/
def strtokEnd (delim : UInt8) (s : List UInt8) : Option Nat :=
  match s.dropWhile (· == delim) with
  | [] => none
  | c :: rest =>
    let e := (s.takeWhile (· == delim)).length + ((c :: rest).takeWhile (· != delim)).length
    if e < s.length then some e else none

def isDigit (c : UInt8) : Bool := 48 ≤ c && c ≤ 57

/-- The number that a string of digits begins with. -/
def digits (value : Nat) : List UInt8 → Nat
  | [] => value
  | c :: s => if isDigit c then digits (10 * value + (c.toNat - 48)) s else value

/-- `strtol(s, NULL, 10)`, with a `long` of 64 bits. -/
def strtol (s : List UInt8) : Int :=
  let value : Int := match s.dropWhile isSpace with
    | [] => 0
    | c :: rest =>
      if c = 45 then -(digits 0 rest : Int)
      else if c = 43 then digits 0 rest
      else digits 0 (c :: rest)
  max (-2 ^ 63) (min value (2 ^ 63 - 1))

/-- A number cut to an `int`. -/
def int (i : Int) : Int := i.bmod (2 ^ 32)

/-- `atoi`: the `long` is cut to an `int`. -/
def atoi (s : List UInt8) : Int := (strtol s).bmod (2 ^ 32)

def toLower (c : UInt8) : UInt8 := if 65 ≤ c && c ≤ 90 then c + 32 else c

/-- `strcasecmp(s, t) == 0`. -/
def sameIgnoringCase (s t : List UInt8) : Bool := s.map toLower == t.map toLower

example : atoi (bytes " -12x") = -12 := by decide

/-- A string is read up to its terminator, whatever follows. -/
theorem cstring_append {s : List UInt8} (h : 0 ∉ s) (rest : List UInt8) :
    cstring (s ++ 0 :: rest) = .ok s := by
  induction s with
  | nil => rfl
  | cons c s ih =>
    rw [List.mem_cons, not_or] at h
    rw [List.cons_append, cstring, if_neg (Ne.symm h.1), ih h.2]
    rfl

/-- So is what stands before the first zero of a text that may hold some. -/
theorem cstring_takeWhile (s rest : List UInt8) :
    cstring (s ++ 0 :: rest) = .ok (s.takeWhile fun c => c ≠ 0) := by
  induction s with
  | nil => rfl
  | cons c s ih =>
    rw [List.cons_append, cstring, List.takeWhile_cons]
    by_cases hc : c = 0
    · rw [if_pos hc, if_neg (by simpa using hc)]
    · rw [if_neg hc, ih, if_pos (by simpa using hc)]
      rfl

theorem cstring_of_mem {cells : List UInt8} (h : 0 ∈ cells) : ∃ s, cstring cells = .ok s := by
  induction cells with
  | nil => cases h
  | cons c cells ih =>
    rw [cstring]
    by_cases hc : c = 0
    · exact ⟨[], if_pos hc⟩
    · obtain ⟨s, hs⟩ := ih ((List.mem_cons.mp h).resolve_left (Ne.symm hc))
      rw [if_neg hc, hs]
      exact ⟨c :: s, rfl⟩

/-- A block holds a string exactly when it begins with it and its terminator. -/
theorem cstring_eq_ok {cells s : List UInt8} :
    cstring cells = .ok s ↔ 0 ∉ s ∧ ∃ rest, cells = s ++ 0 :: rest := by
  constructor
  · intro h
    induction cells generalizing s with
    | nil => cases h
    | cons c cells ih =>
      rw [cstring] at h
      split at h
      case isTrue hc =>
        cases h
        exact ⟨List.not_mem_nil, cells, by rw [hc, List.nil_append]⟩
      case isFalse hc =>
        obtain ⟨s, hs, h⟩ := bind_eq_ok.mp h
        cases h
        obtain ⟨hzero, rest, rfl⟩ := ih hs
        exact ⟨List.not_mem_cons_of_ne_of_not_mem (Ne.symm hc) hzero, rest, rfl⟩
  · rintro ⟨hzero, rest, rfl⟩
    exact cstring_append hzero rest

theorem int_of_fits {i : Int} (hlow : -2 ^ 31 ≤ i) (hhigh : i < 2 ^ 31) : int i = i :=
  Int.bmod_eq_of_le (by omega) (by omega)

/-- What is longer than the block is cut, without a terminator. -/
theorem strncpy_append {s : List UInt8} (h : 0 ∉ s) (n : Nat) (rest : List UInt8) :
    strncpy n (s ++ 0 :: rest) = .ok (s.take n ++ List.replicate (n - s.length) 0) := by
  induction s generalizing n with
  | nil =>
    cases n with
    | zero => rfl
    | succ n => rfl
  | cons c s ih =>
    rw [List.mem_cons, not_or] at h
    cases n with
    | zero => simp [strncpy]
    | succ n =>
      rw [List.cons_append, strncpy, if_neg (Ne.symm h.1), ih h.2, List.length_cons,
        Nat.add_sub_add_right]
      rfl

/-- The copy is a string exactly when its terminator was copied too. -/
theorem cstring_strncpy {s : List UInt8} (h : 0 ∉ s) {n : Nat} {rest copied : List UInt8}
    (hcopied : strncpy n (s ++ 0 :: rest) = .ok copied) {t : List UInt8} :
    cstring copied = .ok t ↔ s.length < n ∧ t = s := by
  rw [strncpy_append h] at hcopied
  cases hcopied
  rcases Nat.lt_or_ge s.length n with hlt | hge
  · obtain ⟨k, hk⟩ : ∃ k, n - s.length = k + 1 := ⟨n - s.length - 1, by omega⟩
    rw [List.take_of_length_le (by omega), hk, List.replicate_succ, cstring_append h]
    constructor
    · intro ht
      exact ⟨hlt, (Except.ok.inj ht).symm⟩
    · rintro ⟨-, rfl⟩
      rfl
  · rw [Nat.sub_eq_zero_of_le hge, List.replicate_zero, List.append_nil, cstring_eq_ok]
    constructor
    · rintro ⟨-, rest, hcells⟩
      have hzero : (0 : UInt8) ∈ s.take n := by
        rw [hcells]
        exact List.mem_append_right _ List.mem_cons_self
      exact absurd (List.mem_of_mem_take hzero) h
    · rintro ⟨hlt, -⟩
      omega

variable {needle s : List UInt8}

/-- Nothing is found exactly when the needle is not inside. -/
theorem strstr_eq_none : strstr needle s = none ↔ ¬ needle <:+: s := by
  induction s with
  | nil => simp [strstr]
  | cons c s ih =>
    rw [strstr, List.infix_cons_iff, not_or, ← ih]
    by_cases h : needle <+: c :: s <;> simp [h]

theorem strstr_isSome : (strstr needle s).isSome = true ↔ needle <:+: s := by
  rw [Option.isSome_iff_ne_none, ne_eq, strstr_eq_none, not_not]

theorem strchr_eq_none {c : UInt8} : strchr c s = none ↔ c ∉ s := by
  rw [strchr, List.findIdx?_eq_none_iff]
  constructor
  · intro h hc
    exact absurd (h c hc) (by simp)
  · intro h d hd
    exact beq_false_of_ne fun heq => h (heq ▸ hd)

theorem strchr_append {c : UInt8} (h : c ∉ s) (t : List UInt8) :
    strchr c (s ++ c :: t) = some s.length := by
  rw [strchr, List.findIdx?_append]
  have hnone := strchr_eq_none.mpr h
  rw [strchr] at hnone
  rw [hnone, List.findIdx?_cons]
  simp

theorem strchr_lt {c : UInt8} {pos : Nat} (h : strchr c s = some pos) : pos < s.length := by
  rw [strchr] at h
  exact (List.findIdx?_eq_some_iff_getElem.mp h).1

end CString
