import MuMuDVB.CString

/-!
# string_comput, string_mult

A number of the configuration may be given as a sum of products. The string is
cut at its first `+`, and each term at its first `*`; the last term and the last
factor are read on their own. The numbers are read by `atoi` and `int`s wrap.
The piece before an operator is copied to a block of its own, and the system
decides whether it has one: `string_comput` gives up without it, `string_mult`
writes through NULL.
-/
namespace MuMuDVB.StringComput

open CheckedMemory CString

/-- Whether `malloc` has a block of so many bytes. -/
abbrev Allocator := Nat → Bool

/-- The end of a string behind a position is shorter. -/
theorem length_drop_lt {s : List UInt8} {c : UInt8} {pos : Nat} (h : strchr c s = some pos) :
    (s.drop (pos + 1)).length < s.length := by
  have hlt := strchr_lt h
  rw [List.length_drop]
  omega

section comput

variable (available : Allocator)

def stringMult (string : List UInt8) : Checked Int :=
  match _h : strchr 42 string with
  | none => .ok (atoi string)
  | some multpos =>
    if available (multpos + 1) = false then .error .outOfBounds
    else
      let number1 := atoi (string.take multpos)
      if (strchr 42 (string.drop (multpos + 1))).isSome then do
        let number2 ← stringMult (string.drop (multpos + 1))
        return int (number1 * number2)
      else return int (number1 * atoi (string.drop (multpos + 1)))
termination_by string.length
decreasing_by exact length_drop_lt ‹_›

/-- `string_comput` of a string that is not NULL. -/
def stringSum (string : List UInt8) : Checked Int :=
  match _h : strchr 43 string with
  | none =>
    if available (string.length + 1) = false then .ok 0 else stringMult available string
  | some pluspos =>
    if available (pluspos + 1) = false then .ok 0
    else do
      let number1 ← stringMult available (string.take pluspos)
      if (strchr 43 (string.drop (pluspos + 1))).isSome then do
        let number2 ← stringSum (string.drop (pluspos + 1))
        return int (number1 + number2)
      else do
        let number2 ← stringMult available (string.drop (pluspos + 1))
        return int (number1 + number2)
termination_by string.length
decreasing_by exact length_drop_lt ‹_›

def stringComput (string : Option (List UInt8)) : Checked Int :=
  match string with
  | none => .ok 0
  | some string => stringSum available string

end comput

/-! ## Printed expressions -/

/-- A decimal integer as it is printed, with the spaces around it. -/
structure Factor where
  spacesBefore : List UInt8
  negative : Bool
  decimals : List UInt8
  spacesAfter : List UInt8
  before_spaces : spacesBefore.all isSpace = true
  decimals_some : decimals.isEmpty = false
  decimals_digits : decimals.all isDigit = true
  after_spaces : spacesAfter.all isSpace = true

/-- A product has at least one factor. -/
structure Product where
  first : Factor
  more : List Factor

/-- A sum has at least one term. -/
structure Sum where
  first : Product
  more : List Product

def Factor.value (f : Factor) : Int :=
  if f.negative then -(digits 0 f.decimals : Int) else digits 0 f.decimals

def Factor.text (f : Factor) : List UInt8 :=
  f.spacesBefore ++ ((if f.negative then [45] else []) ++ (f.decimals ++ f.spacesAfter))

/-- `a * b * c`. -/
def productValue (f : Factor) : List Factor → Int
  | [] => f.value
  | g :: fs => f.value * productValue g fs

def productText (f : Factor) : List Factor → List UInt8
  | [] => f.text
  | g :: fs => f.text ++ 42 :: productText g fs

def Product.value (p : Product) : Int := productValue p.first p.more

def Product.text (p : Product) : List UInt8 := productText p.first p.more

/-- `a + b + c`. -/
def sumValue (p : Product) : List Product → Int
  | [] => p.value
  | q :: ps => p.value + sumValue q ps

def sumText (p : Product) : List Product → List UInt8
  | [] => p.text
  | q :: ps => p.text ++ 43 :: sumText q ps

def Sum.value (e : Sum) : Int := sumValue e.first e.more

def Sum.text (e : Sum) : List UInt8 := sumText e.first e.more

/-- The number is an `int`. -/
def Fits (i : Int) : Prop := -2 ^ 31 ≤ i ∧ i < 2 ^ 31

instance (i : Int) : Decidable (Fits i) := inferInstanceAs (Decidable (_ ∧ _))

def Product.Fits (p : Product) : Prop := ∀ f ∈ p.first :: p.more, StringComput.Fits f.value

def Sum.Fits (e : Sum) : Prop := ∀ p ∈ e.first :: e.more, p.Fits

instance (p : Product) : Decidable p.Fits :=
  inferInstanceAs (Decidable (∀ f ∈ p.first :: p.more, StringComput.Fits f.value))

instance (e : Sum) : Decidable e.Fits :=
  inferInstanceAs (Decidable (∀ p ∈ e.first :: e.more, p.Fits))

section comput

variable {available : Allocator} {a b : List UInt8}

theorem stringMult_last (h : 42 ∉ a) : stringMult available a = .ok (atoi a) := by
  rw [stringMult]
  split
  case h_1 => rfl
  case h_2 hpos => cases (strchr_eq_none.mpr h).symm.trans hpos

theorem drop_behind (a : List UInt8) (c : UInt8) (b : List UInt8) :
    (a ++ c :: b).drop (a.length + 1) = b := by
  rw [← List.drop_drop, List.drop_left]
  rfl

/-- The number before the first `*` is multiplied with the rest. -/
theorem stringMult_first (h : 42 ∉ a) (hgranted : available (a.length + 1) = true) :
    stringMult available (a ++ 42 :: b) =
      stringMult available b >>= fun n => .ok (int (atoi a * n)) := by
  rw [stringMult]
  split
  case h_1 hnone => cases (strchr_append h b).symm.trans hnone
  case h_2 hpos =>
    cases (strchr_append h b).symm.trans hpos
    rw [drop_behind, List.take_left, hgranted]
    simp only [Bool.true_eq_false, if_false]
    cases hrest : strchr 42 b with
    | some next => rfl
    | none =>
      rw [stringMult_last (strchr_eq_none.mp hrest)]
      rfl

theorem stringSum_last (h : 43 ∉ a) (hgranted : available (a.length + 1) = true) :
    stringSum available a = stringMult available a := by
  rw [stringSum]
  split
  case h_1 => rw [hgranted, if_neg (by decide)]
  case h_2 hpos => cases (strchr_eq_none.mpr h).symm.trans hpos

/-- The product before the first `+` is added to the rest. -/
theorem stringSum_first (h : 43 ∉ a) (hgranted : available (a.length + 1) = true)
    (hrest : available (b.length + 1) = true) :
    stringSum available (a ++ 43 :: b) = do
      let m ← stringMult available a
      let n ← stringSum available b
      return int (m + n) := by
  rw [stringSum]
  split
  case h_1 hnone => cases (strchr_append h b).symm.trans hnone
  case h_2 hpos =>
    cases (strchr_append h b).symm.trans hpos
    rw [drop_behind, List.take_left, hgranted]
    simp only [Bool.true_eq_false, if_false]
    cases hfound : strchr 43 b with
    | some next => rfl
    | none =>
      rw [stringSum_last (strchr_eq_none.mp hfound) hrest]
      rfl

end comput

/-! ## Numbers -/

section numbers

variable {f : Factor}

theorem isSpace_bounds {c : UInt8} (h : isSpace c = true) : c = 32 ∨ c.toNat ≤ 13 := by
  rw [isSpace, Bool.or_eq_true, Bool.and_eq_true, decide_eq_true_eq, decide_eq_true_eq] at h
  rcases h with h | h
  · exact Or.inl (eq_of_beq h)
  · exact Or.inr (UInt8.le_iff_toNat_le.mp h.2)

theorem isDigit_bounds {c : UInt8} (h : isDigit c = true) : 48 ≤ c.toNat ∧ c.toNat ≤ 57 := by
  rw [isDigit, Bool.and_eq_true, decide_eq_true_eq, decide_eq_true_eq] at h
  exact ⟨UInt8.le_iff_toNat_le.mp h.1, UInt8.le_iff_toNat_le.mp h.2⟩

theorem not_isSpace_of_isDigit {c : UInt8} (h : isDigit c = true) : isSpace c = false := by
  rw [Bool.eq_false_iff]
  intro hspace
  have hdigit := isDigit_bounds h
  rcases isSpace_bounds hspace with rfl | hle
  · exact absurd hdigit.1 (by decide)
  · omega

theorem not_isDigit_of_isSpace {c : UInt8} (h : isSpace c = true) : isDigit c = false := by
  rw [Bool.eq_false_iff]
  intro hdigit
  rw [not_isSpace_of_isDigit hdigit] at h
  cases h

/-- A number ends at the first character that is not a digit. -/
theorem digits_append {s t : List UInt8} (hs : s.all isDigit = true)
    (ht : t.all isSpace = true) (value : Nat) : digits value (s ++ t) = digits value s := by
  induction s generalizing value with
  | nil =>
    cases t with
    | nil => rfl
    | cons c t =>
      rw [List.all_cons, Bool.and_eq_true] at ht
      have hspace := not_isDigit_of_isSpace ht.1
      simp only [List.nil_append, digits, hspace, Bool.false_eq_true, if_false]
  | cons c s ih =>
    rw [List.all_cons, Bool.and_eq_true] at hs
    simp only [List.cons_append, digits, hs.1, if_true]
    exact ih hs.2 _

theorem dropWhile_spaces {s t : List UInt8} (hs : s.all isSpace = true) :
    (s ++ t).dropWhile isSpace = t.dropWhile isSpace := by
  induction s with
  | nil => rfl
  | cons c s ih =>
    rw [List.all_cons, Bool.and_eq_true] at hs
    rw [List.cons_append, List.dropWhile_cons, hs.1]
    exact ih hs.2

/-- The number is read as it is printed. -/
theorem strtol_text (h : Fits f.value) : strtol f.text = f.value := by
  obtain ⟨c, s, hdecimals⟩ :=
    List.exists_cons_of_ne_nil (List.isEmpty_eq_false_iff.mp f.decimals_some)
  have hdigit : isDigit c = true :=
    List.all_eq_true.mp f.decimals_digits c (hdecimals ▸ List.mem_cons_self)
  have hdigits : digits 0 (f.decimals ++ f.spacesAfter) = digits 0 f.decimals :=
    digits_append f.decimals_digits f.after_spaces 0
  have hbounds := isDigit_bounds hdigit
  rw [Factor.value] at h
  rw [strtol, Factor.text, dropWhile_spaces f.before_spaces, Factor.value]
  cases hnegative : f.negative with
  | true =>
    rw [hnegative] at h
    simp only [if_true, List.cons_append, List.nil_append] at h ⊢
    rw [List.dropWhile_cons, if_neg (by decide)]
    simp only [if_true, hdigits]
    obtain ⟨hlow, hhigh⟩ := h
    omega
  | false =>
    rw [hnegative] at h
    simp only [Bool.false_eq_true, if_false, List.nil_append] at h ⊢
    rw [hdecimals] at hdigits h ⊢
    rw [List.cons_append] at hdigits ⊢
    rw [List.dropWhile_cons, not_isSpace_of_isDigit hdigit]
    have hminus : c ≠ 45 := fun heq => by rw [heq] at hbounds; exact absurd hbounds.1 (by decide)
    have hplus : c ≠ 43 := fun heq => by rw [heq] at hbounds; exact absurd hbounds.1 (by decide)
    simp only [Bool.false_eq_true, if_false, hminus, hplus, hdigits]
    obtain ⟨hlow, hhigh⟩ := h
    omega

theorem atoi_text (h : Fits f.value) : atoi f.text = f.value := by
  rw [atoi, strtol_text h]
  exact int_of_fits h.1 h.2

/-- Neither operator is in the text of a number. -/
theorem notMem_text {c : UInt8} (hspace : isSpace c = false) (hdigit : isDigit c = false)
    (hminus : c ≠ 45) : c ∉ f.text := by
  rw [Factor.text]
  simp only [List.mem_append, not_or]
  refine ⟨fun hmem => ?_, fun hmem => ?_, fun hmem => ?_, fun hmem => ?_⟩
  · rw [List.all_eq_true.mp f.before_spaces c hmem] at hspace
    cases hspace
  · split at hmem
    · exact hminus (List.mem_singleton.mp hmem)
    · cases hmem
  · rw [List.all_eq_true.mp f.decimals_digits c hmem] at hdigit
    cases hdigit
  · rw [List.all_eq_true.mp f.after_spaces c hmem] at hspace
    cases hspace

end numbers

/-! ## Products and sums -/

section expressions

variable {available : Allocator}

theorem int_mul_int (a b : Int) : int (a * int b) = int (a * b) := Int.mul_bmod_bmod

theorem int_add_int (a b : Int) : int (int a + int b) = int (a + b) := by
  rw [int, int, int, int, Int.add_bmod_bmod, Int.bmod_add_bmod]

theorem productText_first (f g : Factor) (fs : List Factor) :
    productText f (g :: fs) = f.text ++ 42 :: productText g fs := rfl

/-- A product is read as an `int`; what wraps on the way does not matter. -/
theorem stringMult_text {f : Factor} {fs : List Factor} (h : ∀ g ∈ f :: fs, Fits g.value)
    (hgranted : ∀ n, n ≤ (productText f fs).length + 1 → available n = true) :
    stringMult available (productText f fs) = .ok (int (productValue f fs)) := by
  induction fs generalizing f with
  | nil =>
    have hf := h f List.mem_cons_self
    rw [productText, productValue, stringMult_last (notMem_text rfl rfl (by decide)),
      atoi_text hf, int_of_fits hf.1 hf.2]
  | cons g fs ih =>
    rw [productText_first] at hgranted ⊢
    rw [List.length_append, List.length_cons] at hgranted
    rw [stringMult_first (notMem_text rfl rfl (by decide)) (hgranted _ (by omega)),
      ih (fun g' hg => h g' (List.mem_cons_of_mem f hg)) (fun n hn => hgranted n (by omega)),
      bind_ok, atoi_text (h f List.mem_cons_self), int_mul_int]
    rfl

theorem plus_notMem_productText (f : Factor) (fs : List Factor) : 43 ∉ productText f fs := by
  induction fs generalizing f with
  | nil => exact notMem_text rfl rfl (by decide)
  | cons g fs ih =>
    rw [productText_first, List.mem_append, List.mem_cons, not_or, not_or]
    exact ⟨notMem_text rfl rfl (by decide), by decide, ih g⟩

theorem stringSum_text {p : Product} {ps : List Product} (h : ∀ q ∈ p :: ps, q.Fits)
    (hgranted : ∀ n, n ≤ (sumText p ps).length + 1 → available n = true) :
    stringSum available (sumText p ps) = .ok (int (sumValue p ps)) := by
  induction ps generalizing p with
  | nil =>
    rw [sumText, Product.text, stringSum_last (plus_notMem_productText _ _)
      (hgranted _ (Nat.le_refl _))]
    exact stringMult_text (h p List.mem_cons_self) hgranted
  | cons q ps ih =>
    have htext : sumText p (q :: ps) = productText p.first p.more ++ 43 :: sumText q ps := rfl
    rw [htext] at hgranted ⊢
    rw [List.length_append, List.length_cons] at hgranted
    rw [stringSum_first (plus_notMem_productText _ _) (hgranted _ (by omega))
        (hgranted _ (by omega)),
      stringMult_text (h p List.mem_cons_self) (fun n hn => hgranted n (by omega)),
      ih (fun q' hq => h q' (List.mem_cons_of_mem p hq)) (fun n hn => hgranted n (by omega))]
    simp only [bind_ok, int_add_int]
    rfl

/-- A sum of products has the value that its printed form is evaluated to. -/
theorem stringComput_text (e : Sum) (hfactors : e.Fits) (hvalue : Fits e.value)
    (hgranted : ∀ n, n ≤ e.text.length + 1 → available n = true) :
    stringComput available (some e.text) = .ok e.value := by
  rw [stringComput, Sum.text, stringSum_text hfactors hgranted]
  exact congrArg Except.ok (int_of_fits hvalue.1 hvalue.2)

end expressions

/-! `2 * -3+ 04`. -/

def two : Factor := ⟨[], false, [50], [32], rfl, rfl, rfl, rfl⟩

def minusThree : Factor := ⟨[32], true, [51], [], rfl, rfl, rfl, rfl⟩

def four : Factor := ⟨[32], false, [48, 52], [], rfl, rfl, rfl, rfl⟩

theorem stringComput_text_minusTwo :
    stringComput (fun _ => true) (some (bytes "2 * -3+ 04")) = .ok (-2) :=
  stringComput_text ⟨⟨two, [minusThree]⟩, [⟨four, []⟩]⟩ (by decide) (by decide) (fun _ _ => rfl)

end MuMuDVB.StringComput
