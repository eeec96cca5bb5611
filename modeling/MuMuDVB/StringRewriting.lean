import Mathlib.Data.List.Infix
import Mathlib.Data.List.Nodup
import Mathlib.Logic.Relation

/-!
# Replacing one pattern until it is gone

One rewriting rule, `p` to `r`, on lists. Where the letters of `p` are distinct,
two occurrences never overlap, so all ways to rewrite a list take equally many
steps. `Endless` says which lists can be rewritten for ever: the replacement
has the pattern inside, or two copies of it make the pattern where they meet,
each time with enough letters left over for the next one.
-/
namespace StringRewriting

variable {α : Type} (p r : List α)

/-- One occurrence of the pattern is replaced. -/
def Step (t t' : List α) : Prop := ∃ a b, t = a ++ p ++ b ∧ t' = a ++ r ++ b

/-- In `k` steps the pattern is gone. -/
inductive Normalizes : Nat → List α → Prop where
  | normal {t : List α} (h : ¬ p <:+: t) : Normalizes 0 t
  | step {k : Nat} {t t' : List α} (hstep : Step p r t t') (h : Normalizes k t') :
      Normalizes (k + 1) t

/-- The pattern can be replaced until it is gone. -/
def Terminates (t : List α) : Prop := ∃ k, Normalizes p r k t

/-- The pattern, cut in two. -/
structure Cut (x y : List α) : Prop where
  left_ne : x ≠ []
  right_ne : y ≠ []
  whole : x ++ y = p

/-- The replacement begins with `y` and then `w` and ends with `x` and then `z`, and both `x y`
and `z w` are the pattern. -/
structure Crossing (x y z w : List α) : Prop where
  first : Cut p x y
  second : Cut p z w
  begins : y ++ w <+: r
  ends : x ++ z <:+ r

/-- What a list has to have for a crossing replacement to go on for ever. -/
def Fed (t x y z w : List α) : Prop :=
  x ++ p <:+: t ∨ p ++ w <:+: t ∨ ∃ m, z ++ m ++ y = p ∧ p ++ m ++ p <:+: t

/-- The pattern is in the list, and it is in the replacement too or the replacement makes it
again and again. -/
def Endless (t : List α) : Prop :=
  p <:+: t ∧ (p <:+: r ∨ ∃ x y z w, Crossing p r x y z w ∧ Fed p t x y z w)

variable {p r} {t t' u v x y z w : List α} {k : Nat}

theorem Step.append_left (h : Step p r t t') (s : List α) : Step p r (s ++ t) (s ++ t') := by
  obtain ⟨a, b, rfl, rfl⟩ := h
  exact ⟨s ++ a, b, by simp only [List.append_assoc], by simp only [List.append_assoc]⟩

theorem Step.occurs (h : Step p r t t') : p <:+: t := by
  obtain ⟨a, b, rfl, -⟩ := h
  exact List.infix_append a p b

theorem Step.exists (h : p <:+: t) : ∃ t', Step p r t t' := by
  obtain ⟨a, b, rfl⟩ := h
  exact ⟨_, a, b, rfl, rfl⟩

theorem Terminates.step (hstep : Step p r t t') (h : Terminates p r t') : Terminates p r t := by
  obtain ⟨k, hk⟩ := h
  exact ⟨k + 1, .step hstep hk⟩

theorem Terminates.of_normal (h : ¬ p <:+: t) : Terminates p r t := ⟨0, .normal h⟩

theorem Terminates.steps (hsteps : Relation.ReflTransGen (Step p r) t t')
    (h : Terminates p r t') : Terminates p r t := by
  induction hsteps using Relation.ReflTransGen.head_induction_on with
  | refl => exact h
  | head hstep _ ih => exact ih.step hstep

theorem Terminates.exists_normal (h : Terminates p r t) :
    ∃ b, Relation.ReflTransGen (Step p r) t b ∧ ¬ p <:+: b := by
  obtain ⟨k, hk⟩ := h
  induction hk with
  | normal h => exact ⟨_, .refl, h⟩
  | step hstep _ ih =>
    obtain ⟨b, hsteps, hb⟩ := ih
    exact ⟨b, hsteps.head hstep, hb⟩

/-! ## Two occurrences do not overlap -/

/-- What begins a list of distinct letters does not come back later in it. -/
theorem eq_nil_of_overlap (hp : p.Nodup) (hx : x ++ y <+: p) (hy : y <+: p) (hne : x ≠ []) :
    y = [] := by
  obtain ⟨c, x, rfl⟩ := List.exists_cons_of_ne_nil hne
  cases y with
  | nil => rfl
  | cons d y =>
    obtain ⟨s, rfl⟩ := hy
    obtain ⟨e, he⟩ := hx
    rw [List.cons_append, List.cons_append, List.cons_append, List.cons.injEq] at he
    rw [List.cons_append, List.nodup_cons] at hp
    refine absurd ?_ hp.1
    rw [← he.2]
    simp

/-- Two different steps from one list are joined by one more step each. -/
theorem Step.diamond (hp : p.Nodup) (h : Step p r t u) (h' : Step p r t v) :
    u = v ∨ ∃ s, Step p r u s ∧ Step p r v s := by
  have key : ∀ a b c d : List α, a ++ p ++ b = c ++ p ++ d → a.length ≤ c.length →
      a ++ r ++ b = c ++ r ++ d ∨
        ∃ s, Step p r (a ++ r ++ b) s ∧ Step p r (c ++ r ++ d) s := by
    intro a b c d heq hle
    rw [List.append_assoc, List.append_assoc] at heq
    obtain ⟨e, rfl⟩ : a <+: c :=
      List.prefix_of_prefix_length_le ⟨_, heq⟩ ⟨_, rfl⟩ hle
    rw [List.append_assoc, List.append_cancel_left_eq] at heq
    rcases List.append_eq_append_iff.mp heq with ⟨f, hf, hb⟩ | ⟨f, hf, hd⟩
    · -- the second occurrence is behind the first
      subst hf
      right
      refine ⟨a ++ r ++ f ++ r ++ d, ⟨a ++ r ++ f, d, ?_, rfl⟩, ⟨a, f ++ r ++ d, ?_, ?_⟩⟩
      · rw [hb]
        simp only [List.append_assoc]
      · simp only [List.append_assoc]
      · simp only [List.append_assoc]
    · -- the second occurrence begins inside the first
      have hover : f <+: p := by
        rcases List.prefix_or_prefix_of_prefix ⟨b, hd.symm⟩ (List.prefix_append p d) with hfp | hpf
        · exact hfp
        · have hlen := congrArg List.length hf
          have hlen' := hpf.length_le
          rw [List.length_append] at hlen
          have he : e = [] := List.eq_nil_of_length_eq_zero (by omega)
          rw [he, List.nil_append] at hf
          rw [hf]
      by_cases he : e = []
      · subst he
        rw [List.nil_append] at hf
        subst hf
        rw [List.append_cancel_left_eq] at hd
        rw [hd, List.append_nil]
        exact Or.inl rfl
      · have hfnil := eq_nil_of_overlap hp (hf ▸ List.prefix_rfl) hover he
        subst hfnil
        rw [List.append_nil] at hf
        rw [List.nil_append] at hd
        subst hf
        right
        refine ⟨a ++ r ++ r ++ d, ⟨a ++ r, d, ?_, rfl⟩, ⟨a, r ++ d, ?_, ?_⟩⟩
        · rw [← hd]
          simp only [List.append_assoc]
        · simp only [List.append_assoc]
        · simp only [List.append_assoc]
  obtain ⟨a, b, rfl, rfl⟩ := h
  obtain ⟨c, d, heq, rfl⟩ := h'
  rcases Nat.le_total a.length c.length with hle | hle
  · exact key a b c d heq hle
  · rcases key c d a b heq.symm hle with hsame | ⟨s, hs, hs'⟩
    · exact Or.inl hsame.symm
    · exact Or.inr ⟨s, hs', hs⟩

theorem Normalizes.of_step (hp : p.Nodup) (h : Normalizes p r k t) (hstep : Step p r t t') :
    ∃ j, k = j + 1 ∧ Normalizes p r j t' := by
  induction h generalizing t' with
  | normal h => exact absurd hstep.occurs h
  | @step k t u hstep' hu ih =>
    refine ⟨k, rfl, ?_⟩
    rcases hstep'.diamond hp hstep with rfl | ⟨s, hus, hts⟩
    · exact hu
    · obtain ⟨j, rfl, hs⟩ := ih hus
      exact .step hts hs

theorem Terminates.of_step (hp : p.Nodup) (h : Terminates p r t) (hstep : Step p r t t') :
    Terminates p r t' := by
  obtain ⟨k, hk⟩ := h
  obtain ⟨j, -, hj⟩ := hk.of_step hp hstep
  exact ⟨j, hj⟩

/-- Lists that can always be rewritten into one of them are rewritten for ever. -/
theorem not_terminates_of_forever (hp : p.Nodup) {P : List α → Prop}
    (hforever : ∀ t, P t → ∃ t', Step p r t t' ∧ P t') (h : P t) : ¬ Terminates p r t := by
  rintro ⟨k, hk⟩
  induction k generalizing t with
  | zero =>
    obtain ⟨t', hstep, -⟩ := hforever t h
    obtain ⟨j, hj, -⟩ := hk.of_step hp hstep
    cases hj
  | succ k ih =>
    obtain ⟨t', hstep, ht'⟩ := hforever t h
    obtain ⟨j, hj, hnorm⟩ := hk.of_step hp hstep
    rw [Nat.add_right_cancel hj] at ih
    exact ih ht' hnorm

/-! ## The mirror image -/

theorem Step.reverse (h : Step p r t t') : Step p.reverse r.reverse t.reverse t'.reverse := by
  obtain ⟨a, b, rfl, rfl⟩ := h
  refine ⟨b.reverse, a.reverse, ?_, ?_⟩
  · simp only [List.reverse_append, List.append_assoc]
  · simp only [List.reverse_append, List.append_assoc]

theorem Normalizes.reverse (h : Normalizes p r k t) :
    Normalizes p.reverse r.reverse k t.reverse := by
  induction h with
  | normal h => exact .normal fun hoccurs => h <| List.reverse_infix.mp hoccurs
  | step hstep _ ih => exact .step hstep.reverse ih

theorem terminates_reverse : Terminates p.reverse r.reverse t.reverse ↔ Terminates p r t := by
  constructor
  · rintro ⟨k, hk⟩
    have := hk.reverse
    simp only [List.reverse_reverse] at this
    exact ⟨k, this⟩
  · rintro ⟨k, hk⟩
    exact ⟨k, hk.reverse⟩

/-! ## Where the pattern can appear -/

/-- Of the beginnings of a list of distinct letters at most one ends another list. -/
theorem eq_of_prefix_of_suffix (hp : p.Nodup) (hx : x <+: p) (hz : z <+: p) (hxne : x ≠ [])
    (hzne : z ≠ []) (hxr : x <:+ r) (hzr : z <:+ r) : x = z := by
  have key : ∀ a b : List α, a <+: p → b <+: p → a ≠ [] → a <:+ b → a = b := by
    rintro a b ha hb hane ⟨s, rfl⟩
    by_cases hs : s = []
    · rw [hs, List.nil_append]
    · exact absurd (eq_nil_of_overlap hp hb ha hs) hane
  rcases List.suffix_or_suffix_of_suffix hxr hzr with h | h
  · exact key x z hx hz hxne h
  · exact (key z x hz hx hzne h).symm

theorem Cut.begins (h : Cut p x y) : x <+: p := ⟨y, h.whole⟩

/-- The first letter of the pattern is in every beginning, and in no end. -/
theorem Cut.disjoint (hp : p.Nodup) (h : Cut p x y) (hz : z <+: p) (hne : z ≠ []) :
    ¬ z ⊆ y := by
  obtain ⟨c, x, rfl⟩ := List.exists_cons_of_ne_nil h.left_ne
  obtain ⟨d, z, rfl⟩ := List.exists_cons_of_ne_nil hne
  obtain ⟨s, hs⟩ := hz
  rw [← h.whole, List.cons_append, List.cons_append, List.cons.injEq] at hs
  rw [← h.whole, List.cons_append, List.nodup_cons, ← hs.1] at hp
  intro hsub
  exact hp.1 (List.mem_append_right x (hsub List.mem_cons_self))

/-- An end of the pattern does not reach past a list that has one of its beginnings. -/
theorem Cut.prefix_left {a b : List α} (hp : p.Nodup) (h : Cut p x y) (hz : z <+: p)
    (hne : z ≠ []) (hza : z <:+: a) (hy : y <+: a ++ b) : y <+: a := by
  rcases List.prefix_or_prefix_of_prefix hy (List.prefix_append a b) with hya | hay
  · exact hya
  · exact absurd (List.Subset.trans hza.subset hay.subset) (h.disjoint hp hz hne)

theorem Cut.reverse (h : Cut p x y) : Cut p.reverse y.reverse x.reverse where
  left_ne := by simpa using h.right_ne
  right_ne := by simpa using h.left_ne
  whole := by rw [← h.whole, List.reverse_append]

/-- Of the ends of a list of distinct letters at most one begins another list. -/
theorem Cut.right_eq (hp : p.Nodup) (h : Cut p x y) (h' : Cut p z w) (hy : y <+: r)
    (hw : w <+: r) : y = w :=
  List.reverse_injective (eq_of_prefix_of_suffix (List.nodup_reverse.mpr hp) h.reverse.begins
    h'.reverse.begins h.reverse.left_ne h'.reverse.left_ne (List.reverse_suffix.mpr hy)
    (List.reverse_suffix.mpr hw))

/-- The pattern is in neither part, so it is not in the whole unless it is cut where they meet. -/
theorem not_occurs_append {a b : List α} (ha : ¬ p <:+: a) (hb : ¬ p <:+: b)
    (hcut : ∀ x y, Cut p x y → x <:+ a → ¬ y <+: b) : ¬ p <:+: a ++ b := by
  rw [List.infix_append_iff_ne_nil]
  rintro (h | h | ⟨x, y, hx, hy, rfl, hxa, hyb⟩)
  · exact ha h
  · exact hb h
  · exact hcut x y ⟨hx, hy, rfl⟩ hxa hyb

/-! ## Replacements that work their way to one side -/

/-- Behind a replacement, which ends with `z`, the next one leaves `x` before itself. -/
def ReturnsLeft (p r : List α) : Prop :=
  ∃ x y z w, Cut p x y ∧ Cut p z w ∧ y <+: r ∧ x ++ z <:+ r

/-- Before a replacement, which begins with `y`, the next one leaves `w` behind itself. -/
def ReturnsRight (p r : List α) : Prop :=
  ∃ x y z w, Cut p x y ∧ Cut p z w ∧ y ++ w <+: r ∧ z <:+ r

theorem ReturnsLeft.of_reverse (h : ReturnsLeft p.reverse r.reverse) : ReturnsRight p r := by
  obtain ⟨x, y, z, w, hxy, hzw, hy, hxz⟩ := h
  have hcut := hxy.reverse
  have hcut' := hzw.reverse
  rw [List.reverse_reverse] at hcut hcut'
  refine ⟨w.reverse, z.reverse, y.reverse, x.reverse, hcut', hcut, ?_, ?_⟩
  · rw [← List.reverse_suffix]
    simpa using hxz
  · rw [← List.reverse_prefix]
    simpa using hy

/-- What a row of replacements leaves before itself, one replacement and the list behind it. -/
theorem not_occurs_row (hp : p.Nodup) (hr : ¬ p <:+: r) (hreturns : ¬ ReturnsLeft p r)
    {s b : List α} (hcut : Cut p z w) (hs : s ++ z = r) (hb : ¬ p <:+: b) (hw : ¬ w <+: b)
    (j : Nat) : ¬ p <:+: (List.replicate j s).flatten ++ (r ++ b) := by
  induction j with
  | zero =>
    rw [List.replicate_zero, List.flatten_nil, List.nil_append]
    refine not_occurs_append hr hb fun x y hxy hx hy => hw ?_
    have heq := eq_of_prefix_of_suffix hp hxy.begins hcut.begins hxy.left_ne hcut.left_ne hx
      ⟨s, hs⟩
    subst heq
    rw [List.append_cancel_left (hxy.whole.trans hcut.whole.symm)] at hy
    exact hy
  | succ j ih =>
    rw [List.replicate_succ, List.flatten_cons, List.append_assoc]
    refine not_occurs_append (fun h => hr (h.trans ⟨[], z, by simpa using hs⟩)) ih ?_
    intro x y hxy hx hy
    refine hreturns ⟨x, y, z, w, hxy, hcut, ?_, ?_⟩
    · have hbegins : ∃ c, (List.replicate j s).flatten ++ (r ++ b) = s ++ c := by
        cases j with
        | zero => exact ⟨z ++ b, by rw [← hs]; simp⟩
        | succ j => exact ⟨_, by rw [List.replicate_succ, List.flatten_cons, List.append_assoc]⟩
      obtain ⟨c, hc⟩ := hbegins
      rw [hc] at hy
      exact (hxy.prefix_left hp hxy.begins hxy.left_ne hx.isInfix hy).trans ⟨z, hs⟩
    · rw [← hs]
      obtain ⟨a, rfl⟩ := hx
      exact ⟨a, by rw [List.append_assoc]⟩

/-- Behind the row the list gets shorter with each replacement. -/
theorem terminates_row (hp : p.Nodup) (hr : ¬ p <:+: r) (hreturns : ¬ ReturnsLeft p r)
    {s b : List α} (hcut : Cut p z w) (hs : s ++ z = r) (hb : ¬ p <:+: b) (j : Nat) :
    Terminates p r ((List.replicate j s).flatten ++ (r ++ b)) := by
  induction hn : b.length using Nat.strong_induction_on generalizing b j with
  | _ n ih =>
    by_cases hw : w <+: b
    · obtain ⟨b, rfl⟩ := hw
      rw [List.length_append] at hn
      have hpos := List.length_pos_of_ne_nil hcut.right_ne
      have hb' : ¬ p <:+: b := fun h => hb (h.trans (List.suffix_append w b).isInfix)
      refine (ih b.length (by omega) hb' (j + 1) rfl).step
        ⟨(List.replicate j s).flatten ++ s, b, ?_, ?_⟩
      · rw [← hs, ← hcut.whole]
        simp only [List.append_assoc]
      · rw [List.replicate_succ', List.flatten_append]
        simp only [List.flatten_cons, List.flatten_nil, List.append_nil, List.append_assoc]
    · exact .of_normal (not_occurs_row hp hr hreturns hcut hs hb hw j)

/-- A replacement that never returns to the left brings the rewriting to an end, from any list. -/
theorem terminates_of_not_returnsLeft (hp : p.Nodup) (hr : ¬ p <:+: r)
    (hreturns : ¬ ReturnsLeft p r) (t : List α) : Terminates p r t := by
  have hready : ∀ b, ¬ p <:+: b → Terminates p r (r ++ b) := by
    intro b hb
    by_cases hcut : ∃ z w, Cut p z w ∧ z <:+ r
    · obtain ⟨z, w, hcut, s, hs⟩ := hcut
      exact terminates_row hp hr hreturns hcut hs hb 0
    · refine .of_normal (not_occurs_append hr hb fun x y hxy hx _ => hcut ⟨x, y, hxy, hx⟩)
  -- the list is made normal from its end on
  induction t with
  | nil =>
    refine .of_normal fun h => hr ?_
    rw [List.infix_nil.mp h]
    exact List.nil_infix
  | cons c t ih =>
    obtain ⟨b, hsteps, hb⟩ := ih.exists_normal
    refine Terminates.steps (hsteps.lift (c :: ·) fun _ _ h => h.append_left [c]) ?_
    by_cases h : p <+: c :: b
    · obtain ⟨b', hb'⟩ := h
      have hstep : Step p r (c :: b) (r ++ b') := ⟨[], b', hb'.symm, rfl⟩
      refine (hready b' fun hoccurs => hb ?_).step hstep
      cases p with
      | nil => exact absurd List.nil_infix hr
      | cons d p =>
        rw [List.cons_append, List.cons.injEq] at hb'
        rw [← hb'.2]
        exact hoccurs.trans (List.suffix_append p b').isInfix
    · refine .of_normal fun hoccurs => ?_
      rcases List.infix_cons_iff.mp hoccurs with hhead | htail
      · exact h hhead
      · exact hb htail

theorem terminates_of_not_returnsRight (hp : p.Nodup) (hr : ¬ p <:+: r)
    (hreturns : ¬ ReturnsRight p r) (t : List α) : Terminates p r t :=
  terminates_reverse.mp (terminates_of_not_returnsLeft (List.nodup_reverse.mpr hp)
    (fun h => hr <| List.reverse_infix.mp h) (fun h => hreturns h.of_reverse) t.reverse)

/-! ## Replacements that cross -/

theorem exists_crossing (hp : p.Nodup) (hleft : ReturnsLeft p r) (hright : ReturnsRight p r) :
    ∃ x y z w, Crossing p r x y z w := by
  obtain ⟨x, y, z, w, hxy, hzw, hy, hxz⟩ := hleft
  obtain ⟨x', y', z', w', hxy', hzw', hyw', hz'⟩ := hright
  have hz : z = z' := eq_of_prefix_of_suffix hp hzw.begins hzw'.begins hzw.left_ne hzw'.left_ne
    ((List.suffix_append x z).trans hxz) hz'
  have hy : y = y' := hxy.right_eq hp hxy' hy ((List.prefix_append y' w').trans hyw')
  subst hz hy
  have hw : w = w' := List.append_cancel_left (hzw.whole.trans hzw'.whole.symm)
  subst hw
  exact ⟨x, y, z, w, hxy, hzw, hyw', hxz⟩

/-- All occurrences are replaced at once. -/
inductive Contracts (p r : List α) : List α → List α → Prop where
  | none {t : List α} (h : ¬ p <:+: t) : Contracts p r t t
  | first {a b b' : List α} (ha : ¬ p <:+: a) (h : Contracts p r b b') :
      Contracts p r (a ++ p ++ b) (a ++ r ++ b')

theorem Contracts.exists (hne : p ≠ []) (t : List α) : ∃ t', Contracts p r t t' := by
  induction hn : t.length using Nat.strong_induction_on generalizing t with
  | _ n ih =>
    subst hn
    cases t with
    | nil => exact ⟨[], .none fun h => hne (List.infix_nil.mp h)⟩
    | cons c t =>
      by_cases hhead : p <+: c :: t
      · obtain ⟨b, hb⟩ := hhead
        have hlen := congrArg List.length hb
        have hpos := List.length_pos_of_ne_nil hne
        rw [List.length_append] at hlen
        obtain ⟨b', hb'⟩ := ih b.length (by omega) b rfl
        rw [← hb]
        exact ⟨_, .first (a := []) (fun h => hne (List.infix_nil.mp h)) hb'⟩
      · obtain ⟨t', ht'⟩ := ih t.length (by simp) t rfl
        cases ht' with
        | none h =>
          refine ⟨_, .none fun hoccurs => ?_⟩
          exact (List.infix_cons_iff.mp hoccurs).elim hhead h
        | @first a b b' ha h =>
          refine ⟨_, .first (a := c :: a) (fun hoccurs => ?_) h⟩
          refine (List.infix_cons_iff.mp hoccurs).elim (fun hp => hhead (hp.trans ?_)) ha
          exact ⟨p ++ b, by simp⟩

theorem Contracts.steps (h : Contracts p r t t') : Relation.ReflTransGen (Step p r) t t' := by
  induction h with
  | none => exact .refl
  | @first a b b' ha h ih =>
    refine .head ⟨a, b, rfl, rfl⟩ (ih.lift (a ++ r ++ ·) fun _ _ h => h.append_left (a ++ r))

theorem Fed.of_isInfix (h : Fed p t x y z w) (hoccurs : t <:+: t') : Fed p t' x y z w := by
  rcases h with h | h | ⟨m, hm, h⟩
  · exact Or.inl (h.trans hoccurs)
  · exact Or.inr (Or.inl (h.trans hoccurs))
  · exact Or.inr (Or.inr ⟨m, hm, h.trans hoccurs⟩)

/-- What follows an occurrence does not complete the end of its replacement. -/
theorem Contracts.not_begins (hp : p.Nodup) (hcross : Crossing p r x y z w) {b b' : List α}
    (h : Contracts p r b b') (hfed : ¬ Fed p (p ++ b) x y z w) : ¬ w <+: b' := by
  intro hw
  have hdirect : ¬ w <+: b := by
    rintro ⟨c, rfl⟩
    exact hfed (Or.inr (Or.inl ⟨[], c, by simp⟩))
  cases h with
  | none => exact hdirect hw
  | @first a c c' ha _ =>
    rw [List.append_assoc] at hw
    rcases List.prefix_or_prefix_of_prefix hw (List.prefix_append a _) with hwa | ⟨y', rfl⟩
    · exact hdirect (hwa.trans ⟨p ++ c, by simp⟩)
    · rw [List.prefix_append_right_inj] at hw
      have hne : y' ≠ [] := by
        rintro rfl
        exact hdirect ⟨p ++ c, by simp⟩
      have hcut : Cut p (z ++ a) y' :=
        ⟨by simp [hcross.second.left_ne], hne, by rw [List.append_assoc, hcross.second.whole]⟩
      have hyr : y' <+: r := hcut.prefix_left hp hcross.second.begins hcross.second.left_ne
        ((List.suffix_append x z).trans hcross.ends).isInfix hw
      have hyy := hcut.right_eq hp hcross.first hyr
        ((List.prefix_append y (a ++ y')).trans hcross.begins)
      subst hyy
      refine hfed (Or.inr (Or.inr ⟨a, hcut.whole, [], c, by simp⟩))

/-- Where nothing keeps a crossing replacement going, all occurrences are gone at once. -/
theorem Contracts.not_occurs (hp : p.Nodup) (hr : ¬ p <:+: r) (hcross : Crossing p r x y z w)
    (h : Contracts p r t t') (hfed : ¬ Fed p t x y z w) : ¬ p <:+: t' := by
  induction h with
  | none h => exact h
  | @first a b b' ha h ih =>
    have hb : ¬ p <:+: b' := ih fun hfed' => hfed (hfed'.of_isInfix (List.suffix_append _ b).isInfix)
    rw [List.append_assoc]
    refine not_occurs_append ha (not_occurs_append hr hb ?_) ?_
    · intro z' w' hcut hz' hw'
      have hz := eq_of_prefix_of_suffix hp hcut.begins hcross.second.begins hcut.left_ne
        hcross.second.left_ne hz' ((List.suffix_append x z).trans hcross.ends)
      subst hz
      rw [List.append_cancel_left (hcut.whole.trans hcross.second.whole.symm)] at hw'
      refine h.not_begins hp hcross (fun hfed' => hfed (hfed'.of_isInfix ?_)) hw'
      rw [List.append_assoc]
      exact (List.suffix_append a _).isInfix
    · intro x' y' hcut hx' hy'
      have hyr : y' <+: r := hcut.prefix_left hp hcross.second.begins hcross.second.left_ne
        ((List.suffix_append x z).trans hcross.ends).isInfix hy'
      have hy := hcut.right_eq hp hcross.first hyr
        ((List.prefix_append y w).trans hcross.begins)
      subst hy
      have hx := List.append_cancel_right (hcut.whole.trans hcross.first.whole.symm)
      subst hx
      obtain ⟨c, rfl⟩ := hx'
      exact hfed (Or.inl ⟨c, b, by simp⟩)

/-! ## Rewriting for ever -/

/-- A crossing replacement that has once been fed goes on for ever. -/
theorem Crossing.forever (hcross : Crossing p r x y z w)
    (h : x ++ p <:+: t ∨ p ++ w <:+: t) :
    ∃ t', Step p r t t' ∧ (x ++ p <:+: t' ∨ p ++ w <:+: t') := by
  obtain ⟨b, hb⟩ := hcross.begins
  obtain ⟨e, he⟩ := hcross.ends
  rcases h with ⟨c, d, rfl⟩ | ⟨c, d, rfl⟩
  · refine ⟨_, ⟨c ++ x, d, by simp, rfl⟩, Or.inr ⟨c, b ++ d, ?_⟩⟩
    rw [← hb, ← hcross.first.whole]
    simp only [List.append_assoc]
  · refine ⟨_, ⟨c, w ++ d, by simp, rfl⟩, Or.inl ⟨c ++ e, d, ?_⟩⟩
    rw [← he, ← hcross.second.whole]
    simp only [List.append_assoc]

theorem not_terminates_of_endless (hp : p.Nodup) (h : Endless p r t) : ¬ Terminates p r t := by
  obtain ⟨hoccurs, hr | ⟨x, y, z, w, hcross, hfed⟩⟩ := h
  · refine not_terminates_of_forever hp (P := fun t => p <:+: t) (fun t ht => ?_) hoccurs
    obtain ⟨a, b, rfl⟩ := ht
    refine ⟨_, ⟨a, b, rfl, rfl⟩, hr.trans (List.infix_append a r b)⟩
  · have hforever : ∀ u, (x ++ p <:+: u ∨ p ++ w <:+: u) → ¬ Terminates p r u := fun u hu =>
      not_terminates_of_forever hp (fun _ => hcross.forever) hu
    rcases hfed with hx | hw | ⟨m, hm, a, b, rfl⟩
    · exact hforever t (Or.inl hx)
    · exact hforever t (Or.inr hw)
    · -- the two occurrences leave one between them, with its `x` before it
      intro hterm
      have hfirst : Step p r (a ++ (p ++ m ++ p) ++ b) (a ++ r ++ (m ++ p ++ b)) :=
        ⟨a, m ++ p ++ b, by simp, rfl⟩
      have hsecond : Step p r (a ++ r ++ (m ++ p ++ b)) (a ++ r ++ m ++ r ++ b) :=
        ⟨a ++ r ++ m, b, by simp, rfl⟩
      obtain ⟨c, hc⟩ := hcross.begins
      obtain ⟨e, he⟩ := hcross.ends
      refine hforever _ (Or.inl ⟨a ++ e, w ++ c ++ b, ?_⟩)
        ((hterm.of_step hp hfirst).of_step hp hsecond)
      have hmid : r ++ m ++ r = e ++ x ++ p ++ (w ++ c) :=
        calc r ++ m ++ r = e ++ (x ++ z) ++ m ++ (y ++ w ++ c) := by rw [he, hc]
          _ = e ++ x ++ (z ++ m ++ y) ++ (w ++ c) := by simp only [List.append_assoc]
          _ = e ++ x ++ p ++ (w ++ c) := by rw [hm]
      calc a ++ e ++ (x ++ p) ++ (w ++ c ++ b) = a ++ (e ++ x ++ p ++ (w ++ c)) ++ b := by
            simp only [List.append_assoc]
        _ = a ++ r ++ m ++ r ++ b := by
            rw [← hmid]
            simp only [List.append_assoc]

/-- The pattern, whose letters are distinct, can be replaced until it is gone exactly when the
list is not endless. -/
theorem terminates_iff (hp : p.Nodup) (t : List α) : Terminates p r t ↔ ¬ Endless p r t := by
  constructor
  · exact fun hterm hendless => not_terminates_of_endless hp hendless hterm
  · intro hendless
    by_cases ht : p <:+: t
    · rw [Endless, not_and_or, not_or, not_exists] at hendless
      obtain ⟨hr, hcrossing⟩ := hendless.resolve_left (not_not_intro ht)
      by_cases hleft : ReturnsLeft p r
      · by_cases hright : ReturnsRight p r
        · obtain ⟨x, y, z, w, hcross⟩ := exists_crossing hp hleft hright
          have hfed : ¬ Fed p t x y z w := fun hfed => hcrossing x ⟨y, z, w, hcross, hfed⟩
          have hne : p ≠ [] := by
            rintro rfl
            exact hr List.nil_infix
          obtain ⟨t', ht'⟩ := Contracts.exists (r := r) hne t
          exact .steps ht'.steps (.of_normal (ht'.not_occurs hp hr hcross hfed))
        · exact terminates_of_not_returnsRight hp hr hright t
      · exact terminates_of_not_returnsLeft hp hr hleft t
    · exact .of_normal ht

/-- A replacement without the first letter of the pattern is never endless. -/
theorem not_endless_of_notMem {c : α} {s : List α} (h : c ∉ r) : ¬ Endless (c :: s) r t := by
  rintro ⟨-, hr | ⟨x, y, z, w, hcross, -⟩⟩
  · exact h (hr.subset List.mem_cons_self)
  · obtain ⟨d, x, rfl⟩ := List.exists_cons_of_ne_nil hcross.first.left_ne
    have hwhole := hcross.first.whole
    rw [List.cons_append, List.cons.injEq] at hwhole
    refine h (hcross.ends.subset ?_)
    rw [← hwhole.1]
    simp

/-- Nor is one that is shorter than the pattern. -/
theorem not_endless_of_length (h : r.length < p.length) : ¬ Endless p r t := by
  rintro ⟨-, hr | ⟨x, y, z, w, hcross, -⟩⟩
  · exact absurd hr.length_le (by omega)
  · have hbegins := hcross.begins.length_le
    have hends := hcross.ends.length_le
    have hfirst := congrArg List.length hcross.first.whole
    have hsecond := congrArg List.length hcross.second.whole
    simp only [List.length_append] at hbegins hends hfirst hsecond
    omega

/-! ## All occurrences, from left to right -/

/-- No occurrence begins in the list, whatever follows it. -/
def Sealed (p t : List α) : Prop := ∀ s u, s <:+ t → s ≠ [] → ¬ p <+: s ++ u

/-- No occurrence begins before the end of `a`. -/
def Before (p a b : List α) : Prop := ∀ s, s <:+ a → s ≠ [] → ¬ p <+: s ++ b

theorem Before.tail {c : α} {a b : List α} (h : Before p (c :: a) b) : Before p a b :=
  fun s hs => h s (hs.trans (List.suffix_cons c a))

theorem Sealed.tail {c : α} (h : Sealed p (c :: t)) : Sealed p t :=
  fun s u hs => h s u (hs.trans (List.suffix_cons c t))

theorem Sealed.before (h : Sealed p t) (b : List α) : Before p t b := fun s => h s b

theorem sealed_nil : Sealed p [] := fun _ _ hs hne => absurd (List.suffix_nil.mp hs) hne

theorem suffix_append_cases {s a b : List α} (h : s <:+ a ++ b) :
    s <:+ b ∨ ∃ s', s = s' ++ b ∧ s' <:+ a := by
  rcases List.suffix_or_suffix_of_suffix h (List.suffix_append a b) with hb | ⟨s', rfl⟩
  · exact Or.inl hb
  · exact Or.inr ⟨s', rfl, List.suffix_append_self_iff.mp h⟩

/-- Letters that the pattern does not have part what is before them from what follows. -/
theorem Sealed.append (hdone : Sealed p t) (hne : p ≠ []) (hr : r ≠ []) (hdisjoint : p.Disjoint r)
    {a b : List α} (h : Before p a b) : Sealed p (t ++ a ++ r) := by
  intro s u hs hsne hocc
  have hhead : ∀ s', s' <:+ r → s' ≠ [] → ¬ p <+: s' ++ u := by
    intro s' hs' hsne' hocc'
    obtain ⟨c, q, rfl⟩ := List.exists_cons_of_ne_nil hne
    obtain ⟨d, s', rfl⟩ := List.exists_cons_of_ne_nil hsne'
    obtain ⟨v, hv⟩ := hocc'
    rw [List.cons_append, List.cons_append, List.cons.injEq] at hv
    exact hdisjoint List.mem_cons_self (hv.1 ▸ hs'.subset List.mem_cons_self)
  have hshort : ∀ s', s' ≠ [] → p <+: s' ++ (r ++ u) → p <+: s' := by
    intro s' _ hocc'
    rcases List.prefix_or_prefix_of_prefix hocc' (List.prefix_append s' (r ++ u)) with hp | ⟨q, rfl⟩
    · exact hp
    · rw [List.prefix_append_right_inj] at hocc'
      cases q with
      | nil => rw [List.append_nil]
      | cons c q =>
        obtain ⟨d, r, rfl⟩ := List.exists_cons_of_ne_nil hr
        obtain ⟨v, hv⟩ := hocc'
        rw [List.cons_append, List.cons_append, List.cons.injEq] at hv
        exact absurd (hv.1 ▸ List.mem_cons_self)
          (hdisjoint (List.mem_append_right s' List.mem_cons_self))
  rcases suffix_append_cases hs with hs | ⟨s', rfl, hs'⟩
  · exact hhead s hs hsne hocc
  · rw [List.append_assoc] at hocc
    by_cases hnil : s' = []
    · subst hnil
      exact hhead r List.suffix_rfl hr hocc
    · have hp := hshort s' hnil hocc
      rcases suffix_append_cases hs' with hsa | ⟨s'', rfl, hst⟩
      · exact h s' hsa hnil (hp.trans (List.prefix_append s' b))
      · by_cases hnil' : s'' = []
        · subst hnil'
          exact h a List.suffix_rfl hnil (hp.trans (List.prefix_append a b))
        · exact hdone s'' a hst hnil' hp

section leftmost

variable [DecidableEq α]

/-- What is left of an occurrence that was replaced is skipped. -/
def replaceFrom (p r : List α) : Nat → List α → List α
  | _, [] => []
  | skip + 1, _ :: t => replaceFrom p r skip t
  | 0, c :: t =>
    if p <+: c :: t then r ++ replaceFrom p r (p.length - 1) t else c :: replaceFrom p r 0 t

/-- Each occurrence that does not overlap one before it is replaced. -/
def replaceAll (p r t : List α) : List α := replaceFrom p r 0 t

example : replaceAll [1, 1] [2] [1, 1, 1, 0, 1, 1] = [2, 1, 0, 2] := by decide

theorem replaceFrom_eq (skip : Nat) (t : List α) :
    replaceFrom p r skip t = replaceAll p r (t.drop skip) := by
  induction t generalizing skip with
  | nil =>
    rw [List.drop_nil]
    cases skip <;> rfl
  | cons c t ih =>
    cases skip with
    | zero => rfl
    | succ skip => exact ih skip

theorem replaceAll_of_not_occurs (h : ¬ p <:+: t) : replaceAll p r t = t := by
  induction t with
  | nil => rfl
  | cons c t ih =>
    rw [List.infix_cons_iff, not_or] at h
    rw [replaceAll, replaceFrom, if_neg h.1]
    exact congrArg _ (ih h.2)

/-- The first occurrence is replaced, and then those behind it. -/
theorem replaceAll_first (hne : p ≠ []) {a b : List α} (h : Before p a (p ++ b)) :
    replaceAll p r (a ++ (p ++ b)) = a ++ (r ++ replaceAll p r b) := by
  induction a with
  | nil =>
    obtain ⟨c, q, rfl⟩ := List.exists_cons_of_ne_nil hne
    have hocc : c :: q <+: c :: (q ++ b) := ⟨b, rfl⟩
    rw [List.nil_append, List.nil_append, List.cons_append, replaceAll, replaceFrom, if_pos hocc,
      replaceFrom_eq, List.length_cons, Nat.add_sub_cancel, List.drop_left]
  | cons c a ih =>
    have hhead : ¬ p <+: c :: (a ++ (p ++ b)) := h _ List.suffix_rfl (List.cons_ne_nil _ _)
    rw [List.cons_append, replaceAll, replaceFrom, if_neg hhead]
    exact congrArg _ (ih h.tail)

theorem length_replaceFrom (hne : p ≠ []) (hlen : p.length ≤ r.length) (skip : Nat) (t : List α) :
    t.length ≤ skip + (replaceFrom p r skip t).length := by
  have hpos := List.length_pos_of_ne_nil hne
  induction t generalizing skip with
  | nil => simp
  | cons c t ih =>
    cases skip with
    | zero =>
      rw [replaceFrom]
      split
      · have hrest := ih (p.length - 1)
        rw [List.length_append, List.length_cons]
        omega
      · have hrest := ih 0
        rw [List.length_cons, List.length_cons]
        omega
    | succ skip =>
      have hrest := ih skip
      rw [replaceFrom, List.length_cons]
      omega

/-- A replacement that is not shorter than the pattern makes nothing shorter. -/
theorem length_le_replaceAll (hne : p ≠ []) (hlen : p.length ≤ r.length) (t : List α) :
    t.length ≤ (replaceAll p r t).length := by
  have h := length_replaceFrom hne hlen 0 t
  rwa [Nat.zero_add] at h

end leftmost

end StringRewriting
