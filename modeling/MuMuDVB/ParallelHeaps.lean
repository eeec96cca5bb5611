import MuMuDVB.CheckedHeap
import Mathlib.Data.Option.Basic

/-!
# Two heaps that go the same way

From some point on two programs make the same allocations, reads, writes and
releases. What they allocated since then stands at the same distance from that
point, with the same content up to the addresses in it; what was in the heaps
before does not matter.
-/
namespace CheckedHeap

open CheckedMemory

/-- Two computations that end in the same fault or in related results. -/
def Agrees {α β : Type} (R : α → β → Prop) : Checked α → Checked β → Prop
  | .ok a, .ok b => R a b
  | .error e, .error e' => e = e'
  | _, _ => False

section agrees

variable {α β γ δ : Type} {R : α → β → Prop} {S : γ → δ → Prop} {x : Checked α} {y : Checked β}

theorem Agrees.bind (hxy : Agrees R x y) {f : α → Checked γ} {g : β → Checked δ}
    (hfg : ∀ a b, R a b → Agrees S (f a) (g b)) : Agrees S (x >>= f) (y >>= g) := by
  cases x with
  | error e =>
    cases y with
    | error e' => exact hxy
    | ok b => cases hxy
  | ok a =>
    cases y with
    | error e' => cases hxy
    | ok b => exact hfg a b hxy

theorem Agrees.imp (hxy : Agrees R x y) {R' : α → β → Prop} (himp : ∀ a b, R a b → R' a b) :
    Agrees R' x y := by
  cases x <;> cases y
  case ok.ok a b => exact himp a b hxy
  all_goals exact hxy

end agrees

section beyond

variable {α : Type} {base base' : Nat} {R : α → α → Prop} {h h' : Heap α} {p p' : Addr} {a a' : α}

/-- The addresses at the same distance from where the two ways begin. -/
def SamePlace (base base' : Nat) (p p' : Addr) : Prop := ∃ n, p = base + n ∧ p' = base' + n

theorem SamePlace.eq_iff {q q' : Addr} (hp : SamePlace base base' p p')
    (hq : SamePlace base base' q q') : p = q ↔ p' = q' := by
  obtain ⟨n, rfl, rfl⟩ := hp
  obtain ⟨m, rfl, rfl⟩ := hq
  rw [Nat.add_left_cancel_iff, Nat.add_left_cancel_iff]

/-- What is in the heaps beyond their first blocks is related by `R`. -/
structure Beyond (base base' : Nat) (R : α → α → Prop) (h h' : Heap α) : Prop where
  grown : SamePlace base base' h.blocks.length h'.blocks.length
  read : ∀ p p', SamePlace base base' p p' → Agrees R (h.read p) (h'.read p')

theorem Heap.read_length_le (hle : h.blocks.length ≤ p) : h.read p = .error .outOfBounds := by
  rw [Heap.read, List.getElem?_eq_none hle]

/-- Nothing was allocated yet. -/
theorem beyond_start (h h' : Heap α) : Beyond h.blocks.length h'.blocks.length R h h' := by
  refine ⟨⟨0, rfl, rfl⟩, ?_⟩
  rintro p p' ⟨n, rfl, rfl⟩
  rw [Heap.read_length_le (Nat.le_add_right _ n), Heap.read_length_le (Nat.le_add_right _ n)]
  rfl

theorem Heap.read_alloc_ne (hne : p ≠ h.blocks.length) (a : α) :
    (h.alloc a).2.read p = h.read p := by
  refine read_congr ?_
  rcases Nat.lt_or_gt_of_ne hne with hlt | hgt
  · exact List.getElem?_append_left hlt
  · rw [Heap.alloc, List.getElem?_eq_none (Nat.le_of_lt hgt), List.getElem?_eq_none]
    rw [List.length_append]
    exact hgt

theorem Beyond.alloc (hb : Beyond base base' R h h') (ha : R a a') :
    SamePlace base base' (h.alloc a).1 (h'.alloc a').1 ∧
      Beyond base base' R (h.alloc a).2 (h'.alloc a').2 := by
  refine ⟨hb.grown, ?_, fun p p' hp => ?_⟩
  · obtain ⟨n, hn, hn'⟩ := hb.grown
    refine ⟨n + 1, ?_, ?_⟩
    · rw [Heap.alloc, List.length_append, hn]
      rfl
    · rw [Heap.alloc, List.length_append, hn']
      rfl
  · by_cases hnew : p = h.blocks.length
    · have hnew' : p' = h'.blocks.length := (hp.eq_iff hb.grown).mp hnew
      rw [hnew, hnew']
      have hread : (h.alloc a).2.read h.blocks.length = .ok a := h.read_alloc a
      have hread' : (h'.alloc a').2.read h'.blocks.length = .ok a' := h'.read_alloc a'
      rw [hread, hread']
      exact ha
    · have hnew' : p' ≠ h'.blocks.length := fun heq => hnew ((hp.eq_iff hb.grown).mpr heq)
      rw [Heap.read_alloc_ne hnew, Heap.read_alloc_ne hnew']
      exact hb.read p p' hp

/-- The same place set to related contents, or released in both. -/
theorem Beyond.set (hb : Beyond base base' R h h') (hp : SamePlace base base' p p')
    {c c' : Option α} (hc : Agrees R (Heap.read ⟨h.blocks.set p c⟩ p)
      (Heap.read ⟨h'.blocks.set p' c'⟩ p')) :
    Beyond base base' R ⟨h.blocks.set p c⟩ ⟨h'.blocks.set p' c'⟩ := by
  refine ⟨?_, fun q q' hq => ?_⟩
  · rw [List.length_set, List.length_set]
    exact hb.grown
  · by_cases hqp : q = p
    · rw [hqp, (hq.eq_iff hp).mp hqp]
      exact hc
    · have hqp' : q' ≠ p' := fun heq => hqp ((hq.eq_iff hp).mpr heq)
      have hsame : Heap.read ⟨h.blocks.set p c⟩ q = h.read q :=
        Heap.read_congr (List.getElem?_set_ne (Ne.symm hqp))
      have hsame' : Heap.read ⟨h'.blocks.set p' c'⟩ q' = h'.read q' :=
        Heap.read_congr (List.getElem?_set_ne (Ne.symm hqp'))
      rw [hsame, hsame']
      exact hb.read q q' hq

theorem Heap.read_set_self (hread : h.read p = .ok a) (c : Option α) :
    Heap.read ⟨h.blocks.set p c⟩ p = c.elim (.error .released) .ok := by
  have hlt := (List.getElem?_eq_some_iff.mp (Heap.read_eq_ok.mp hread)).1
  rw [Heap.read, List.getElem?_set_self hlt]
  cases c <;> rfl

theorem Beyond.write (hb : Beyond base base' R h h') (hp : SamePlace base base' p p') {b b' : α}
    (hr : R b b') : Agrees (Beyond base base' R) (h.write p b) (h'.write p' b') := by
  have hread := hb.read p p' hp
  rw [Heap.write, Heap.write]
  cases hx : h.read p <;> cases hy : h'.read p' <;> rw [hx, hy] at hread
  case ok.ok a a' =>
    refine hb.set hp ?_
    rw [Heap.read_set_self hx, Heap.read_set_self hy]
    exact hr
  all_goals exact hread

theorem Beyond.free (hb : Beyond base base' R h h') (hp : SamePlace base base' p p') :
    Agrees (Beyond base base' R) (h.free p) (h'.free p') := by
  have hread := hb.read p p' hp
  rw [Heap.free, Heap.free]
  cases hx : h.read p <;> cases hy : h'.read p' <;> rw [hx, hy] at hread
  case ok.ok a a' =>
    refine hb.set hp ?_
    rw [Heap.read_set_self hx, Heap.read_set_self hy]
    rfl
  all_goals exact hread

end beyond

end CheckedHeap
