import MuMuDVB.CheckedMemory

/-!
# A heap with checked accesses

Blocks are allocated at fresh addresses and an address is never used again, so
that every read, write or release of a released block is a `Fault`. Structures
in the heap own addresses; an operation transfers the ownership of one set of
addresses into that of another one and leaves all other blocks alone.
-/
namespace CheckedHeap

open CheckedMemory

abbrev Addr := Nat

/-- The blocks, by address; a released block leaves its address empty. -/
structure Heap (α : Type) where
  blocks : List (Option α)

variable {α : Type} {h h' h'' : Heap α} {p q : Addr} {a b : α}

def Heap.alloc (h : Heap α) (a : α) : Addr × Heap α := (h.blocks.length, ⟨h.blocks ++ [some a]⟩)

def Heap.read (h : Heap α) (p : Addr) : Checked α :=
  match h.blocks[p]? with
  | some (some a) => .ok a
  | some none => .error .released
  | none => .error .outOfBounds

def Heap.write (h : Heap α) (p : Addr) (a : α) : Checked (Heap α) := do
  let _ ← h.read p
  return ⟨h.blocks.set p (some a)⟩

def Heap.free (h : Heap α) (p : Addr) : Checked (Heap α) := do
  let _ ← h.read p
  return ⟨h.blocks.set p none⟩

theorem Heap.read_eq_ok : h.read p = .ok a ↔ h.blocks[p]? = some (some a) := by
  unfold read
  split <;> simp_all

theorem Heap.read_congr (hsame : h'.blocks[p]? = h.blocks[p]?) : h'.read p = h.read p := by
  rw [read, read, hsame]

theorem Heap.read_alloc (h : Heap α) (a : α) : (h.alloc a).2.read (h.alloc a).1 = .ok a := by
  rw [read_eq_ok]
  simp [alloc]

/-- A new block is not one that can be read already. -/
theorem Heap.alloc_fresh (h : Heap α) (a b : α) : h.read (h.alloc a).1 ≠ .ok b := by
  rw [Ne, read_eq_ok]
  simp [alloc]

theorem Heap.read_alloc_of_ok (hread : h.read p = .ok b) (a : α) :
    (h.alloc a).2.read p = .ok b := by
  rw [read_eq_ok] at hread ⊢
  have hlt := (List.getElem?_eq_some_iff.mp hread).1
  rw [alloc, List.getElem?_append_left hlt, hread]

theorem Heap.write_ok (hread : h.read p = .ok a) (b : α) :
    ∃ h', h.write p b = .ok h' ∧ h'.read p = .ok b ∧ ∀ q, q ≠ p → h'.read q = h.read q := by
  have hlt := (List.getElem?_eq_some_iff.mp (read_eq_ok.mp hread)).1
  refine ⟨⟨h.blocks.set p (some b)⟩, by rw [write, hread]; rfl, ?_, fun q hq => ?_⟩
  · rw [read_eq_ok, List.getElem?_set_self hlt]
  · exact read_congr (List.getElem?_set_ne (Ne.symm hq))

theorem Heap.free_ok (hread : h.read p = .ok a) :
    ∃ h', h.free p = .ok h' ∧ h'.read p = .error .released ∧ ∀ q, q ≠ p → h'.read q = h.read q := by
  have hlt := (List.getElem?_eq_some_iff.mp (read_eq_ok.mp hread)).1
  refine ⟨⟨h.blocks.set p none⟩, by rw [free, hread]; rfl, ?_, fun q hq => ?_⟩
  · rw [read, List.getElem?_set_self hlt]
  · exact read_congr (List.getElem?_set_ne (Ne.symm hq))

section ownership

variable {own own' own'' others : List Addr}

/-- An operation of the owner of `own`, who owns `own'` afterwards: blocks that it does not own stay
as they are, and what it owns then it owned before or is new. -/
structure Transfers (h : Heap α) (own : List Addr) (h' : Heap α) (own' : List Addr) : Prop where
  keeps : ∀ p a, p ∉ own → h.read p = .ok a → h'.read p = .ok a
  new : ∀ p ∈ own', p ∈ own ∨ ∀ a, h.read p ≠ .ok a

theorem Transfers.refl (h : Heap α) (own : List Addr) : Transfers h own h own :=
  ⟨fun _ _ _ hread => hread, fun _ hp => .inl hp⟩

theorem Transfers.trans (ht : Transfers h own h' own') (ht' : Transfers h' own' h'' own'') :
    Transfers h own h'' own'' := by
  constructor
  · intro p a hp hread
    refine ht'.keeps p a (fun hp' => ?_) (ht.keeps p a hp hread)
    exact (ht.new p hp').elim hp (fun hfresh => hfresh a hread)
  · intro p hp
    rcases ht'.new p hp with hp' | hfresh
    · exact ht.new p hp'
    · by_cases hown : p ∈ own
      · exact .inl hown
      · exact .inr fun a hread => hfresh a (ht.keeps p a hown hread)

/-- All blocks of an owner can be read. -/
def Allocated (h : Heap α) (own : List Addr) : Prop := ∀ p ∈ own, ∃ a, h.read p = .ok a

/-- Blocks of another owner stay, and stay apart. -/
theorem Transfers.apart (ht : Transfers h own h' own') (hall : Allocated h others)
    (hdisjoint : others.Disjoint own) :
    (∀ p ∈ others, h'.read p = h.read p) ∧ others.Disjoint own' := by
  constructor
  · intro p hp
    obtain ⟨a, hread⟩ := hall p hp
    rw [hread, ht.keeps p a (fun hown => hdisjoint hp hown) hread]
  · intro p hp hown'
    obtain ⟨a, hread⟩ := hall p hp
    exact (ht.new p hown').elim (fun hown => hdisjoint hp hown) (fun hfresh => hfresh a hread)

theorem Transfers.alloc (h : Heap α) (a : α) (own : List Addr) :
    Transfers h own (h.alloc a).2 ((h.alloc a).1 :: own) := by
  constructor
  · exact fun p b _ hread => Heap.read_alloc_of_ok hread a
  · intro p hp
    rcases List.mem_cons.mp hp with rfl | hp
    · exact .inr fun b => h.alloc_fresh a b
    · exact .inl hp

/-- An owner of more. -/
theorem Transfers.more_right (ht : Transfers h own h' own') (rest : List Addr) :
    Transfers h (own ++ rest) h' (own' ++ rest) := by
  constructor
  · exact fun p a hp => ht.keeps p a fun hown => hp (List.mem_append_left _ hown)
  · intro p hp
    rcases List.mem_append.mp hp with hp | hp
    · exact (ht.new p hp).imp_left (List.mem_append_left _)
    · exact .inl (List.mem_append_right _ hp)

theorem Transfers.more_left (ht : Transfers h own h' own') (rest : List Addr) :
    Transfers h (rest ++ own) h' (rest ++ own') := by
  constructor
  · exact fun p a hp => ht.keeps p a fun hown => hp (List.mem_append_right _ hown)
  · intro p hp
    rcases List.mem_append.mp hp with hp | hp
    · exact .inl (List.mem_append_left _ hp)
    · exact (ht.new p hp).imp_left (List.mem_append_right _)

/-- Changes inside what is owned. -/
theorem Transfers.inside (hsame : ∀ q, q ∉ own → h'.read q = h.read q) (hsub : own' ⊆ own) :
    Transfers h own h' own' :=
  ⟨fun p a hp hread => by rw [hsame p hp, hread], fun p hp => .inl (hsub hp)⟩

end ownership

section segment

variable {ε : Type} (addr : ε → Addr) (cell : ε → Option Addr → Prop)

/-- A linked list from pointer `p` to pointer `q` over the elements of a list; `cell e next` says
that element `e` is in memory and links to `next`. -/
def Segment : Option Addr → List ε → Option Addr → Prop
  | p, [], q => p = q
  | p, e :: es, q => p = some (addr e) ∧ ∃ next, cell e next ∧ Segment next es q

variable {addr cell} {cell' : ε → Option Addr → Prop} {es es' : List ε}

theorem segment_append {p r : Option Addr} : Segment addr cell p (es ++ es') r ↔
    ∃ q, Segment addr cell p es q ∧ Segment addr cell q es' r := by
  induction es generalizing p with
  | nil => exact ⟨fun h => ⟨p, rfl, h⟩, fun ⟨q, hq, h⟩ => hq ▸ h⟩
  | cons e es ih =>
    constructor
    · rintro ⟨hp, next, hcell, h⟩
      obtain ⟨q, h, h'⟩ := ih.mp h
      exact ⟨q, ⟨hp, next, hcell, h⟩, h'⟩
    · rintro ⟨q, ⟨hp, next, hcell, h⟩, h'⟩
      exact ⟨hp, next, hcell, ih.mpr ⟨q, h, h'⟩⟩

/-- A list whose elements stay in memory as they are stays a list. -/
theorem Segment.imp {p q : Option Addr} (h : Segment addr cell p es q)
    (hcell : ∀ e ∈ es, ∀ next, cell e next → cell' e next) : Segment addr cell' p es q := by
  induction es generalizing p with
  | nil => exact h
  | cons e es ih =>
    obtain ⟨hp, next, he, h⟩ := h
    exact ⟨hp, next, hcell e List.mem_cons_self next he,
      ih h fun e' he' => hcell e' (List.mem_cons_of_mem _ he')⟩

end segment

end CheckedHeap
