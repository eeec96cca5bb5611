import Mathlib.Data.List.Basic
import Mathlib.Data.List.Forall2
import Mathlib.Data.List.TakeDrop

/-!
# Fixed-size arrays with checked accesses

An array of `n` elements is a list that carries its length. Every read and
every block copy returns in `Checked`: an access outside the array, a length
that would go below zero, a pointer into released memory or a loop that does
not end is a `Fault`, never a default value. A program that returns `ok` has
made no such step.
-/
namespace CheckedMemory

inductive Fault where
  | outOfBounds | negative | released | endless
  deriving DecidableEq, Repr

abbrev Checked (α : Type) := Except Fault α

@[simp] theorem bind_ok {α β : Type} (a : α) (f : α → Checked β) :
    ((Except.ok a : Checked α) >>= f) = f a := rfl
@[simp] theorem bind_error {α β : Type} (e : Fault) (f : α → Checked β) :
    ((Except.error e : Checked α) >>= f) = Except.error e := rfl
@[simp] theorem pure_ok {α : Type} (a : α) : (pure a : Checked α) = Except.ok a := rfl

/-- A sequence returns exactly when its first step does and the rest does from there. -/
theorem bind_eq_ok {α β : Type} {x : Checked α} {f : α → Checked β} {b : β} :
    (x >>= f) = Except.ok b ↔ ∃ a, x = Except.ok a ∧ f a = Except.ok b := by
  cases x with
  | error e => simp
  | ok a => simp

theorem map_eq_ok {α β : Type} {x : Checked α} {f : α → β} {b : β} (h : x.map f = .ok b) :
    ∃ a, x = .ok a ∧ f a = b := by
  cases x with
  | error e => cases h
  | ok a => exact ⟨a, rfl, Except.ok.inj h⟩

/-- A sequence ends in a fault only if one of its steps does. -/
theorem bind_ne_error {α β : Type} {x : Checked α} {f : α → Checked β} {e : Fault}
    (hx : x ≠ .error e) (hf : ∀ a, x = .ok a → f a ≠ .error e) : (x >>= f) ≠ .error e := by
  cases x with
  | error e' => exact fun h => hx (Except.error.inj h ▸ rfl)
  | ok a => exact hf a rfl

/-- A computation returns exactly under a condition, and what it returns is as stated. -/
structure Returns {α : Type} (x : Checked α) (cond : Prop) (post : α → Prop) : Prop where
  returns : (∃ a, x = .ok a) ↔ cond
  result : ∀ a, x = .ok a → post a

/-- What follows such a computation may use what is stated of its result. -/
theorem Returns.bind_iff {α β : Type} {x : Checked α} {cond P : Prop} {post : α → Prop}
    (h : Returns x cond post) {f : α → Checked β} {good : β → Prop}
    (hf : ∀ a, post a → ((∃ b, f a = .ok b ∧ good b) ↔ P)) :
    (∃ b, (x >>= f) = .ok b ∧ good b) ↔ cond ∧ P := by
  constructor
  · rintro ⟨b, hb, hgood⟩
    obtain ⟨a, ha, hfa⟩ := bind_eq_ok.mp hb
    exact ⟨h.returns.mp ⟨a, ha⟩, (hf a (h.result a ha)).mp ⟨b, hfa, hgood⟩⟩
  · rintro ⟨hcond, hP⟩
    obtain ⟨a, ha⟩ := h.returns.mpr hcond
    obtain ⟨b, hb, hgood⟩ := (hf a (h.result a ha)).mpr hP
    exact ⟨b, by rw [ha, bind_ok, hb], hgood⟩

/-- One computation after the other. -/
theorem Returns.bind {α β : Type} {x : Checked α} {cond cond' : Prop} {post : α → Prop}
    {post' : β → Prop} (h : Returns x cond post) {f : α → Checked β}
    (hf : ∀ a, post a → Returns (f a) cond' post') : Returns (x >>= f) (cond ∧ cond') post' := by
  constructor
  · have hnext : ∀ a, post a → ((∃ b, f a = .ok b ∧ True) ↔ cond') := fun a ha => by
      simpa using (hf a ha).returns
    simpa using h.bind_iff hnext
  · intro b hb
    obtain ⟨a, ha, hfa⟩ := bind_eq_ok.mp hb
    exact (hf a (h.result a ha)).result b hfa

theorem Returns.map {α β : Type} {x : Checked α} {cond : Prop} {post : α → Prop}
    {post' : β → Prop} (h : Returns x cond post) {g : α → β} (hg : ∀ a, post a → post' (g a)) :
    Returns (x >>= fun a => pure (g a)) cond post' := by
  constructor
  · rw [← h.returns]
    constructor
    · rintro ⟨b, hb⟩
      obtain ⟨a, ha, -⟩ := bind_eq_ok.mp hb
      exact ⟨a, ha⟩
    · rintro ⟨a, ha⟩
      exact ⟨g a, by rw [ha]; rfl⟩
  · intro b hb
    obtain ⟨a, ha, hga⟩ := bind_eq_ok.mp hb
    cases hga
    exact hg a (h.result a ha)

/-- What holds of all entries, and of the one that is put in the place of another. -/
theorem forall_mem_set {α : Type} {P : α → Prop} {xs : List α} (h : ∀ x ∈ xs, P x) (i : Nat)
    {y : α} (hy : P y) : ∀ x ∈ xs.set i y, P x := by
  intro x hx
  rcases List.mem_or_eq_of_mem_set hx with hold | rfl
  · exact h x hold
  · exact hy

/-- A step of one entry keeps what holds of all of them. -/
theorem forall_mem_set_of {α : Type} {P : α → Prop} {xs : List α} (h : ∀ x ∈ xs, P x) {i : Nat}
    {x y : α} (hx : xs[i]? = some x) (hstep : P x → P y) : ∀ z ∈ xs.set i y, P z :=
  forall_mem_set h i (hstep (h x (List.mem_of_getElem? hx)))

/-- A loop that treats each element returns when it returns for each of them. -/
theorem mapM_eq_ok {α β : Type} {f : α → Checked β} {xs : List α} {ys : List β} :
    xs.mapM f = .ok ys ↔ List.Forall₂ (fun a b => f a = .ok b) xs ys := by
  induction xs generalizing ys with
  | nil => simp [eq_comm]
  | cons a xs ih =>
    rw [List.mapM_cons, bind_eq_ok, List.forall₂_cons_left_iff]
    constructor
    · rintro ⟨b, hb, h⟩
      obtain ⟨bs, hbs, h⟩ := bind_eq_ok.mp h
      exact ⟨b, bs, hb, ih.mp hbs, (Except.ok.inj h).symm⟩
    · rintro ⟨b, bs, hb, hbs, rfl⟩
      exact ⟨b, hb, by rw [ih.mpr hbs]; rfl⟩

theorem mapM_mem {α β : Type} {f : α → Checked β} {xs : List α} {ys : List β}
    (h : xs.mapM f = .ok ys) {a : α} (ha : a ∈ xs) : ∃ b ∈ ys, f a = .ok b := by
  have hall := mapM_eq_ok.mp h
  clear h
  induction hall with
  | nil => cases ha
  | @cons x y xs ys hxy _ ih =>
    rcases List.mem_cons.mp ha with rfl | ha
    · exact ⟨y, List.mem_cons_self, hxy⟩
    · obtain ⟨b, hb, hf⟩ := ih ha
      exact ⟨b, List.mem_cons_of_mem _ hb, hf⟩

theorem mem_of_mapM {α β : Type} {f : α → Checked β} {xs : List α} {ys : List β}
    (h : xs.mapM f = .ok ys) {b : β} (hb : b ∈ ys) : ∃ a ∈ xs, f a = .ok b := by
  have hall := mapM_eq_ok.mp h
  clear h
  induction hall with
  | nil => cases hb
  | @cons x y xs ys hxy _ ih =>
    rcases List.mem_cons.mp hb with rfl | hb
    · exact ⟨x, List.mem_cons_self, hxy⟩
    · obtain ⟨a, ha, hf⟩ := ih hb
      exact ⟨a, List.mem_cons_of_mem _ ha, hf⟩

/-- A loop that looks at each element returns when it does for each. -/
theorem mapM_ok_iff {α β : Type} {f : α → Checked β} {xs : List α} :
    (∃ ys, xs.mapM f = .ok ys) ↔ ∀ x ∈ xs, ∃ y, f x = .ok y := by
  induction xs with
  | nil => exact iff_of_true ⟨[], rfl⟩ (by simp)
  | cons x xs ih =>
    rw [List.forall_mem_cons, ← ih, List.mapM_cons]
    constructor
    · rintro ⟨ys, h⟩
      obtain ⟨y, hy, h⟩ := bind_eq_ok.mp h
      obtain ⟨ys', hys, -⟩ := bind_eq_ok.mp h
      exact ⟨⟨y, hy⟩, ys', hys⟩
    · rintro ⟨⟨y, hy⟩, ys, hys⟩
      exact ⟨y :: ys, by rw [hy, bind_ok, hys]; rfl⟩

theorem mapM_eq_map {α β : Type} {f : α → Checked β} {g : α → β} {xs : List α}
    (h : ∀ x ∈ xs, f x = .ok (g x)) : xs.mapM f = .ok (xs.map g) := by
  induction xs with
  | nil => rfl
  | cons x xs ih =>
    rw [List.mapM_cons, h x List.mem_cons_self, bind_ok,
      ih fun y hy => h y (List.mem_cons_of_mem _ hy)]
    rfl

/-- A condition on each element and on what the elements before it have made of a value. -/
def Throughout {σ α : Type} (cond : σ → α → Prop) (next : σ → α → σ) : σ → List α → Prop
  | _, [] => True
  | s, a :: as => cond s a ∧ Throughout cond next (next s a) as

/-- What does not depend on the value holds of each element. -/
theorem throughout_and {σ α : Type} {fixed : α → Prop} {cond : σ → α → Prop} {next : σ → α → σ}
    {s : σ} {as : List α} :
    Throughout (fun s a => fixed a ∧ cond s a) next s as ↔
      (∀ a ∈ as, fixed a) ∧ Throughout cond next s as := by
  induction as generalizing s with
  | nil => simp [Throughout]
  | cons a as ih =>
    rw [Throughout, Throughout, List.forall_mem_cons, ih]
    exact and_and_and_comm

/-- A loop returns exactly when each of its steps does, at what the steps before it have left.
What a step looks at is a part of the state, and an invariant may be used. -/
theorem foldlM_ok_iff {σ α β : Type} {f : β → α → Checked β} (Inv : β → Prop) (view : β → σ)
    {cond : σ → α → Prop} {next : σ → α → σ} {as : List α}
    (hstep : ∀ b, Inv b → ∀ a ∈ as, (∃ b', f b a = .ok b') ↔ cond (view b) a)
    (hnext : ∀ b, Inv b → ∀ a ∈ as, ∀ b', f b a = .ok b' → Inv b' ∧ view b' = next (view b) a)
    {b : β} (hb : Inv b) :
    (∃ b', as.foldlM f b = .ok b') ↔ Throughout cond next (view b) as := by
  induction as generalizing b with
  | nil => exact iff_of_true ⟨b, rfl⟩ trivial
  | cons a as ih =>
    have hrest := fun b₁ => @ih (fun b hb a ha => hstep b hb a (List.mem_cons_of_mem _ ha))
      (fun b hb a ha => hnext b hb a (List.mem_cons_of_mem _ ha)) b₁
    rw [List.foldlM_cons, Throughout, ← hstep b hb a List.mem_cons_self]
    constructor
    · rintro ⟨b', h⟩
      obtain ⟨b₁, hfirst, h⟩ := bind_eq_ok.mp h
      obtain ⟨hinv, hview⟩ := hnext b hb a List.mem_cons_self b₁ hfirst
      exact ⟨⟨b₁, hfirst⟩, hview ▸ (hrest b₁ hinv).mp ⟨b', h⟩⟩
    · rintro ⟨⟨b₁, hfirst⟩, h⟩
      obtain ⟨hinv, hview⟩ := hnext b hb a List.mem_cons_self b₁ hfirst
      obtain ⟨b', h⟩ := (hrest b₁ hinv).mpr (hview ▸ h)
      exact ⟨b', by rw [hfirst, bind_ok, h]⟩

/-- What a loop leaves of the part that its steps look at. -/
theorem foldlM_view {σ α β : Type} {f : β → α → Checked β} (Inv : β → Prop) (view : β → σ)
    {next : σ → α → σ} {as : List α}
    (hnext : ∀ b, Inv b → ∀ a ∈ as, ∀ b', f b a = .ok b' → Inv b' ∧ view b' = next (view b) a)
    {b b' : β} (hb : Inv b) (h : as.foldlM f b = .ok b') :
    Inv b' ∧ view b' = as.foldl next (view b) := by
  induction as generalizing b with
  | nil =>
    cases h
    exact ⟨hb, rfl⟩
  | cons a as ih =>
    rw [List.foldlM_cons] at h
    obtain ⟨b₁, hfirst, h⟩ := bind_eq_ok.mp h
    obtain ⟨hinv, hview⟩ := hnext b hb a List.mem_cons_self b₁ hfirst
    rw [List.foldl_cons, ← hview]
    exact ih (fun b hb a ha => hnext b hb a (List.mem_cons_of_mem _ ha)) hinv h

/-- Subtraction of lengths: a negative result is a fault. -/
def subtract (a b : Nat) : Checked Nat := if b ≤ a then .ok (a - b) else .error .negative

theorem subtract_ok {a b : Nat} (h : b ≤ a) : subtract a b = .ok (a - b) := by
  simp [subtract, h]

variable {α : Type} {n : Nat}

/-- An array of exactly `n` elements. -/
@[ext] structure Buffer (α : Type) (n : Nat) where
  cells : List α
  size : cells.length = n
  deriving DecidableEq

def Buffer.fill (n : Nat) (a : α) : Buffer α n := ⟨List.replicate n a, List.length_replicate⟩

@[simp] theorem Buffer.length_cells (b : Buffer α n) : b.cells.length = n := b.size

def Buffer.read (b : Buffer α n) (i : Nat) : Checked α :=
  match b.cells[i]? with
  | some a => .ok a
  | none => .error .outOfBounds

/-- The `len` elements from index `i` on, as a block copy reads them. -/
def Buffer.slice (b : Buffer α n) (i len : Nat) : Checked (List α) :=
  if i + len ≤ n then .ok ((b.cells.drop i).take len) else .error .outOfBounds

/-- Overwrite `xs` from index `i` on. -/
def splice (xs : List α) (i : Nat) (src : List α) : List α :=
  xs.take i ++ src ++ xs.drop (i + src.length)

theorem length_splice {xs src : List α} {i : Nat} (h : i + src.length ≤ xs.length) :
    (splice xs i src).length = xs.length := by
  simp [splice]
  omega

/-- Copy the block `src` to index `i`. -/
def Buffer.write (b : Buffer α n) (i : Nat) (src : List α) : Checked (Buffer α n) :=
  if h : i + src.length ≤ n then
    .ok ⟨splice b.cells i src, by rw [length_splice (by rw [b.size]; exact h), b.size]⟩
  else .error .outOfBounds

theorem Buffer.slice_ok (b : Buffer α n) {i len : Nat} (h : i + len ≤ n) :
    b.slice i len = .ok ((b.cells.drop i).take len) := by simp [slice, h]

theorem Buffer.read_ok (b : Buffer α n) {i : Nat} {a : α} (h : b.cells[i]? = some a) :
    b.read i = .ok a := by simp [read, h]

theorem Buffer.read_eq_ok {b : Buffer α n} {i : Nat} {a : α} :
    b.read i = .ok a ↔ b.cells[i]? = some a := by
  rw [read]
  cases b.cells[i]? <;> simp

theorem Buffer.read_ne_endless (b : Buffer α n) (i : Nat) : b.read i ≠ .error .endless := by
  rw [read]
  split <;> simp

theorem Buffer.slice_ne_endless (b : Buffer α n) (i len : Nat) :
    b.slice i len ≠ .error .endless := by
  rw [slice]
  split <;> simp

/-- A block that lies between two others is read where it lies. -/
theorem Buffer.slice_middle (b : Buffer α n) {xs ys zs : List α} {i len : Nat}
    (h : b.cells = xs ++ (ys ++ zs)) (hi : xs.length = i) (hlen : ys.length = len) :
    b.slice i len = .ok ys := by
  have hsize := congrArg List.length h
  simp only [length_cells, List.length_append] at hsize
  subst hi hlen
  rw [slice_ok b (by omega), h, List.drop_left, List.take_left]

theorem Buffer.read_middle (b : Buffer α n) {xs ys : List α} {i j : Nat} {a : α}
    (h : b.cells = xs ++ ys) (hi : xs.length + j = i) (ha : ys[j]? = some a) :
    b.read i = .ok a := by
  subst hi
  refine read_ok b ?_
  rw [h, List.getElem?_append_right (Nat.le_add_right _ _), Nat.add_sub_cancel_left, ha]

/-- The array after a block copy that stays inside it. -/
theorem Buffer.write_ok (b : Buffer α n) (i : Nat) (src : List α) (h : i + src.length ≤ n) :
    ∃ b', b.write i src = .ok b' ∧ b'.cells = splice b.cells i src := by
  simp [write, h]

theorem Buffer.write_eq_ok {b b' : Buffer α n} {i : Nat} {src : List α}
    (h : b.write i src = .ok b') : b'.cells = splice b.cells i src := by
  rw [write] at h
  split at h
  · rw [← Except.ok.inj h]
  · cases h

theorem Buffer.write_ne_endless (b : Buffer α n) (i : Nat) (src : List α) :
    b.write i src ≠ .error .endless := by
  rw [write]
  split <;> simp

theorem Buffer.write_ok_iff (b : Buffer α n) (i : Nat) (src : List α) :
    (∃ b', b.write i src = .ok b') ↔ i + src.length ≤ n := by
  rw [write]
  split <;> simp [*]

/-- Everything below the end of a block copy: the old prefix, then the block. -/
theorem take_splice {xs src : List α} {i k : Nat} (hi : i ≤ xs.length) (hk : k = i + src.length) :
    (splice xs i src).take k = xs.take i ++ src := by
  subst hk
  have hl : (xs.take i ++ src).length = i + src.length := by simp; omega
  rw [splice, ← hl, List.take_left]

theorem take_splice_zero (xs src : List α) : (splice xs 0 src).take src.length = src := by
  rw [take_splice (Nat.zero_le _) (by simp)]
  simp

/-- The copied block is read back where it was written. -/
theorem take_drop_splice {xs src : List α} {i k : Nat} (hi : i ≤ xs.length)
    (hk : k = src.length) : ((splice xs i src).drop i).take k = src := by
  rw [List.take_drop, take_splice hi (by rw [hk]), List.drop_append_of_le_length (by simp [hi])]
  simp

/-- A block copy leaves what stands before it. -/
theorem take_splice_of_le {xs src : List α} {i k : Nat} (hk : k ≤ i) (hi : i ≤ xs.length) :
    (splice xs i src).take k = xs.take k := by
  rw [splice, List.append_assoc, List.take_append_of_le_length (by simp; omega), List.take_take]
  congr 1
  omega

@[simp] theorem splice_nil (xs : List α) (i : Nat) : splice xs i [] = xs := by
  simp [splice]

theorem splice_singleton {xs : List α} {i : Nat} (h : i < xs.length) (a : α) :
    splice xs i [a] = xs.set i a := by
  rw [List.set_eq_take_append_cons_drop, if_pos h]
  simp [splice]

theorem Buffer.read_lt (b : Buffer α n) {i : Nat} (h : i < n) :
    ∃ a, b.read i = .ok a ∧ b.cells[i]? = some a := by
  have hlt : i < b.cells.length := by rwa [b.length_cells]
  exact ⟨b.cells[i], b.read_ok (List.getElem?_eq_getElem hlt), List.getElem?_eq_getElem hlt⟩

/-- One cell is written and the others stay. -/
theorem Buffer.write_cell (b : Buffer α n) {i : Nat} (a : α) (h : i < n) :
    ∃ b', b.write i [a] = .ok b' ∧ b'.cells[i]? = some a ∧
      ∀ j, j ≠ i → b'.cells[j]? = b.cells[j]? := by
  obtain ⟨b', hwrite, hcells⟩ := b.write_ok i [a] (by rw [List.length_singleton]; omega)
  rw [splice_singleton (by rwa [b.length_cells])] at hcells
  refine ⟨b', hwrite, ?_, fun j hj => ?_⟩
  · rw [hcells, List.getElem?_set_self (by rwa [b.length_cells])]
  · rw [hcells, List.getElem?_set_ne (Ne.symm hj)]

/-- A block copy right behind another one. -/
theorem splice_splice {xs src more : List α} {i : Nat} (hi : i + src.length ≤ xs.length) :
    splice (splice xs i src) (i + src.length) more = splice xs i (src ++ more) := by
  have hdrop : (splice xs i src).drop (i + src.length + more.length) =
      xs.drop (i + src.length + more.length) := by
    have hlen : (xs.take i ++ src).length = i + src.length := by simp; omega
    rw [splice, List.drop_append, hlen, List.drop_of_length_le (by omega), List.nil_append,
      List.drop_drop]
    congr 1
    omega
  rw [splice, take_splice (by omega) rfl, hdrop, splice, List.length_append, Nat.add_assoc]
  simp only [List.append_assoc]

/-- A block copy right before another one. -/
theorem splice_before {xs src more : List α} {i : Nat} (hi : i + src.length ≤ xs.length) :
    splice (splice xs (i + src.length) more) i src =
      xs.take i ++ (src ++ (more ++ xs.drop (i + src.length + more.length))) := by
  have hlen : (xs.take (i + src.length)).length = i + src.length := by simp; omega
  have hdrop : (splice xs (i + src.length) more).drop (i + src.length) =
      more ++ xs.drop (i + src.length + more.length) := by
    conv_lhs => rw [← hlen]
    rw [splice, List.append_assoc, hlen, List.drop_left' hlen]
  rw [splice, take_splice_of_le (by omega) (by omega), hdrop, List.append_assoc]

/-- A block copy over as many elements as it has. -/
theorem splice_middle (xs ys zs src : List α) (h : src.length = ys.length) :
    splice (xs ++ (ys ++ zs)) xs.length src = xs ++ (src ++ zs) := by
  rw [splice, List.take_left, h, List.append_assoc, ← List.drop_drop, List.drop_left,
    List.drop_left]

/-- A block copy into the first part of a list leaves the rest. -/
theorem splice_left {xs ys src : List α} {i : Nat} (h : i + src.length ≤ xs.length) :
    splice (xs ++ ys) i src = splice xs i src ++ ys := by
  rw [splice, splice, List.take_append_of_le_length (by omega), List.drop_append_of_le_length h,
    List.append_assoc, List.append_assoc, List.append_assoc]

theorem Buffer.write_left (b : Buffer α n) {xs ys : List α} (h : b.cells = xs ++ ys) (i : Nat)
    (src : List α) (hi : i + src.length ≤ xs.length) :
    ∃ b', b.write i src = .ok b' ∧ b'.cells = splice xs i src ++ ys := by
  have hsize := congrArg List.length h
  rw [b.length_cells, List.length_append] at hsize
  obtain ⟨b', hwrite, hcells⟩ := b.write_ok i src (by omega)
  rw [h, splice_left hi] at hcells
  exact ⟨b', hwrite, hcells⟩

end CheckedMemory
