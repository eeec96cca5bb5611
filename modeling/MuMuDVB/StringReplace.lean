import MuMuDVB.NameTemplate

/-!
# The memory of mumu_string_replace

The text is copied to a temporary block, which is made larger when it has to be
and in which the occurrences of the pattern are replaced one after the other.
The result is copied back to the source, as far as it fits or to a larger
block. Blocks of memory have a size, and every access to one is checked.
-/
namespace MuMuDVB.StringReplace

open CheckedMemory CString FuelLoop StringRewriting

/-- A block of memory. -/
structure Block where
  size : Nat
  cells : Buffer UInt8 size

/-- What `malloc` and `realloc` have for the calls one after the other: nothing, or a block with
whatever is in it. -/
abbrev Memory := Nat → (n : Nat) → Option (Buffer UInt8 n)

/-- An `int` as a number of bytes. -/
def sizeT (i : Int) : Nat := (i % 2 ^ 64).toNat

/-- A position in a block; there is none before its first byte. -/
def position (i : Int) : Checked Nat := if 0 ≤ i then .ok i.toNat else .error .outOfBounds

namespace Block

variable (block : Block)

/-- The string that the block holds. -/
def text : Checked (List UInt8) := cstring block.cells.cells

def write (i : Int) (src : List UInt8) : Checked Block := do
  let i ← position i
  let cells ← block.cells.write i src
  return ⟨block.size, cells⟩

def memmove (dest src : Int) (n : Nat) : Checked Block := do
  let i ← position src
  let moved ← block.cells.slice i n
  block.write dest moved

def strcpy (src : Block) : Checked Block := do
  let s ← src.text
  block.write 0 (s ++ [0])

def strncpy (src : Block) (n : Nat) : Checked Block := do
  let s ← CString.strncpy n src.cells.cells
  block.write 0 s

theorem length_kept {n m : Nat} (fresh : Buffer UInt8 n) (old : Buffer UInt8 m) :
    (old.cells.take n ++ fresh.cells.drop m).length = n := by
  simp
  omega

end Block

def malloc (memory : Memory) (call n : Nat) : Option Block := (memory call n).map (⟨n, ·⟩)

/-- What fits of the old block is kept. -/
def realloc (memory : Memory) (call : Nat) (old : Block) (n : Nat) : Option Block :=
  (memory call n).map fun fresh =>
    ⟨n, old.cells.cells.take n ++ fresh.cells.drop old.size, Block.length_kept fresh old.cells⟩

/-- The first `n` bytes of a string and its terminator. -/
def copied (s : List UInt8) (n : Nat) : Checked (List UInt8) :=
  if n ≤ s.length + 1 then .ok ((s ++ [0]).take n) else .error .outOfBounds

/-- `tempstring` and `lengthtempstring`, and how many blocks were asked for so far. -/
structure Temp where
  tempstring : Block
  lengthtempstring : Int
  calls : Nat

/-- What a call of `mumu_string_replace` leaves. -/
structure Replaced where
  /-- The result is not NULL. -/
  success : Bool
  source : Block
  length : Int

section replace

variable (memory : Memory) (toreplace replacement : List UInt8)

def lengthpattern : Int := int toreplace.length

def lengthreplacment : Int := int replacement.length

/-- The temporary block with room for one more replacement, and where the pattern is in it. -/
def growTemp (temp : Temp) (pospattern : Nat) : Checked (Option (Temp × Nat)) :=
  if lengthpattern toreplace < lengthreplacment replacement then
    match realloc memory temp.calls temp.tempstring (sizeT (int
        (temp.lengthtempstring + lengthreplacment replacement - lengthpattern toreplace + 1))) with
    | none => return none
    | some tempstring => do
      let text ← tempstring.text
      match strstr toreplace text with
      | none => .error .outOfBounds
      | some pospattern =>
        return some ({ temp with tempstring, calls := temp.calls + 1 }, pospattern)
  else return some (temp, pospattern)

/-- One turn of the loop; it is left with nothing when `realloc` fails. -/
def replaceTurn (temp : Temp) : Checked (Turn Temp (Option Temp)) := do
  let text ← temp.tempstring.text
  match strstr toreplace text with
  | none => return .done (some temp)
  | some pospattern =>
    match ← growTemp memory toreplace replacement temp pospattern with
    | none => return .done none
    | some (temp, pospattern) =>
      let tempstring ← temp.tempstring.memmove (pospattern + lengthreplacment replacement)
        (pospattern + lengthpattern toreplace)
        (sizeT (int (temp.lengthtempstring - int pospattern - lengthpattern toreplace)))
      let replacing ← copied replacement (sizeT (lengthreplacment replacement))
      let tempstring ← tempstring.write pospattern replacing
      return .again { temp with
        tempstring
        lengthtempstring := int (temp.lengthtempstring +
          (lengthreplacment replacement - lengthpattern toreplace)) }

/-- The result goes to the source, a larger block or as much as fits. -/
def copyBack (temp : Temp) (source : Block) (length : Int) (canRealloc : Bool) :
    Checked Replaced := do
  let tempstring ← temp.tempstring.write (temp.lengthtempstring - 1) [0]
  if canRealloc then
    if length < temp.lengthtempstring then
      match realloc memory temp.calls source (sizeT temp.lengthtempstring) with
      | none => return ⟨false, source, length⟩
      | some source =>
        let source ← source.strcpy tempstring
        return ⟨true, source, temp.lengthtempstring⟩
    else
      let source ← source.strcpy tempstring
      return ⟨true, source, length⟩
  else if temp.lengthtempstring ≤ length then
    let source ← source.strcpy tempstring
    return ⟨true, source, length⟩
  else
    let source ← source.strncpy tempstring (sizeT (length - 1))
    let source ← source.write (length - 1) [0]
    return ⟨true, source, length⟩

/-- `mumu_string_replace`, whose loop is given `fuel` turns. -/
def mumuStringReplace (fuel : Nat) (source : Block) (length : Int) (canRealloc : Bool) :
    Checked Replaced := do
  let text ← source.text
  match strstr toreplace text with
  | none => return ⟨true, source, length⟩
  | some _ =>
    let lengthtempstring := int (int text.length + 1)
    match malloc memory 0 (sizeT lengthtempstring) with
    | none => return ⟨false, source, length⟩
    | some tempstring =>
      let tempstring ← tempstring.strcpy source
      match ← run (replaceTurn memory toreplace replacement) fuel
          ⟨tempstring, lengthtempstring, 1⟩ with
      | none => return ⟨false, source, length⟩
      | some temp => copyBack memory temp source length canRealloc

end replace

/-! ## Where the pattern is -/

section strstr

variable {p t a b : List UInt8}

/-- What is found is the first occurrence. -/
theorem strstr_first {pos : Nat} (h : strstr p t = some pos) :
    ∃ a b, t = a ++ (p ++ b) ∧ a.length = pos ∧ Before p a (p ++ b) := by
  induction t generalizing pos with
  | nil =>
    rw [strstr] at h
    split at h
    case isTrue hnil =>
      cases h
      exact ⟨[], [], by rw [hnil]; rfl, rfl, sealed_nil.before _⟩
    case isFalse => cases h
  | cons c t ih =>
    rw [strstr] at h
    split at h
    case isTrue hhead =>
      cases h
      obtain ⟨b, hb⟩ := hhead
      exact ⟨[], b, hb.symm, rfl, sealed_nil.before _⟩
    case isFalse hhead =>
      obtain ⟨pos, hpos, rfl⟩ := Option.map_eq_some_iff.mp h
      obtain ⟨a, b, rfl, rfl, hbefore⟩ := ih hpos
      refine ⟨c :: a, b, rfl, rfl, fun s hs hne => ?_⟩
      rcases List.suffix_cons_iff.mp hs with rfl | hs
      · exact hhead
      · exact hbefore s hs hne

/-- Nothing is found in what is sealed. -/
theorem strstr_sealed (h : Sealed p a) (t : List UInt8) :
    strstr p (a ++ t) = (strstr p t).map (a.length + ·) := by
  induction a with
  | nil => simp
  | cons c a ih =>
    have hhead : ¬ p <+: c :: (a ++ t) := h _ t List.suffix_rfl (List.cons_ne_nil _ _)
    rw [List.cons_append, strstr, if_neg hhead, ih h.tail, Option.map_map, List.length_cons]
    congr 1
    funext pos
    simp only [Function.comp_apply]
    omega

end strstr

/-! ## Strings in blocks -/

section blocks

variable {block : Block} {s p r a b : List UInt8}

theorem position_ok (n : Nat) : position n = .ok n := if_pos (by omega)

theorem sizeT_of_fits {i : Int} {n : Nat} (hi : i = n) (hn : n < 2 ^ 31) : sizeT i = n := by
  subst hi
  rw [sizeT, Int.emod_eq_of_lt (by omega) (by omega), Int.toNat_natCast]

theorem Block.text_eq_ok :
    block.text = .ok s ↔ 0 ∉ s ∧ ∃ rest, block.cells.cells = s ++ 0 :: rest := cstring_eq_ok

theorem Block.size_of_text (h : block.text = .ok s) : s.length + 1 ≤ block.size := by
  obtain ⟨-, rest, hcells⟩ := text_eq_ok.mp h
  have hsize := congrArg List.length hcells
  rw [Buffer.length_cells, List.length_append, List.length_cons] at hsize
  omega

theorem Block.write_ok (block : Block) (i : Nat) (src : List UInt8)
    (h : i + src.length ≤ block.size) :
    ∃ block', block.write i src = .ok block' ∧ block'.size = block.size ∧
      block'.cells.cells = splice block.cells.cells i src := by
  obtain ⟨cells, hwrite, hcells⟩ := block.cells.write_ok i src h
  refine ⟨⟨block.size, cells⟩, ?_, rfl, hcells⟩
  rw [write, position_ok, bind_ok, hwrite, bind_ok]
  rfl

/-- A string is copied to a block that is large enough for it and its terminator. -/
theorem Block.strcpy_ok (block : Block) {src : Block} (h : src.text = .ok s)
    (hroom : s.length + 1 ≤ block.size) :
    ∃ block', block.strcpy src = .ok block' ∧ block'.size = block.size ∧ block'.text = .ok s := by
  obtain ⟨block', hwrite, hsize, hcells⟩ := block.write_ok 0 (s ++ [0]) (by simpa using hroom)
  refine ⟨block', by rw [strcpy, h, bind_ok]; exact hwrite, hsize, ?_⟩
  obtain ⟨hzero, -⟩ := text_eq_ok.mp h
  refine text_eq_ok.mpr ⟨hzero, block.cells.cells.drop (0 + (s ++ [0]).length), ?_⟩
  rw [hcells, splice, List.take_zero, List.nil_append, List.append_assoc]
  rfl

/-- Of a string that is too long for the block as much is copied as fits, and the terminator comes
last. -/
theorem Block.strncpy_cut (block : Block) {src : Block} (h : src.text = .ok s)
    (hpos : 0 < block.size) (hlong : block.size ≤ s.length) :
    ∃ copied block', block.strncpy src (block.size - 1) = .ok copied ∧
      copied.write (block.size - 1 : Nat) [0] = .ok block' ∧ block'.size = block.size ∧
      block'.text = .ok (s.take (block.size - 1)) := by
  obtain ⟨hzero, rest, hcells⟩ := text_eq_ok.mp h
  have hnone : block.size - 1 - s.length = 0 := by omega
  have hcut : CString.strncpy (block.size - 1) src.cells.cells =
      .ok (s.take (block.size - 1)) := by
    rw [hcells, strncpy_append hzero, hnone, List.replicate_zero, List.append_nil]
  have hlen : (s.take (block.size - 1)).length = block.size - 1 := by
    rw [List.length_take]
    omega
  obtain ⟨copied, hcopy, hsize, hcopied⟩ := 
    block.write_ok 0 (s.take (block.size - 1)) (by omega)
  obtain ⟨block', hend, hsize', hcells'⟩ := 
    copied.write_ok (block.size - 1) [0] (by rw [List.length_singleton]; omega)
  refine ⟨copied, block', ?_, hend, hsize'.trans hsize, ?_⟩
  · rw [strncpy, hcut, bind_ok]
    exact hcopy
  · refine text_eq_ok.mpr ⟨fun hmem => hzero (List.mem_of_mem_take hmem),
      copied.cells.cells.drop (block.size - 1 + [(0 : UInt8)].length), ?_⟩
    rw [hcells', splice, hcopied, take_splice (Nat.zero_le _) (by omega), List.take_zero,
      List.nil_append, List.append_assoc]
    rfl

/-- The end of the text makes room for the replacement, which then takes its place. -/
theorem Block.replace_ok (h : block.text = .ok (a ++ (p ++ b))) (hzero : 0 ∉ r)
    (hroom : a.length + r.length + b.length + 1 ≤ block.size) :
    ∃ moved block', block.memmove (a.length + r.length : Nat) (a.length + p.length : Nat)
        (b.length + 1) = .ok moved ∧
      moved.write a.length r = .ok block' ∧ block'.size = block.size ∧
      block'.text = .ok (a ++ (r ++ b)) := by
  obtain ⟨hfree, rest, hcells⟩ := text_eq_ok.mp h
  rw [List.mem_append, List.mem_append, not_or, not_or] at hfree
  have hsize := congrArg List.length hcells
  simp only [Buffer.length_cells, List.length_append, List.length_cons] at hsize
  have hparts : a ++ (p ++ b) ++ 0 :: rest = (a ++ p) ++ ((b ++ [0]) ++ rest) := by simp
  have hslice : block.cells.slice (a.length + p.length) (b.length + 1) = .ok (b ++ [0]) :=
    block.cells.slice_middle (hcells.trans hparts) (by simp) (by simp)
  obtain ⟨moved, hmoved, hmovedSize, hmovedCells⟩ := 
    block.write_ok (a.length + r.length) (b ++ [0]) (by simp; omega)
  obtain ⟨block', hwrite, hsize', hcells'⟩ := moved.write_ok a.length r (by omega)
  refine ⟨moved, block', ?_, hwrite, hsize'.trans hmovedSize, ?_⟩
  · rw [memmove, position_ok, bind_ok, hslice, bind_ok]
    exact hmoved
  · refine text_eq_ok.mpr ⟨?_, block.cells.cells.drop (a.length + r.length + (b ++ [0]).length), ?_⟩
    · simp only [List.mem_append, not_or]
      exact ⟨hfree.1, hzero, hfree.2.2⟩
    · rw [hcells', hmovedCells, splice_before (by rw [Buffer.length_cells]; omega)]
      have hfront : block.cells.cells.take a.length = a := by
        rw [hcells, List.append_assoc, List.take_left]
      rw [hfront]
      simp only [List.append_assoc, List.singleton_append]

end blocks

/-! ## One turn -/

/-- The temporary block holds the text, and its length is known. -/
structure Holds (temp : Temp) (s : List UInt8) : Prop where
  text : temp.tempstring.text = .ok s
  length : temp.lengthtempstring = s.length + 1

/-- Some block was not given. -/
def Refused (memory : Memory) : Prop := ∃ call n, memory call n = none

section turn

variable {memory : Memory} {p r s a b : List UInt8} {temp : Temp} {n : Nat}

theorem realloc_cases (memory : Memory) (call : Nat) (old : Block) (n : Nat) :
    (Refused memory ∧ realloc memory call old n = none) ∨
      ∃ block, realloc memory call old n = some block ∧ block.size = n ∧
        block.cells.cells.take (min old.size n) = old.cells.cells.take n := by
  cases hfresh : memory call n with
  | none => exact Or.inl ⟨⟨call, n, hfresh⟩, by rw [realloc, hfresh]; rfl⟩
  | some fresh =>
    refine Or.inr ⟨_, by rw [realloc, hfresh]; rfl, rfl, ?_⟩
    have hlen : (old.cells.cells.take n).length = min old.size n := by
      rw [List.length_take, Buffer.length_cells, Nat.min_comm]
    exact List.take_left' hlen

/-- A larger block keeps the string. -/
theorem realloc_text {call : Nat} {old block : Block} (h : old.text = .ok s)
    (hrealloc : realloc memory call old n = some block) (hroom : s.length + 1 ≤ n) :
    block.text = .ok s := by
  obtain ⟨fresh, -, rfl⟩ := Option.map_eq_some_iff.mp hrealloc
  obtain ⟨hzero, rest, hcells⟩ := Block.text_eq_ok.mp h
  refine Block.text_eq_ok.mpr ⟨hzero, rest.take (n - (s.length + 1)) ++
    fresh.cells.drop old.size, ?_⟩
  simp only [hcells, List.take_append, List.take_of_length_le (show s.length ≤ n by omega)]
  have hsucc : n - s.length = n - (s.length + 1) + 1 := by omega
  rw [hsucc, List.take_succ_cons, List.append_assoc]
  rfl

theorem growTemp_cases (memory : Memory) (h : Holds temp (a ++ (p ++ b)))
    (hfound : strstr p (a ++ (p ++ b)) = some a.length)
    (hold : (a ++ (p ++ b)).length + 1 < 2 ^ 31)
    (hnew : p.length < r.length → (a ++ (r ++ b)).length + 2 < 2 ^ 31) :
    (Refused memory ∧ growTemp memory p r temp a.length = .ok none) ∨
      ∃ temp', growTemp memory p r temp a.length = .ok (some (temp', a.length)) ∧
        Holds temp' (a ++ (p ++ b)) ∧ (a ++ (r ++ b)).length + 1 ≤ temp'.tempstring.size := by
  simp only [List.length_append] at hold hnew ⊢
  have hp : lengthpattern p = p.length := int_of_fits (by omega) (by omega)
  have hr' : lengthreplacment r = r.length := int_of_fits (by omega) (by omega)
  have hsize := Block.size_of_text h.text
  simp only [List.length_append] at hsize
  unfold growTemp
  rw [hp, hr']
  by_cases hlt : (p.length : Int) < r.length
  · have hbytes : sizeT (int (temp.lengthtempstring + r.length - p.length + 1)) =
        a.length + r.length + b.length + 2 := by
      have hlength := h.length
      simp only [List.length_append] at hlength
      rw [int_of_fits (by omega) (by omega)]
      exact sizeT_of_fits (by omega) (by omega)
    rw [if_pos hlt, hbytes]
    rcases realloc_cases memory temp.calls temp.tempstring (a.length + r.length + b.length + 2)
      with ⟨hrefused, hnone⟩ | ⟨block, hblock, hblockSize, -⟩
    · exact Or.inl ⟨hrefused, by rw [hnone]; rfl⟩
    · have htext := realloc_text h.text hblock (by simp only [List.length_append]; omega)
      refine Or.inr ⟨{ temp with tempstring := block, calls := temp.calls + 1 }, ?_,
        ⟨htext, h.length⟩, ?_⟩
      · rw [hblock]
        simp only [htext, bind_ok, hfound]
        rfl
      · simp only [hblockSize]
        omega
  · refine Or.inr ⟨temp, by rw [if_neg hlt]; rfl, h, by omega⟩

/-- A turn replaces the first occurrence, unless there is no memory for it. -/
theorem replaceTurn_found (memory : Memory) (h : Holds temp (a ++ (p ++ b)))
    (hfound : strstr p (a ++ (p ++ b)) = some a.length)
    (hold : (a ++ (p ++ b)).length + 1 < 2 ^ 31) (hzero : 0 ∉ r)
    (hnew : p.length < r.length → (a ++ (r ++ b)).length + 2 < 2 ^ 31) :
    (Refused memory ∧ replaceTurn memory p r temp = .ok (.done none)) ∨
      ∃ temp', replaceTurn memory p r temp = .ok (.again temp') ∧ Holds temp' (a ++ (r ++ b)) := by
  unfold replaceTurn
  simp only [h.text, bind_ok, hfound]
  rcases growTemp_cases memory h hfound hold hnew with
    ⟨hrefused, hnone⟩ | ⟨grown, hgrown, hgrownHolds, hroom⟩
  · exact Or.inl ⟨hrefused, by rw [hnone]; rfl⟩
  · right
    have hlength := hgrownHolds.length
    simp only [List.length_append] at hold hnew hroom hlength
    have hp : lengthpattern p = p.length := int_of_fits (by omega) (by omega)
    have hr' : lengthreplacment r = r.length := int_of_fits (by omega) (by omega)
    have hmoved :
        sizeT (int (grown.lengthtempstring - int a.length - p.length)) = b.length + 1 := by
      rw [int_of_fits (i := a.length) (by omega) (by omega), int_of_fits (by omega) (by omega)]
      exact sizeT_of_fits (by omega) (by omega)
    have hcopied : copied r (sizeT r.length) = .ok r := by
      rw [sizeT_of_fits rfl (by omega), copied, if_pos (by omega), List.take_left]
    obtain ⟨moved, block', hmemmove, hwrite, -, htext⟩ := Block.replace_ok hgrownHolds.text hzero
      (by omega)
    refine ⟨_, by
      rw [hgrown]
      simp only [bind_ok, hp, hr', hmoved, hcopied, ← Int.natCast_add, hmemmove, hwrite]
      rfl, htext, ?_⟩
    simp only [List.length_append, hlength]
    rw [int_of_fits (by omega) (by omega)]
    omega

theorem replaceTurn_gone (h : Holds temp s) (hgone : strstr p s = none) :
    replaceTurn memory p r temp = .ok (.done (some temp)) := by
  unfold replaceTurn
  simp only [h.text, bind_ok, hgone]
  rfl

end turn

/-! ## The whole call -/

section call

variable {memory : Memory} {p r s : List UInt8} {source : Block} {canRealloc : Bool}

/-- What is before the first occurrence not yet replaced is sealed, and the loop replaces the ones
behind it. -/
theorem run_replaceTurn (memory : Memory) (hne : p ≠ []) (hrne : r ≠ [])
    (hdisjoint : p.Disjoint r) (hzero : 0 ∉ r) {n : Nat} {t rest : List UInt8} {temp : Temp}
    (hfuel : rest.length < n) (ht : Sealed p t)
    (h : Holds temp (t ++ rest)) (hold : (t ++ rest).length + 1 < 2 ^ 31)
    (hnew : p.length < r.length → (t ++ replaceAll p r rest).length + 2 < 2 ^ 31) :
    (Refused memory ∧ run (replaceTurn memory p r) n temp = .ok none) ∨
      ∃ temp', run (replaceTurn memory p r) n temp = .ok (some temp') ∧
        Holds temp' (t ++ replaceAll p r rest) ∧
        (t ++ replaceAll p r rest).length + 1 < 2 ^ 31 := by
  induction n generalizing t rest temp with
  | zero => omega
  | succ n ih =>
    cases hfound : strstr p rest with
    | none =>
      have hgone : strstr p (t ++ rest) = none := by rw [strstr_sealed ht, hfound]; rfl
      rw [replaceAll_of_not_occurs (strstr_eq_none.mp hfound)]
      refine Or.inr ⟨temp, ?_, h, hold⟩
      rw [run, replaceTurn_gone h hgone]
      rfl
    | some pos =>
      obtain ⟨a, b, rfl, rfl, hbefore⟩ := strstr_first hfound
      have hfoundAll : strstr p (t ++ a ++ (p ++ b)) = some (t ++ a).length := by
        rw [List.append_assoc, strstr_sealed ht, hfound, List.length_append]
        rfl
      rw [replaceAll_first hne hbefore] at hnew ⊢
      have hpos := List.length_pos_of_ne_nil hne
      have hnext : p.length < r.length → (t ++ a ++ (r ++ b)).length + 2 < 2 ^ 31 := by
        intro hlt
        have hb := length_le_replaceAll hne (Nat.le_of_lt hlt) b
        have hall := hnew hlt
        simp only [List.length_append] at hall ⊢
        omega
      rw [← List.append_assoc] at h hold
      have hshort : (t ++ a ++ (r ++ b)).length + 1 < 2 ^ 31 := by
        simp only [List.length_append] at hold hnext ⊢
        omega
      rcases replaceTurn_found memory h hfoundAll hold hzero hnext with
        ⟨hrefused, hdone⟩ | ⟨temp', hagain, hholds⟩
      · exact Or.inl ⟨hrefused, by rw [run, hdone]; rfl⟩
      · have hassoc : ∀ c : List UInt8, t ++ (a ++ (r ++ c)) = t ++ a ++ r ++ c := by simp
        rw [run_again hagain, hassoc]
        rw [hassoc] at hnew
        rw [← List.append_assoc] at hholds hshort
        refine ih ?_ (ht.append hne hrne hdisjoint hbefore) hholds hshort hnew
        simp only [List.length_append] at hfuel
        omega

/-- The text that a call is to leave in the source. -/
def resultText (p r s : List UInt8) (size : Nat) (canRealloc : Bool) : List UInt8 :=
  if canRealloc then replaceAll p r s else (replaceAll p r s).take (size - 1)

/-- The source holds the text with all occurrences replaced, in a block as large as `*length`
says. -/
structure Delivered (p r s : List UInt8) (source : Block) (canRealloc : Bool)
    (replaced : Replaced) : Prop where
  success : replaced.success = true
  text : replaced.source.text = .ok (resultText p r s source.size canRealloc)
  length : replaced.length = replaced.source.size
  size : replaced.source.size =
    if canRealloc then max source.size ((replaceAll p r s).length + 1) else source.size

theorem copyBack_cases {temp : Temp} (h : Holds temp (replaceAll p r s))
    (hsource : source.text = .ok s) (hlength : source.size < 2 ^ 31)
    (hnew : (replaceAll p r s).length + 1 < 2 ^ 31) :
    (Refused memory ∧
      copyBack memory temp source source.size canRealloc = .ok ⟨false, source, source.size⟩) ∨
      ∃ replaced, copyBack memory temp source source.size canRealloc = .ok replaced ∧
        Delivered p r s source canRealloc replaced := by
  generalize hresult : replaceAll p r s = t at h hnew
  obtain ⟨hzero, rest, hcells⟩ := Block.text_eq_ok.mp h.text
  have hroom := Block.size_of_text h.text
  have hsize := Block.size_of_text hsource
  -- the terminator is written where it already is
  obtain ⟨tempstring, hwrite, -, hwritten⟩ := 
    temp.tempstring.write_ok t.length [0] (by simpa using hroom)
  have htext : tempstring.text = .ok t := by
    refine Block.text_eq_ok.mpr ⟨hzero, rest, ?_⟩
    rw [hwritten, hcells]
    exact splice_middle t [0] rest [0] rfl
  have hlast : temp.lengthtempstring - 1 = t.length := by rw [h.length]; omega
  have hstrcpy : ∀ block : Block, t.length + 1 ≤ block.size → ∃ block',
      block.strcpy tempstring = .ok block' ∧ block'.size = block.size ∧ block'.text = .ok t :=
    fun block => block.strcpy_ok htext
  have htake : t.length + 1 ≤ source.size → t.take (source.size - 1) = t :=
    fun hle => List.take_of_length_le (by omega)
  unfold copyBack
  rw [hlast, hwrite, bind_ok, h.length]
  cases canRealloc with
  | true =>
    simp only [if_true]
    by_cases hlt : (source.size : Int) < t.length + 1
    · rw [if_pos hlt, sizeT_of_fits (n := t.length + 1) (by omega) (by omega)]
      rcases realloc_cases memory temp.calls source (t.length + 1) with
        ⟨hrefused, hnone⟩ | ⟨block, hblock, hblockSize, -⟩
      · exact Or.inl ⟨hrefused, by rw [hnone]; rfl⟩
      · obtain ⟨block', hcopy, hsize', htext'⟩ := hstrcpy block (by omega)
        refine Or.inr ⟨⟨true, block', t.length + 1⟩, by rw [hblock]; simp only [hcopy]; rfl, rfl,
          ?_, ?_, ?_⟩
        · rw [htext', resultText, if_pos rfl, hresult]
        · simp only [hsize', hblockSize]
          omega
        · simp only [if_true, hsize', hblockSize, hresult]
          omega
    · obtain ⟨block', hcopy, hsize', htext'⟩ := hstrcpy source (by omega)
      refine Or.inr ⟨⟨true, block', source.size⟩, by rw [if_neg hlt, hcopy]; rfl, rfl, ?_, ?_, ?_⟩
      · rw [htext', resultText, if_pos rfl, hresult]
      · simp only [hsize']
      · simp only [if_true, hsize', hresult]
        omega
  | false =>
    right
    simp only [Bool.false_eq_true, if_false]
    by_cases hle : (t.length : Int) + 1 ≤ source.size
    · obtain ⟨block', hcopy, hsize', htext'⟩ := hstrcpy source (by omega)
      refine ⟨⟨true, block', source.size⟩, by rw [if_pos hle, hcopy]; rfl, rfl, ?_, ?_, ?_⟩
      · rw [htext', resultText, if_neg Bool.false_ne_true, hresult, htake (by omega)]
      · simp only [hsize']
      · simp only [Bool.false_eq_true, if_false, hsize']
    · obtain ⟨copied, block', hcopy, hend, hsize', htext'⟩ :=
        source.strncpy_cut htext (by omega) (by omega)
      have hcast : (source.size : Int) - 1 = (source.size - 1 : Nat) := by omega
      refine ⟨⟨true, block', source.size⟩, ?_, rfl, ?_, ?_, ?_⟩
      · rw [if_neg hle, hcast, sizeT_of_fits rfl (by omega), hcopy, bind_ok, hend]
        rfl
      · rw [htext', resultText, if_neg Bool.false_ne_true, hresult]
      · simp only [hsize']
      · simp only [Bool.false_eq_true, if_false, hsize']

/-- A call that ends needs no more turns than it had. -/
theorem mumuStringReplace_mono {fuel : Nat} {length : Int} {replaced : Replaced}
    (h : mumuStringReplace memory p r fuel source length canRealloc = .ok replaced) (more : Nat) :
    mumuStringReplace memory p r (fuel + more) source length canRealloc = .ok replaced := by
  unfold mumuStringReplace at h ⊢
  obtain ⟨text, htext, h⟩ := bind_eq_ok.mp h
  rw [htext, bind_ok]
  cases hfound : strstr p text with
  | none =>
    rw [hfound] at h
    exact h
  | some pos =>
    rw [hfound] at h
    simp only at h ⊢
    cases hmalloc : malloc memory 0 (sizeT (int (int text.length + 1))) with
    | none =>
      rw [hmalloc] at h
      exact h
    | some fresh =>
      rw [hmalloc] at h
      simp only at h ⊢
      obtain ⟨tempstring, hcopy, h⟩ := bind_eq_ok.mp h
      rw [hcopy, bind_ok]
      obtain ⟨res, hrun, h⟩ := bind_eq_ok.mp h
      rw [run_mono (by rw [hrun]; exact fun heq => by cases heq), hrun]
      exact h

/-- With one turn for each byte of the source, and one more, the occurrences are replaced. -/
theorem mumuStringReplace_cases (memory : Memory) (canRealloc : Bool) (hne : p ≠ [])
    (hrne : r ≠ []) (hdisjoint : p.Disjoint r) (hzero : 0 ∉ r) (hsource : source.text = .ok s)
    (hlength : source.size < 2 ^ 31)
    (hnew : p <:+: s → p.length < r.length → (replaceAll p r s).length + 2 < 2 ^ 31) :
    (Refused memory ∧
      mumuStringReplace memory p r (s.length + 1) source source.size canRealloc =
        .ok ⟨false, source, source.size⟩) ∨
      ∃ replaced, mumuStringReplace memory p r (s.length + 1) source source.size canRealloc =
        .ok replaced ∧ Delivered p r s source canRealloc replaced := by
  have hsize := Block.size_of_text hsource
  unfold mumuStringReplace
  simp only [hsource, bind_ok]
  cases hfound : strstr p s with
  | none =>
    have hsame : replaceAll p r s = s := replaceAll_of_not_occurs (strstr_eq_none.mp hfound)
    refine Or.inr ⟨_, rfl, rfl, ?_, rfl, ?_⟩
    · rw [resultText, hsame, List.take_of_length_le (by omega), ite_self]
      exact hsource
    · rw [hsame]
      cases canRealloc with
      | true =>
        simp only [if_true]
        omega
      | false => rfl
  | some pos =>
    have hoccurs : p <:+: s := strstr_isSome.mp (by rw [hfound]; rfl)
    have hbytes : int (int s.length + 1) = s.length + 1 := by
      rw [int_of_fits (i := s.length) (by omega) (by omega), int_of_fits (by omega) (by omega)]
    simp only [hbytes, sizeT_of_fits (i := s.length + 1) (n := s.length + 1) rfl (by omega)]
    cases hmalloc : malloc memory 0 (s.length + 1) with
    | none => exact Or.inl ⟨⟨0, s.length + 1, Option.map_eq_none_iff.mp hmalloc⟩, rfl⟩
    | some fresh =>
      have hfresh : fresh.size = s.length + 1 := by
        obtain ⟨_, -, rfl⟩ := Option.map_eq_some_iff.mp hmalloc
        rfl
      obtain ⟨tempstring, hcopy, -, htext⟩ :=
        fresh.strcpy_ok hsource (by omega)
      simp only [hcopy, bind_ok]
      have hholds : Holds ⟨tempstring, s.length + 1, 1⟩ ([] ++ s) := ⟨htext, rfl⟩
      rcases run_replaceTurn memory hne hrne hdisjoint hzero (Nat.lt_succ_self _) sealed_nil hholds
          (by simp only [List.nil_append]; omega) (hnew hoccurs) with
        ⟨hrefused, hnone⟩ | ⟨temp, hloop, hreplaced, hshort⟩
      · exact Or.inl ⟨hrefused, by rw [hnone]; rfl⟩
      · rw [hloop]
        exact copyBack_cases hreplaced hsource hlength hshort

/-- However many turns more it is given, the call replaces all occurrences of a pattern with which
the replacement shares no character, or it is refused a block and the source stays as it is. -/
theorem mumuStringReplace_delivers (memory : Memory) (canRealloc : Bool) (hne : p ≠ [])
    (hrne : r ≠ []) (hdisjoint : p.Disjoint r) (hzero : 0 ∉ r)
    (hsource : source.text = .ok s) (hlength : source.size < 2 ^ 31)
    (hnew : p <:+: s → p.length < r.length → (replaceAll p r s).length + 2 < 2 ^ 31) :
    ∃ replaced,
      (∀ more, mumuStringReplace memory p r (s.length + 1 + more) source source.size canRealloc =
        .ok replaced) ∧
      (Delivered p r s source canRealloc replaced ∨
        Refused memory ∧ replaced = ⟨false, source, source.size⟩) := by
  rcases mumuStringReplace_cases memory canRealloc hne hrne hdisjoint hzero hsource hlength hnew
    with ⟨hrefused, hcall⟩ | ⟨replaced, hcall, hdelivered⟩
  · exact ⟨_, mumuStringReplace_mono hcall, Or.inr ⟨hrefused, rfl⟩⟩
  · exact ⟨replaced, mumuStringReplace_mono hcall, Or.inl hdelivered⟩

/-! The model that is made of strings alone says the same. -/

theorem run_templateTurn (hne : p ≠ []) (hrne : r ≠ []) (hdisjoint : p.Disjoint r) {n : Nat}
    {t rest : List UInt8} (hfuel : rest.length < n) (ht : Sealed p t) :
    run (NameTemplate.replaceTurn (fun _ => true) p r) n ⟨t ++ rest, (t ++ rest).length + 1⟩ =
      .ok (some ⟨t ++ replaceAll p r rest, (t ++ replaceAll p r rest).length + 1⟩) := by
  induction n generalizing t rest with
  | zero => omega
  | succ n ih =>
    cases hfound : strstr p rest with
    | none =>
      have hgone : strstr p (t ++ rest) = none := by rw [strstr_sealed ht, hfound]; rfl
      rw [run, NameTemplate.replaceTurn, hgone, replaceAll_of_not_occurs (strstr_eq_none.mp hfound)]
      rfl
    | some pos =>
      obtain ⟨a, b, rfl, rfl, hbefore⟩ := strstr_first hfound
      have hfoundAll : strstr p (t ++ (a ++ (p ++ b))) = some (t ++ a).length := by
        rw [strstr_sealed ht, hfound, List.length_append]
        rfl
      have hfront : (t ++ (a ++ (p ++ b))).take (t ++ a).length = t ++ a := by
        rw [← List.append_assoc, List.take_left]
      have hback : (t ++ (a ++ (p ++ b))).drop ((t ++ a).length + p.length) = b := by
        rw [← List.length_append, ← List.append_assoc, ← List.append_assoc, List.drop_left]
      have hlength : (t ++ (a ++ (p ++ b))).length + 1 + r.length - p.length =
          (t ++ a ++ r ++ b).length + 1 := by
        simp only [List.length_append]
        omega
      have hturn : NameTemplate.replaceTurn (fun _ => true) p r
          ⟨t ++ (a ++ (p ++ b)), (t ++ (a ++ (p ++ b))).length + 1⟩ =
            .ok (.again ⟨t ++ a ++ r ++ b, (t ++ a ++ r ++ b).length + 1⟩) := by
        simp only [NameTemplate.replaceTurn, hfoundAll, hfront, hback, hlength]
        simp
      have hrest : b.length < n := by
        have hpos := List.length_pos_of_ne_nil hne
        simp only [List.length_append] at hfuel
        omega
      rw [run_again hturn, ih hrest (ht.append hne hrne hdisjoint hbefore),
        replaceAll_first hne hbefore]
      simp only [List.append_assoc]

/-- A call that is not refused leaves what the model of the names says. -/
theorem mumuStringReplace_refines (hne : p ≠ []) (hrne : r ≠ []) (hdisjoint : p.Disjoint r)
    (hsource : source.text = .ok s) {replaced : Replaced}
    (h : Delivered p r s source canRealloc replaced) :
    ∃ result, NameTemplate.mumuStringReplace (fun _ => true) p r (s.length + 1) s source.size
        canRealloc = .ok result ∧
      replaced.source.text = .ok result.source ∧ replaced.length = result.length := by
  have hsize := Block.size_of_text hsource
  have htext := h.text
  have hlength := h.length
  rw [h.size] at hlength
  rw [NameTemplate.mumuStringReplace]
  cases hfound : strstr p s with
  | none =>
    rw [resultText, replaceAll_of_not_occurs (strstr_eq_none.mp hfound),
      List.take_of_length_le (by omega), ite_self] at htext
    rw [replaceAll_of_not_occurs (strstr_eq_none.mp hfound), Nat.max_eq_left hsize,
      ite_self] at hlength
    exact ⟨_, rfl, htext, hlength⟩
  | some pos =>
    have hloop := run_templateTurn hne hrne hdisjoint (Nat.lt_succ_self s.length) sealed_nil
    rw [List.nil_append, List.nil_append] at hloop
    rw [resultText] at htext
    generalize replaceAll p r s = t at hloop hlength htext
    have hwhole : t.take (t.length + 1 - 1) = t := List.take_length
    simp only [Bool.true_eq_false, if_false, hloop, bind_ok, hwhole]
    cases canRealloc with
    | true =>
      simp only [if_true] at htext hlength ⊢
      by_cases hlt : source.size < t.length + 1
      · refine ⟨_, if_pos hlt, htext, ?_⟩
        rw [hlength, Nat.max_eq_right (by omega)]
      · refine ⟨_, if_neg hlt, htext, ?_⟩
        rw [hlength, Nat.max_eq_left (by omega)]
    | false =>
      simp only [Bool.false_eq_true, if_false] at htext hlength ⊢
      by_cases hle : t.length + 1 ≤ source.size
      · rw [List.take_of_length_le (by omega)] at htext
        exact ⟨_, if_pos hle, htext, hlength⟩
      · exact ⟨_, if_neg hle, htext, hlength⟩

/-- Of the replacement only what an `int` says of its length matters. -/
theorem mumuStringReplace_congr {r' : List UInt8}
    (hlen : lengthreplacment r = lengthreplacment r')
    (hcopied : copied r (sizeT (lengthreplacment r)) = copied r' (sizeT (lengthreplacment r))) :
    mumuStringReplace memory p r = mumuStringReplace memory p r' := by
  have hturn : replaceTurn memory p r = replaceTurn memory p r' := by
    funext temp
    unfold replaceTurn growTemp
    rw [hcopied, hlen]
  funext fuel source length canRealloc
  unfold mumuStringReplace
  rw [hturn]

end call

/-! A card number that goes into a name, for systems with and without memory. -/

/-- Every block is given, and cleared. -/
def zeros : Memory := fun _ n => some (Buffer.fill n 0)

def exhausted : Memory := fun _ _ => none

/-- `"%c"`. -/
def percentC : Block := ⟨3, ⟨[37, 99, 0], rfl⟩⟩

theorem not_refused_zeros : ¬ Refused zeros := by
  rintro ⟨call, n, hrefused⟩
  cases hrefused

theorem mumuStringReplace_delivers_percentC : ∃ replaced,
    mumuStringReplace zeros [37, 99] [49, 50, 51] 3 percentC 3 true = .ok replaced ∧
      Delivered [37, 99] [49, 50, 51] [37, 99] percentC true replaced := by
  obtain ⟨replaced, hcall, hdelivered | ⟨hrefused, -⟩⟩ :=
    mumuStringReplace_delivers zeros true (p := [37, 99]) (r := [49, 50, 51]) (by decide)
      (by decide) (by simp) (by decide) (show percentC.text = .ok [37, 99] from rfl) (by decide)
      (fun _ _ => by decide)
  · exact ⟨replaced, hcall 0, hdelivered⟩
  · exact absurd hrefused not_refused_zeros

/-- All calls deliver, whatever the lengths. -/
def AlwaysDelivers (memory : Memory) : Prop :=
  ∀ (p r s : List UInt8) (source : Block) (canRealloc : Bool), p ≠ [] → r ≠ [] → p.Disjoint r →
    0 ∉ r → source.text = .ok s → source.size < 2 ^ 31 → ∃ fuel replaced,
      mumuStringReplace memory p r fuel source source.size canRealloc = .ok replaced ∧
        Delivered p r s source canRealloc replaced

/-- `"a"`. -/
def letterA : Block := ⟨2, ⟨[97, 0], rfl⟩⟩

theorem disjoint_replicate {c d : UInt8} (h : c ≠ d) (n : Nat) :
    [c].Disjoint (List.replicate n d) := by
  intro e he he'
  rw [List.mem_singleton] at he
  rw [he] at he'
  exact h (List.mem_replicate.mp he').2

/-- Without memory the call gives up. With memory, of a replacement that is longer than an `int`
can say a part is put for the pattern: here one byte. -/
theorem not_alwaysDelivers : ¬ AlwaysDelivers exhausted ∧ ¬ AlwaysDelivers zeros := by
  constructor
  · intro h
    obtain ⟨fuel, replaced, hcall, hdelivered⟩ := h [37, 99] [49] [37, 99] percentC true (by decide)
      (by decide) (by simp) (by decide) rfl (by decide)
    have hnull : mumuStringReplace exhausted [37, 99] [49] fuel percentC 3 true =
        .ok ⟨false, percentC, 3⟩ := rfl
    rw [← Except.ok.inj (hnull.symm.trans hcall)] at hdelivered
    cases hdelivered.success
  · intro h
    obtain ⟨r, hr⟩ : ∃ r, r = List.replicate (2 ^ 32 + 1) (98 : UInt8) := ⟨_, rfl⟩
    have hlen : r.length = 2 ^ 32 + 1 := by rw [hr, List.length_replicate]
    have hint : lengthreplacment r = 1 := by
      rw [lengthreplacment, hlen]
      rfl
    obtain ⟨t, rfl⟩ : ∃ t, r = 98 :: t := ⟨_, hr⟩
    have hone : sizeT 1 = 1 := sizeT_of_fits rfl (by decide)
    have hcopied : copied (98 :: t) (sizeT 1) = copied [98] (sizeT 1) := by
      rw [hone]
      rfl
    have hsame : mumuStringReplace zeros [97] (98 :: t) = mumuStringReplace zeros [97] [98] :=
      mumuStringReplace_congr (by rw [hint]; rfl) (by rw [hint]; exact hcopied)
    obtain ⟨fuel, replaced, hcall, hdelivered⟩ := h [97] (98 :: t) [97] letterA true
      (by decide) (List.cons_ne_nil _ _) (hr ▸ disjoint_replicate (by decide) _)
      (fun hmem => by
        rw [hr] at hmem
        cases (List.mem_replicate.mp hmem).2)
      rfl (by decide)
    rw [hsame] at hcall
    rcases mumuStringReplace_cases zeros true (p := [97]) (r := [98]) (by decide) (by decide)
        (by simp) (by decide) (show letterA.text = .ok [97] from rfl) (by decide)
        (fun _ _ => by decide) with ⟨hrefused, -⟩ | ⟨replaced', hcall', hdelivered'⟩
    · exact not_refused_zeros hrefused
    · have hmore := mumuStringReplace_mono hcall (([97] : List UInt8).length + 1)
      rw [Nat.add_comm, mumuStringReplace_mono hcall' fuel] at hmore
      rw [Except.ok.inj hmore] at hdelivered'
      have htext := hdelivered'.text.symm.trans hdelivered.text
      have hreplaced : [98] = 98 :: t ++ [] := Except.ok.inj htext
      rw [List.append_nil] at hreplaced
      rw [← hreplaced] at hlen
      cases hlen

end MuMuDVB.StringReplace
