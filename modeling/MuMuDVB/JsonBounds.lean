import MuMuDVB.JsonEscape

/-!
# The room of mumu_string_to_json

The loop goes on while there is room for one byte, but an ASCII character may be
written with two bytes or with six, and the terminator needs one more. What is
written for a text is followed here with the room that is left of the array.
-/
namespace MuMuDVB.JsonBounds

open CheckedMemory CString FuelLoop JsonText JsonEscape

/-- A character of several bytes begins with `c`, all of its `k` others follow, and the tests for
room in both arrays let it pass. -/
def Whole (mask lead : UInt8) (k left room : Nat) (c : UInt8) (rest : List UInt8) : Prop :=
  (c &&& mask = lead ∧ k + 2 < room ∧ k + 2 < left) ∧
    k ≤ rest.length ∧ ∀ d ∈ rest.take k, d &&& 0xc0 = 0x80

instance (mask lead : UInt8) (k left room : Nat) (c : UInt8) (rest : List UInt8) :
    Decidable (Whole mask lead k left room c rest) :=
  inferInstanceAs (Decidable (_ ∧ _))

/-- How many bytes follow the first one of a character that is copied. -/
def following (left room : Nat) (c : UInt8) (rest : List UInt8) : Option Nat :=
  if Whole 0xe0 0xc0 1 left room c rest then some 1
  else if Whole 0xf0 0xe0 2 left room c rest then some 2
  else if Whole 0xf8 0xf0 3 left room c rest then some 3
  else none

/-- How many bytes are written where byte `c` is met. -/
def writtenLength (left room : Nat) (c : UInt8) (rest : List UInt8) : Nat :=
  if c &&& 0x80 = 0 then (asciiJson c).length
  else match following left room c rest with
    | some k => k + 1
    | none => 0

/-- With `left` bytes of the input allowed and `room` bytes free, each ASCII character of the text
finds more room than it is written with. -/
def Fits : Nat → Nat → List UInt8 → Prop
  | _, _, [] => True
  | left, room, c :: rest =>
    (c &&& 0x80 = 0 → (asciiJson c).length < room) ∧
      Fits (left - 1) (room - writtenLength left room c rest) rest

section steps

variable {left room k : Nat} {c : UInt8} {rest : List UInt8}

theorem following_some (h : following left room c rest = some k) :
    k + 2 < room ∧ k ≤ rest.length ∧ ∀ d ∈ rest.take k, d &&& 0xc0 = 0x80 := by
  rw [following] at h
  split_ifs at h with h₁ h₂ h₃
  · cases h
    exact ⟨h₁.1.2.1, h₁.2⟩
  · cases h
    exact ⟨h₂.1.2.1, h₂.2⟩
  · cases h
    exact ⟨h₃.1.2.1, h₃.2⟩

/-- A byte that continues a character begins none. -/
theorem following_continuation (h : c &&& 0xc0 = 0x80) : following left room c rest = none := by
  have hmasks : c &&& 0xe0 ≠ 0xc0 ∧ c &&& 0xf0 ≠ 0xe0 ∧ c &&& 0xf8 ≠ 0xf0 := by
    revert h
    exact forall_byte (P := fun c => c &&& 0xc0 = 0x80 →
      c &&& 0xe0 ≠ 0xc0 ∧ c &&& 0xf0 ≠ 0xe0 ∧ c &&& 0xf8 ≠ 0xf0) (by decide +kernel) c
  rw [following, if_neg fun h => hmasks.1 h.1.1, if_neg fun h => hmasks.2.1 h.1.1,
    if_neg fun h => hmasks.2.2 h.1.1]

/-- Where a character was copied, nothing is written for the bytes that continue it. -/
theorem fits_drop (hle : k ≤ rest.length) (h : ∀ d ∈ rest.take k, d &&& 0xc0 = 0x80) :
    Fits left room rest ↔ Fits (left - k) room (rest.drop k) := by
  induction k generalizing left rest with
  | zero => rfl
  | succ k ih =>
    cases rest with
    | nil => simp at hle
    | cons d rest =>
      have hd : d &&& 0xc0 = 0x80 := h d List.mem_cons_self
      have hhigh := high_of_continuation hd
      rw [Fits, writtenLength, if_neg hhigh, following_continuation hd]
      dsimp only
      rw [Nat.sub_zero, ih (Nat.le_of_succ_le_succ hle) fun e he => h e (List.mem_cons_of_mem _ he),
        List.drop_succ_cons, Nat.sub_sub, Nat.add_comm 1 k]
      exact and_iff_right fun hascii => absurd hascii hhigh

end steps

section reads

variable {n lin : Nat} {input : Buffer UInt8 n} {a rest tail : List UInt8}

/-- The input begins with a text that ends at its terminator or after `lin` bytes. -/
structure Holds (input : Buffer UInt8 n) (lin : Nat) (text tail : List UInt8) : Prop where
  cells : input.cells = text ++ tail
  nonzero : 0 ∉ text
  length_le : text.length ≤ lin
  ends : text.length < lin → ∃ more, tail = 0 :: more

theorem holds_take {s : List UInt8} (hs : 0 ∉ s) (hinput : input.cells = (s ++ [0]).take lin) :
    ∃ tail, Holds input lin (s.take lin) tail := by
  refine ⟨_, ⟨by rw [hinput, List.take_append], fun h => hs (List.mem_of_mem_take h),
    List.length_take_le .., ?_⟩⟩
  intro hlt
  rw [List.length_take] at hlt
  exact ⟨[], List.take_of_length_le (by rw [List.length_singleton]; omega)⟩

theorem Holds.read_next (h : Holds input lin (a ++ rest) tail) (hlt : a.length < lin) :
    input.read a.length = .ok (rest.headD 0) := by
  have hcells := h.cells
  rw [List.append_assoc] at hcells
  cases rest with
  | nil =>
    rw [List.append_nil] at h
    obtain ⟨more, rfl⟩ := h.ends hlt
    exact input.read_middle hcells (Nat.add_zero _) rfl
  | cons c rest => exact input.read_middle hcells (Nat.add_zero _) rfl

/-- The bytes that continue a character are looked at up to the first one that does not. -/
theorem continues_eq {k : Nat} (h : Holds input lin (a ++ rest) tail) (hlt : a.length + k ≤ lin) :
    continues input a.length k =
      .ok (decide (k ≤ rest.length ∧ (rest.take k).all (· &&& 0xc0 == 0x80))) := by
  induction k generalizing a rest with
  | zero => simp [continues]
  | succ k ih =>
    rw [continues, h.read_next (by omega), bind_ok]
    cases rest with
    | nil =>
      rw [if_neg (by decide), decide_eq_false (by simp)]
      rfl
    | cons d rest =>
      rw [List.headD_cons]
      split
      case isTrue hd =>
        have hmore : Holds input lin ((a ++ [d]) ++ rest) tail := by rwa [List.append_assoc]
        have hnext := ih hmore (by rw [List.length_append, List.length_singleton]; omega)
        rw [List.length_append, List.length_singleton] at hnext
        rw [hnext]
        simp [hd]
      case isFalse hd =>
        have hfirst (hall : ((d :: rest).take (k + 1)).all (· &&& 0xc0 == 0x80)) :
            d &&& 0xc0 = 0x80 :=
          beq_iff_eq.mp (List.all_eq_true.mp hall d List.mem_cons_self)
        rw [decide_eq_false fun hall => hd (hfirst hall.2)]
        rfl

end reads

section turn

variable {n lout lin fuel k : Nat} {input : Buffer UInt8 n} {s : Progress lout} {c : UInt8}
  {done rest tail : List UInt8}

theorem startsCharacter_eq (h : Holds input lin (done ++ c :: rest) tail)
    (hoffin : s.offin = done.length) (mask lead : UInt8) (k : Nat) :
    startsCharacter input lin s c mask lead (k + 1) =
      .ok (decide (Whole mask lead k (lin - s.offin) (lout - s.offout) c rest)) := by
  rw [startsCharacter]
  split
  case isTrue htests =>
    have hmore : Holds input lin ((done ++ [c]) ++ rest) tail := by rwa [List.append_assoc]
    have hnext := continues_eq (k := k) hmore
      (by rw [List.length_append, List.length_singleton]; omega)
    rw [List.length_append, List.length_singleton, ← hoffin] at hnext
    rw [Nat.add_sub_cancel, hnext]
    congr 1
    rw [decide_eq_decide, Whole, and_iff_right htests]
    simp only [List.all_eq_true, beq_iff_eq]
  case isFalse htests =>
    rw [decide_eq_false fun hwhole => htests hwhole.1]
    rfl

/-- What a turn does, in terms of what is written for a byte. -/
theorem convertByte_eq (h : Holds input lin (done ++ c :: rest) tail)
    (hoffin : s.offin = done.length) :
    convertByte input lin s c =
      if c &&& 0x80 = 0 then do
        let out ← s.out.write s.offout (asciiJson c)
        return ⟨s.offin + 1, s.offout + (asciiJson c).length, out⟩
      else match following (lin - s.offin) (lout - s.offout) c rest with
        | some k => copyCharacter input s (k + 1)
        | none => return { s with offin := s.offin + 1 } := by
  rw [convertByte]
  split
  case isTrue => rfl
  case isFalse =>
    rw [startsCharacter_eq h hoffin, startsCharacter_eq h hoffin, startsCharacter_eq h hoffin]
    simp only [bind_ok, decide_eq_true_eq, following]
    split_ifs <;> rfl

theorem copyCharacter_ok (h : Holds input lin (done ++ c :: rest) tail)
    (hoffin : s.offin = done.length) (hk : k ≤ rest.length) (hroom : k + 1 ≤ lout - s.offout) :
    ∃ out, copyCharacter input s (k + 1) = .ok ⟨s.offin + (k + 1), s.offout + (k + 1), out⟩ ∧
      s.out.write s.offout (c :: rest.take k) = .ok out := by
  have hlength : (c :: rest.take k).length = k + 1 := by simp [hk]
  have hcells : input.cells = done ++ (c :: rest.take k ++ (rest.drop k ++ tail)) := by
    rw [h.cells]
    simp only [List.cons_append, List.append_assoc, ← List.append_assoc (rest.take k),
      List.take_append_drop]
  obtain ⟨out, hwrite, -⟩ := s.out.write_ok s.offout (c :: rest.take k) (by omega)
  refine ⟨out, ?_, hwrite⟩
  rw [copyCharacter, input.slice_middle hcells hoffin.symm hlength, bind_ok, hwrite]
  rfl

end turn

/-! ## The loop -/

section loop

variable {n lout lin fuel : Nat} {input : Buffer UInt8 n} {s : Progress lout}
  {done todo tail : List UInt8}

/-- Behind the text the loop ends. -/
theorem convertTurn_done (h : Holds input lin done tail) (hoffin : s.offin = done.length) :
    convertTurn input lin s = .ok (.done s) := by
  rw [← List.append_nil done] at h
  rw [convertTurn]
  split
  case isTrue hmore =>
    rw [hoffin, h.read_next (by omega)]
    rfl
  case isFalse => rfl

theorem convertTurn_next {c : UInt8} {rest : List UInt8}
    (h : Holds input lin (done ++ c :: rest) tail) (hoffin : s.offin = done.length)
    (hroom : s.offout < lout) :
    convertTurn input lin s = convertByte input lin s c >>= fun s => .ok (.again s) := by
  have hlength := h.length_le
  rw [List.length_append, List.length_cons] at hlength
  have hzero : c ≠ 0 := fun hnull => h.nonzero (by rw [hnull]; simp)
  rw [convertTurn, if_pos ⟨by omega, hroom⟩, hoffin, h.read_next (by omega), bind_ok,
    List.headD_cons, if_neg hzero]
  rfl

/-- Once the last byte is taken the next turn ends the loop. -/
theorem run_full {s' : Progress lout} (hfull : ¬ s.offout < lout)
    (hrun : run (convertTurn input lin) fuel s = .ok s') : s' = s := by
  cases fuel with
  | zero => cases hrun
  | succ fuel =>
    rw [run, convertTurn, if_neg fun hmore => hfull hmore.2] at hrun
    exact (Except.ok.inj hrun).symm

/-- The loop ends with room for the terminator exactly when what is still to be read fits. -/
theorem run_ok_iff (h : Holds input lin (done ++ todo) tail) (hoffin : s.offin = done.length)
    (hroom : s.offout < lout) (hfuel : todo.length < fuel) :
    (∃ s', run (convertTurn input lin) fuel s = .ok s' ∧ s'.offout < lout) ↔
      Fits (lin - s.offin) (lout - s.offout) todo := by
  induction fuel generalizing s done todo with
  | zero => exact absurd hfuel (Nat.not_lt_zero _)
  | succ fuel ih =>
    cases todo with
    | nil =>
      rw [List.append_nil] at h
      refine iff_of_true ⟨s, ?_, hroom⟩ trivial
      rw [run, convertTurn_done h hoffin]
      rfl
    | cons c rest =>
      have hturn := convertTurn_next h hoffin hroom
      rw [convertByte_eq h hoffin] at hturn
      rw [List.length_cons] at hfuel
      rw [Fits, writtenLength]
      split at hturn
      case isTrue hascii =>
        rw [if_pos hascii, imp_iff_right hascii]
        by_cases hfit : (asciiJson c).length < lout - s.offout
        · obtain ⟨out, hwrite, -⟩ := s.out.write_ok s.offout (asciiJson c) (by omega)
          rw [hwrite, bind_ok, pure_ok, bind_ok] at hturn
          rw [run_again hturn, and_iff_right hfit, Nat.sub_sub, Nat.sub_sub]
          have hmore : Holds input lin ((done ++ [c]) ++ rest) tail := by rwa [List.append_assoc]
          exact ih hmore (by simp [hoffin]) (by dsimp only; omega) (by omega)
        · refine iff_of_false ?_ fun hfits => hfit hfits.1
          rintro ⟨s', hrun, hlt⟩
          cases hwrite : s.out.write s.offout (asciiJson c) with
          | error e =>
            rw [hwrite] at hturn
            rw [run, hturn] at hrun
            cases hrun
          | ok out =>
            rw [hwrite, bind_ok, pure_ok, bind_ok] at hturn
            rw [run_again hturn] at hrun
            have hfull : ¬ (s.offout + (asciiJson c).length < lout) := by omega
            rw [run_full hfull hrun] at hlt
            exact hfull hlt
      case isFalse hhigh =>
        rw [if_neg hhigh, and_iff_right fun hascii => absurd hascii hhigh]
        cases hfollow : following (lin - s.offin) (lout - s.offout) c rest with
        | none =>
          rw [hfollow] at hturn
          rw [run_again hturn, Nat.sub_zero, Nat.sub_sub]
          have hmore : Holds input lin ((done ++ [c]) ++ rest) tail := by rwa [List.append_assoc]
          exact ih hmore (by simp [hoffin]) hroom (by omega)
        | some k =>
          obtain ⟨hk, hle, hcont⟩ := following_some hfollow
          obtain ⟨out, hcopy, -⟩ := copyCharacter_ok h hoffin hle (by omega)
          rw [hfollow] at hturn
          dsimp only at hturn ⊢
          rw [hcopy, bind_ok] at hturn
          rw [run_again hturn, fits_drop hle hcont, Nat.sub_sub, Nat.sub_sub, Nat.sub_sub,
            Nat.add_comm 1 k]
          have hmore : Holds input lin ((done ++ c :: rest.take k) ++ rest.drop k) tail := by
            rwa [List.append_assoc, List.cons_append, List.take_append_drop]
          exact ih hmore (by simp [hoffin, hle]) (by dsimp only; omega)
            (by rw [List.length_drop]; omega)

end loop

/-! ## The call -/

section call

variable {n lout lin fuel : Nat} {input : Buffer UInt8 n} {s : Progress lout}
  {text done rest tail : List UInt8} {c : UInt8}

/-- What lies in the array so far is inside of a JSON string, and is not terminated. -/
structure Good (s : Progress lout) : Prop where
  offout_le : s.offout ≤ lout
  inside : Inside (s.out.cells.take s.offout)
  nonzero : 0 ∉ s.out.cells.take s.offout

theorem Good.write (h : Good s) {src : List UInt8} {out : Buffer UInt8 lout}
    (hwrite : s.out.write s.offout src = .ok out) (hinside : Inside src) (hzero : 0 ∉ src)
    (offin : Nat) : Good ⟨offin, s.offout + src.length, out⟩ := by
  have hle := (s.out.write_ok_iff s.offout src).mp ⟨out, hwrite⟩
  have htake : out.cells.take (s.offout + src.length) = s.out.cells.take s.offout ++ src := by
    rw [Buffer.write_eq_ok hwrite, take_splice (by rw [s.out.length_cells]; exact h.offout_le) rfl]
  refine ⟨hle, ?_, ?_⟩ <;> dsimp only <;> rw [htake]
  · exact h.inside.append hinside
  · exact fun hmem => (List.mem_append.mp hmem).elim h.nonzero hzero

/-- The bytes of a long character. -/
theorem inside_high {src : List UInt8} (h : ∀ d ∈ src, d &&& 0x80 ≠ 0) : Inside src ∧ 0 ∉ src :=
  ⟨Plain.inside fun d hd => plain_high (h d hd), fun hmem => h 0 hmem rfl⟩

/-- A turn keeps the array good, at any place of the text. -/
theorem Good.turn (h : Holds input lin text tail) (hgood : Good s) (hle : s.offin ≤ text.length)
    {s' : Progress lout} (hturn : convertTurn input lin s = .ok (.again s')) :
    Good s' ∧ s'.offin ≤ text.length := by
  rw [convertTurn] at hturn
  split at hturn
  case isFalse => cases hturn
  case isTrue hmore =>
    obtain ⟨done, todo, rfl, hoffin⟩ : ∃ done todo, text = done ++ todo ∧ s.offin = done.length :=
      ⟨text.take s.offin, text.drop s.offin, (List.take_append_drop ..).symm, by simp [hle]⟩
    rw [hoffin, h.read_next (hoffin ▸ hmore.1), bind_ok] at hturn
    cases todo with
    | nil =>
      rw [List.headD_nil, if_pos rfl] at hturn
      cases hturn
    | cons c rest =>
      have hzero : c ≠ 0 := fun hnull => h.nonzero (by rw [hnull]; simp)
      rw [List.headD_cons, if_neg hzero] at hturn
      obtain ⟨u, hconvert, hturn⟩ := bind_eq_ok.mp hturn
      cases hturn
      rw [convertByte_eq h hoffin] at hconvert
      rw [List.length_append, List.length_cons]
      split at hconvert
      case isTrue =>
        obtain ⟨out, hwrite, hconvert⟩ := bind_eq_ok.mp hconvert
        cases hconvert
        exact ⟨hgood.write hwrite (inside_asciiJson c) (asciiJson_bounds hzero).1 _,
          by dsimp only; omega⟩
      case isFalse hhigh =>
        cases hfollow : following (lin - s.offin) (lout - s.offout) c rest with
        | none =>
          rw [hfollow] at hconvert
          cases hconvert
          exact ⟨⟨hgood.offout_le, hgood.inside, hgood.nonzero⟩, by dsimp only; omega⟩
        | some k =>
          obtain ⟨hroom, hk, hcont⟩ := following_some hfollow
          obtain ⟨out, hcopy, hwrite⟩ := copyCharacter_ok h hoffin hk (by omega)
          rw [hfollow] at hconvert
          dsimp only at hconvert
          rw [hcopy] at hconvert
          cases hconvert
          have hhighs : ∀ d ∈ c :: rest.take k, d &&& 0x80 ≠ 0 :=
            List.forall_mem_cons.mpr ⟨hhigh, fun d hd => high_of_continuation (hcont d hd)⟩
          obtain ⟨hinside, hfree⟩ := inside_high hhighs
          have hnext := hgood.write hwrite hinside hfree (s.offin + (k + 1))
          rw [show (c :: rest.take k).length = k + 1 by simp [hk]] at hnext
          exact ⟨hnext, by dsimp only; omega⟩

/-- The terminator behind what was written. -/
theorem Good.terminate (h : Good s) {out : Buffer UInt8 lout}
    (hwrite : s.out.write s.offout [0] = .ok out) :
    ∃ raw, cstring out.cells = .ok raw ∧ Inside raw := by
  refine ⟨s.out.cells.take s.offout, ?_, h.inside⟩
  rw [Buffer.write_eq_ok hwrite, splice, List.append_assoc, List.singleton_append]
  exact cstring_append h.nonzero _

theorem good_run (h : Holds input lin text tail) {out : Buffer UInt8 lout} {s' : Progress lout}
    (hrun : run (convertTurn input lin) fuel ⟨0, 0, out⟩ = .ok s') : Good s' := by
  have hstart : Good (⟨0, 0, out⟩ : Progress lout) :=
    ⟨Nat.zero_le _, inside_nil, List.not_mem_nil⟩
  refine run_invariant (P := fun s : Progress lout => Good s ∧ s.offin ≤ text.length)
    (fun t u ht hturn => ht.1.turn h ht.2 hturn) ?_ ⟨hstart, Nat.zero_le _⟩ hrun
  intro t a ht hturn
  rw [convertTurn] at hturn
  split at hturn
  case isFalse =>
    cases hturn
    exact ht.1
  case isTrue =>
    obtain ⟨c, -, hturn⟩ := bind_eq_ok.mp hturn
    split at hturn
    case isTrue =>
      cases hturn
      exact ht.1
    case isFalse =>
      obtain ⟨u, -, hturn⟩ := bind_eq_ok.mp hturn
      cases hturn

/-- `out[lout]=0` is outside of the array. -/
theorem write_past (out : Buffer UInt8 lout) {out' : Buffer UInt8 lout} :
    out.write lout [0] ≠ .ok out' := fun h =>
  Nat.not_succ_le_self lout ((out.write_ok_iff lout [0]).mp ⟨out', h⟩)

/-- What is left in the array is a string that may stand in a JSON string, whatever it is made
from. -/
theorem mumuStringToJson_inside (h : Holds input lin text tail) {out out' : Buffer UInt8 lout}
    (hcall : mumuStringToJson input lin fuel out = .ok out') :
    ∃ raw, cstring out'.cells = .ok raw ∧ Inside raw := by
  rw [mumuStringToJson] at hcall
  obtain ⟨c, -, hcall⟩ := bind_eq_ok.mp hcall
  split at hcall
  case isTrue =>
    exact Good.terminate (s := ⟨0, 0, out⟩) ⟨Nat.zero_le _, inside_nil, List.not_mem_nil⟩ hcall
  case isFalse =>
    obtain ⟨s, hrun, hcall⟩ := bind_eq_ok.mp hcall
    split at hcall
    case isTrue => exact (good_run h hrun).terminate hcall
    case isFalse => exact absurd hcall (write_past _)

theorem mumuStringToJson_holds (hholds : Holds input lin text tail) (hlin : 1 ≤ lin)
    (hlout : 1 ≤ lout) (out : Buffer UInt8 lout) (hfuel : text.length < fuel) :
    (∃ out' raw, mumuStringToJson input lin fuel out = .ok out' ∧ cstring out'.cells = .ok raw) ↔
      Fits lin lout text := by
  have hread : input.read 0 = .ok (text.headD 0) := Holds.read_next (a := []) hholds hlin
  cases text with
  | nil =>
    obtain ⟨out', hwrite, -⟩ := out.write_ok 0 [0] hlout
    have hcall : mumuStringToJson input lin fuel out = .ok out' := by
      rw [mumuStringToJson, hread, bind_ok, List.headD_nil, if_pos rfl, hwrite]
    obtain ⟨raw, hraw, -⟩ := mumuStringToJson_inside hholds hcall
    exact iff_of_true ⟨out', raw, hcall, hraw⟩ trivial
  | cons c rest =>
    have hzero : c ≠ 0 := fun hnull => hholds.nonzero (by rw [hnull]; simp)
    have hstart : Holds input lin ([] ++ c :: rest) tail := hholds
    have hiff := run_ok_iff (s := ⟨0, 0, out⟩) hstart rfl hlout hfuel
    rw [Nat.sub_zero, Nat.sub_zero] at hiff
    rw [← hiff]
    have hcall : mumuStringToJson input lin fuel out =
        run (convertTurn input lin) fuel ⟨0, 0, out⟩ >>= fun s =>
          if s.offout < lout then s.out.write s.offout [0] else s.out.write lout [0] := by
      rw [mumuStringToJson, hread, bind_ok, List.headD_cons, if_neg hzero]
    constructor
    · rintro ⟨out', raw, hok, -⟩
      rw [hcall] at hok
      obtain ⟨s', hrun, hok⟩ := bind_eq_ok.mp hok
      refine ⟨s', hrun, ?_⟩
      split at hok
      case isTrue hroom => exact hroom
      case isFalse => exact absurd hok (write_past _)
    · rintro ⟨s', hrun, hroom⟩
      obtain ⟨out', hwrite, -⟩ := s'.out.write_ok s'.offout [0] hroom
      obtain ⟨raw, hraw, -⟩ := (good_run hholds hrun).terminate hwrite
      exact ⟨out', raw, by rw [hcall, hrun, bind_ok, if_pos hroom, hwrite], hraw⟩

/-- The call returns, which takes every access to be inside of the two arrays, and leaves a string,
exactly when each ASCII character of the text finds more room than it is written with. -/
theorem mumuStringToJson_ok_iff {s : List UInt8} (hs : 0 ∉ s) (hlin : 1 ≤ lin) (hlout : 1 ≤ lout)
    (hinput : input.cells = (s ++ [0]).take lin) (out : Buffer UInt8 lout)
    (hfuel : s.length < fuel) :
    (∃ out' raw, mumuStringToJson input lin fuel out = .ok out' ∧ cstring out'.cells = .ok raw) ↔
      Fits lin lout (s.take lin) := by
  obtain ⟨tail, hholds⟩ := holds_take hs hinput
  exact mumuStringToJson_holds hholds hlin hlout out ((List.length_take_le' ..).trans_lt hfuel)

end call

/-! One letter fills an array of one byte. -/

def letter : Buffer UInt8 2 := ⟨[98, 0], rfl⟩

theorem mumuStringToJson_not_inside :
    ¬ ∀ (n lin lout fuel : Nat) (s : List UInt8) (input : Buffer UInt8 n) (out : Buffer UInt8 lout),
      0 ∉ s → 1 ≤ lin → 1 ≤ lout → input.cells = (s ++ [0]).take lin → s.length < fuel →
      ∃ out' raw, mumuStringToJson input lin fuel out = .ok out' ∧
        cstring out'.cells = .ok raw := by
  intro h
  obtain ⟨out', raw, hcall, -⟩ := h 2 2 1 2 [98] letter (Buffer.fill 1 0) (by decide) (by decide)
    (by decide) rfl (by decide)
  have hfault : mumuStringToJson letter 2 2 (Buffer.fill 1 0) = .error .outOfBounds := by
    decide +kernel
  rw [hfault] at hcall
  cases hcall

theorem mumuStringToJson_ok_letter :
    ∃ out' raw, mumuStringToJson letter 2 2 (Buffer.fill 2 1) = .ok out' ∧
      cstring out'.cells = .ok raw :=
  (mumuStringToJson_ok_iff (s := [98]) (by decide) (by decide) (by decide) rfl _
    (by decide)).mpr ⟨fun _ => by decide, trivial⟩

end MuMuDVB.JsonBounds
