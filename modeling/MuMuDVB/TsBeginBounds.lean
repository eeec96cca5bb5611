import MuMuDVB.TsBegin

/-!
# What get_ts_begin reads

`get_ts_begin` compares the first bytes of the payload with the start code of a
PES packet one after the other. The limits that it puts on the adaptation field
and on the pointer field count up to the end of the packet, and neither the
length byte of the adaptation field nor the table header that the callers read
behind the pointer is in them.
-/
namespace MuMuDVB.TsBeginBounds

open CheckedMemory MuMuDVB.TsHeader MuMuDVB.Ts MuMuDVB.TsBegin

/-- The table header that the `*_need_update` functions map onto the pointer. -/
@[simp] abbrev tableHeaderLen : Nat := 8

section walk

variable {n : Nat}

/-- `buf[delta]==0x00 && buf[delta+1]==0x00 && buf[delta+2]==0x01`. -/
def startCodeAt (buf : Buffer UInt8 n) (delta : Nat) : Checked Bool := do
  let first ← buf.read delta
  if first = 0x00 then
    let second ← buf.read (delta + 1)
    if second = 0x00 then
      let third ← buf.read (delta + 2)
      return third == 0x01
    else return false
  else return false

/-- `get_ts_begin` behind the adaptation field. -/
def beginAt (buf : Buffer UInt8 n) (header : List UInt8) (delta : Nat) :
    Checked (Option Nat) := do
  let pes ← (if adaptationFieldControl header % 2 = 1 then startCodeAt buf delta
    else .ok false : Checked Bool)
  if pes then return none
  else if adaptationFieldControl header = 2 ∨ adaptationFieldControl header = 0 then return none
  else if payloadUnitStartIndicator header then
    let pointerField ← buf.read delta
    if tsPacketSize < delta + 1 + pointerField.toNat then return none
    else return some (delta + 1 + pointerField.toNat)
  else return none

/-- `get_ts_begin` on `n` bytes of memory, with its reads one by one. -/
def getTsBeginIn (buf : Buffer UInt8 n) : Checked (Option Nat) := do
  let header ← buf.slice 0 (tsHeaderLen - 1)
  if adaptationFieldControl header / 2 % 2 = 1 then
    let len ← buf.read (tsHeaderLen - 1)
    if tsPacketSize < tsHeaderLen - 1 + len.toNat then return none
    else beginAt buf header (tsHeaderLen - 1 + len.toNat + 1)
  else beginAt buf header (tsHeaderLen - 1)

end walk

/-- A walk that reads no byte behind the packet, and where a table header fits behind the pointer
that it returns. -/
def Within (walk : Checked (Option Nat)) : Prop :=
  ∃ result, walk = .ok result ∧ ∀ o, result = some o → o + tableHeaderLen ≤ tsPacketSize

/-- The start code of a PES packet. -/
def StartCode (xs : List UInt8) (delta : Nat) : Prop :=
  byteAt xs delta = 0 ∧ byteAt xs (delta + 1) = 0 ∧ byteAt xs (delta + 2) = 1

instance (xs : List UInt8) (delta : Nat) : Decidable (StartCode xs delta) :=
  inferInstanceAs (Decidable (_ ∧ _))

/-- The comparison reads a byte only when those before it are those of the start code. -/
def CodeReadable (n : Nat) (xs : List UInt8) (delta : Nat) : Prop :=
  delta < n ∧ (byteAt xs delta = 0 → delta + 1 < n ∧ (byteAt xs (delta + 1) = 0 → delta + 2 < n))

/-- Where the payload begins. -/
def payloadAt (p : Packet) : Nat :=
  if adaptationFieldControl p.cells = 3 then 4 + (byteAt p.cells 4).toNat + 1 else 4

/-- The adaptation field ends at the end of the packet, or so shortly before it that the comparison
with the start code reaches the end. -/
def StartCodeCut (p : Packet) : Prop :=
  adaptationFieldControl p.cells = 3 ∧
    ((byteAt p.cells 4).toNat = 184 ∨ (byteAt p.cells 4).toNat = 183 ∨
      ((byteAt p.cells 4).toNat = 182 ∧ byteAt p.cells 187 = 0) ∨
      ((byteAt p.cells 4).toNat = 181 ∧ byteAt p.cells 186 = 0 ∧ byteAt p.cells 187 = 0))

/-- A section starts in the last seven bytes of the packet or right behind it. -/
def HeaderCut (p : Packet) : Prop :=
  let delta := payloadAt p
  let start := delta + 1 + (byteAt p.cells delta).toNat
  adaptationFieldControl p.cells % 2 = 1 ∧ payloadUnitStartIndicator p.cells = true ∧
    ¬StartCode p.cells delta ∧ tsPacketSize - tableHeaderLen < start ∧ start ≤ tsPacketSize

section reads

variable {n delta : Nat} {buf : Buffer UInt8 n} {p : Packet} {header : List UInt8}

theorem read_within (buf : Buffer UInt8 n) {i : Nat} (h : i < n) :
    buf.read i = .ok (byteAt buf.cells i) := by
  have hlt : i < buf.cells.length := by rwa [buf.length_cells]
  rw [buf.read_ok (List.getElem?_eq_getElem hlt), byteAt, List.getD_eq_getElem?_getD,
    List.getElem?_eq_getElem hlt, Option.getD_some]

theorem read_outside (buf : Buffer UInt8 n) {i : Nat} (h : n ≤ i) :
    buf.read i = .error .outOfBounds := by
  rw [Buffer.read, List.getElem?_eq_none (by rwa [buf.length_cells])]

theorem startCodeAt_ok (h : CodeReadable n buf.cells delta) :
    startCodeAt buf delta = .ok (decide (StartCode buf.cells delta)) := by
  obtain ⟨hfirst, h⟩ := h
  rw [startCodeAt, read_within buf hfirst, bind_ok]
  by_cases h0 : byteAt buf.cells delta = 0
  · obtain ⟨hsecond, h⟩ := h h0
    rw [if_pos h0, read_within buf hsecond, bind_ok]
    by_cases h1 : byteAt buf.cells (delta + 1) = 0
    · rw [if_pos h1, read_within buf (h h1), bind_ok, pure_ok]
      simp [StartCode, h0, h1, Bool.beq_eq_decide_eq]
    · rw [if_neg h1, pure_ok, decide_eq_false fun hc => h1 hc.2.1]
  · rw [if_neg h0, pure_ok, decide_eq_false fun hc => h0 hc.1]

theorem startCodeAt_fault (h : ¬CodeReadable n buf.cells delta) :
    startCodeAt buf delta = .error .outOfBounds := by
  rw [startCodeAt]
  by_cases hfirst : delta < n
  · rw [read_within buf hfirst, bind_ok]
    by_cases h0 : byteAt buf.cells delta = 0
    · rw [if_pos h0]
      by_cases hsecond : delta + 1 < n
      · rw [read_within buf hsecond, bind_ok]
        by_cases h1 : byteAt buf.cells (delta + 1) = 0
        · have hthird : n ≤ delta + 2 := by
            by_contra hlt
            exact h ⟨hfirst, fun _ => ⟨hsecond, fun _ => by omega⟩⟩
          rw [if_pos h1, read_outside buf hthird, bind_error]
        · exact absurd ⟨hfirst, fun _ => ⟨hsecond, fun hc => absurd hc h1⟩⟩ h
      · rw [read_outside buf (by omega), bind_error]
    · exact absurd ⟨hfirst, fun hc => absurd hc h0⟩ h
  · rw [read_outside buf (by omega), bind_error]

theorem within_none : Within (.ok none) := ⟨none, rfl, fun o h => by cases h⟩

theorem within_some {o : Nat} : Within (.ok (some o)) ↔ o + tableHeaderLen ≤ tsPacketSize := by
  constructor
  · rintro ⟨result, hresult, h⟩
    cases hresult
    exact h o rfl
  · intro h
    exact ⟨some o, rfl, fun o' ho => by cases ho; exact h⟩

theorem not_within_error (fault : Fault) : ¬Within (.error fault) := by
  rintro ⟨result, hresult, -⟩
  cases hresult

/-- Without a payload nothing more is read. -/
theorem beginAt_even (heven : adaptationFieldControl header % 2 = 0) :
    beginAt buf header delta = .ok none := by
  have hlt : adaptationFieldControl header < 4 := Nat.mod_lt _ (by decide)
  rw [beginAt, if_neg (by omega), bind_ok, if_neg Bool.false_ne_true, if_pos (by omega), pure_ok]

theorem beginAt_within (hodd : adaptationFieldControl header % 2 = 1) :
    Within (beginAt p header delta) ↔ CodeReadable 188 p.cells delta ∧
      ¬(payloadUnitStartIndicator header = true ∧ ¬StartCode p.cells delta ∧
        180 < delta + 1 + (byteAt p.cells delta).toNat ∧
        delta + 1 + (byteAt p.cells delta).toNat ≤ 188) := by
  rw [beginAt, if_pos hodd]
  by_cases hread : CodeReadable 188 p.cells delta
  · rw [startCodeAt_ok hread, bind_ok]
    by_cases hcode : StartCode p.cells delta
    · rw [if_pos (decide_eq_true hcode), pure_ok]
      exact ⟨fun _ => ⟨hread, fun h => h.2.1 hcode⟩, fun _ => within_none⟩
    · rw [if_neg (by rwa [decide_eq_true_iff]), if_neg (by omega)]
      by_cases hstart : payloadUnitStartIndicator header = true
      · rw [if_pos hstart, read_within p hread.1, bind_ok]
        simp only [hread, hstart, hcode, tsPacketSize, true_and, not_false_eq_true]
        split
        · rw [pure_ok]
          exact ⟨fun _ => by omega, fun _ => within_none⟩
        · rw [pure_ok, within_some]
          simp only [tsPacketSize, tableHeaderLen]
          omega
      · rw [if_neg hstart, pure_ok]
        exact ⟨fun _ => ⟨hread, fun h => hstart h.1⟩, fun _ => within_none⟩
  · rw [startCodeAt_fault hread, bind_error]
    exact ⟨fun h => absurd h (not_within_error _), fun h => absurd h.1 hread⟩

theorem startCode_iff {xs : List UInt8} (h : delta + 2 < xs.length) :
    StartCode xs delta ↔ (xs.drop delta).take 3 = [0x00, 0x00, 0x01] := by
  have hdrop : xs.drop delta =
      xs[delta] :: xs[delta + 1] :: xs[delta + 2] :: xs.drop (delta + 3) := by
    rw [List.drop_eq_getElem_cons (by omega), List.drop_eq_getElem_cons (by omega),
      List.drop_eq_getElem_cons h]
  have hbyte : ∀ i (hi : i < xs.length), byteAt xs i = xs[i] := fun i hi => by
    rw [byteAt, List.getD_eq_getElem?_getD, List.getElem?_eq_getElem hi, Option.getD_some]
  rw [StartCode, hbyte delta (by omega), hbyte (delta + 1) (by omega), hbyte (delta + 2) h, hdrop]
  simp only [List.take_succ_cons, List.take_zero, List.cons.injEq, and_true]

/-- The first four bytes decide as the packet does. -/
theorem header_fields {xs : List UInt8} :
    adaptationFieldControl (xs.take 4) = adaptationFieldControl xs ∧
      payloadUnitStartIndicator (xs.take 4) = payloadUnitStartIndicator xs := by
  rw [adaptationFieldControl, payloadUnitStartIndicator, byteAt_take (by decide),
    byteAt_take (by decide)]
  exact ⟨rfl, rfl⟩

/-- The walk with an adaptation field of a length that is accepted, or without one. -/
theorem getTsBeginIn_eq (h : 188 ≤ n) : getTsBeginIn buf =
    if adaptationFieldControl buf.cells / 2 % 2 = 1 then
      if 184 < (byteAt buf.cells 4).toNat then .ok none
      else beginAt buf (buf.cells.take 4) (4 + (byteAt buf.cells 4).toNat + 1)
    else beginAt buf (buf.cells.take 4) 4 := by
  rw [getTsBeginIn, buf.slice_ok (by simp only [tsHeaderLen]; omega), bind_ok, List.drop_zero]
  simp only [tsHeaderLen, tsPacketSize, Nat.add_one_sub_one]
  rw [header_fields.1, read_within buf (by omega), bind_ok]
  refine if_congr Iff.rfl (if_congr ?_ rfl rfl) rfl
  omega

/-- Behind an adaptation field that is accepted. -/
theorem codeReadable_iff (hcontrol : adaptationFieldControl p.cells = 3)
    (hlen : (byteAt p.cells 4).toNat ≤ 184) :
    CodeReadable 188 p.cells (4 + (byteAt p.cells 4).toNat + 1) ↔ ¬StartCodeCut p := by
  rw [StartCodeCut, CodeReadable, and_iff_right hcontrol]
  generalize (byteAt p.cells 4).toNat = len at hlen
  rcases (by omega : len ≤ 180 ∨ len = 181 ∨ len = 182 ∨ len = 183 ∨ len = 184) with
    h | rfl | rfl | rfl | rfl
  · exact ⟨fun _ => by omega, fun _ => ⟨by omega, fun _ => ⟨by omega, fun _ => by omega⟩⟩⟩
  all_goals simp

end reads

/-- Exactly when `get_ts_begin` and the callers that read a table header stay in the packet. -/
theorem getTsBegin_within_iff (p : Packet) :
    Within (getTsBeginIn p) ↔ ¬(StartCodeCut p ∨ HeaderCut p) := by
  have hafc : adaptationFieldControl p.cells < 4 := Nat.mod_lt _ (by decide)
  rw [getTsBeginIn_eq (Nat.le_refl _), not_or, HeaderCut, payloadAt]
  simp only [tsPacketSize, tableHeaderLen, Nat.reduceSub]
  by_cases hodd : adaptationFieldControl p.cells % 2 = 1
  · have hcontrol : adaptationFieldControl (p.cells.take 4) % 2 = 1 := by rwa [header_fields.1]
    have hwithin := fun delta => @beginAt_within delta p (p.cells.take 4) hcontrol
    rw [header_fields.2] at hwithin
    by_cases h3 : adaptationFieldControl p.cells = 3
    · rw [if_pos (by omega), if_pos h3]
      by_cases hbig : 184 < (byteAt p.cells 4).toNat
      · rw [if_pos hbig, StartCodeCut]
        refine ⟨fun _ => ⟨by omega, by omega⟩, fun _ => within_none⟩
      · rw [if_neg hbig, hwithin, codeReadable_iff h3 (by omega)]
        simp only [hodd, true_and]
    · have hread : CodeReadable 188 p.cells 4 :=
        ⟨by decide, fun _ => ⟨by decide, fun _ => by decide⟩⟩
      rw [if_neg (by omega), if_neg h3, hwithin, StartCodeCut]
      simp only [hodd, h3, hread, true_and, false_and, not_false_eq_true]
  · have hnone : ∀ delta, beginAt p (p.cells.take 4) delta = .ok none := fun delta =>
      beginAt_even (by rw [header_fields.1]; omega)
    rw [hnone, hnone, StartCodeCut]
    simp only [ite_self]
    exact ⟨fun _ => ⟨by omega, by omega⟩, fun _ => within_none⟩

/-- In memory that has the bytes behind the packet the walk is the one whose result is compared with
`get_ts_packet`. -/
theorem getTsBeginIn_memory (mem : TableMemory) : getTsBeginIn mem = getTsBegin mem := by
  have hfrom : ∀ delta, delta < 193 →
      beginAt mem (mem.cells.take 4) delta = beginFrom mem delta := fun delta hlt => by
    have hafc : adaptationFieldControl mem.cells < 4 := Nat.mod_lt _ (by decide)
    have hread : CodeReadable 196 mem.cells delta :=
      ⟨by omega, fun _ => ⟨by omega, fun _ => by omega⟩⟩
    have hcode := @startCode_iff delta mem.cells (by rw [mem.length_cells]; omega)
    rw [beginFrom_spec mem hlt]
    by_cases hodd : adaptationFieldControl mem.cells % 2 = 1
    · rw [beginAt, header_fields.1, header_fields.2, if_pos hodd, startCodeAt_ok hread, bind_ok]
      by_cases h : StartCode mem.cells delta
      · rw [if_pos (decide_eq_true h), if_pos (.inr (hcode.mp h)), pure_ok]
      · rw [if_neg (by rwa [decide_eq_true_iff]), if_neg (by omega),
          if_neg (not_or.mpr ⟨by omega, mt hcode.mpr h⟩), read_within mem hread.1, bind_ok,
          afterPointer]
        simp only [tsPacketSize, pure_ok]
        split
        · split <;> rfl
        · rfl
    · rw [beginAt_even (by rw [header_fields.1]; omega), if_pos (.inl (by omega))]
  rw [getTsBeginIn_eq (by decide), getTsBegin]
  simp only [tsHeaderLen, tsPacketSize, Nat.add_one_sub_one]
  split
  case isTrue =>
    rw [read_within mem (by decide), bind_ok]
    by_cases hbig : 184 < (byteAt mem.cells 4).toNat
    · rw [if_pos hbig, if_pos (by omega)]
      rfl
    · rw [if_neg hbig, if_neg (by omega), hfrom _ (by omega)]
      rfl
  case isFalse =>
    rw [hfrom 4 (by decide)]
    rfl

/-- The adaptation field fills the packet up to its end. -/
def fieldToEnd : Packet := ⟨[0x47, 0x40, 0x00, 0x30, 183] ++ List.replicate 183 0xff, rfl⟩

/-- The pointer field points right behind the packet. -/
def pointerToEnd : Packet := ⟨[0x47, 0x40, 0x00, 0x10, 183] ++ List.replicate 183 0xff, rfl⟩

/-- The start code is looked for behind the packet, and a table header is. -/
theorem not_within_toEnd :
    ¬Within (getTsBeginIn fieldToEnd) ∧ ¬Within (getTsBeginIn pointerToEnd) := by
  have hfield : getTsBeginIn fieldToEnd = .error .outOfBounds := by decide
  have hpointer : getTsBeginIn pointerToEnd = .ok (some 188) := by decide
  rw [hfield, hpointer, within_some]
  exact ⟨not_within_error _, by decide⟩

end MuMuDVB.TsBeginBounds
