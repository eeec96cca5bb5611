import MuMuDVB.RewriteSdt

/-!
# How far into an SDT section the rewriter reads

`sdt_channel_rewrite` trusts the lengths inside of a section that passed the
CRC. Here the section stands alone: the bytes of `data_full` that follow it are
out of bounds, and so is what lies outside of `t_buffer`, `buf_dest` and
`generated_sdt`.
-/
namespace MuMuDVB.SdtBounds

open CheckedMemory MuMuDVB.TsHeader MuMuDVB.Ts MuMuDVB.TsAssembler MuMuDVB.Channel
open MuMuDVB.RewriteSection MuMuDVB.RewriteSdt

variable {n : Nat}

/-- The loop over the descriptors of a service, in a memory of `n` bytes. -/
def copyDescriptorsIn (fuel : Nat) (data : Buffer UInt8 n)
    (start descriptorsLength pos : Nat) (kept : List UInt8) : Checked (List UInt8) :=
  match fuel with
  | 0 => .error .endless
  | fuel + 1 =>
    if pos < descriptorsLength then do
      let descriptorTag ← data.read (start + pos)
      let len ← data.read (start + pos + 1)
      let descriptorLen := (len + 2).toNat
      let kept ← (if sdtRewriteCopyDescriptor descriptorTag then do
          let src ← data.slice (start + pos) descriptorLen
          if sdtDescrLen + kept.length + descriptorLen ≤ maxTsSize then return kept ++ src
          else .error .outOfBounds
        else .ok kept : Checked (List UInt8))
      copyDescriptorsIn fuel data start descriptorsLength (pos + descriptorLen) kept
    else .ok kept

/-- The loop over the services, in a memory of `n` bytes. -/
def sdtServicesIn (fuel : Nat) (forceEit : OptionStatus) (serviceId : Int)
    (data : Buffer UInt8 n) (sectionLength pos : Nat) (dest : List UInt8) :
    Checked SdtSearch :=
  match fuel with
  | 0 => .error .endless
  | fuel + 1 =>
    if pos + sdtDescrLen < sectionLength then do
      let descr ← data.slice pos sdtDescrLen
      let descriptorsLength := descriptorsLoopLength descr
      let next := pos + (sdtDescrLen + descriptorsLength)
      if serviceId = descrServiceId descr then do
        let kept ← copyDescriptorsIn (maxTsSize + 1) data (pos + sdtDescrLen) descriptorsLength 0 []
        if tsPacketSize < dest.length + sdtDescrLen + kept.length + 4 + 1 then
          sdtServicesIn fuel forceEit serviceId data sectionLength next dest
        else if
            descriptorsLoopLength (setDescriptorsLoopLength descr kept.length) ≠ kept.length then
          return .bug
        else do
          let dest ← appendDest dest (sdtEntry forceEit descr kept)
          return .ended true dest
      else sdtServicesIn fuel forceEit serviceId data sectionLength next dest
    else .ok (.ended false dest)

/-- `sdt_channel_rewrite`, with the section `data` alone to read from. -/
def sdtChannelRewriteIn (vars : RewriteParameters) (channel : MumudvbChannel)
    (data : Buffer UInt8 n) (buf : Packet) : Checked (Bool × RewriteState) :=
  if channel.serviceId = 0 then
    .ok (false, ⟨vars, { channel with sdtRewriteSkip := true }, buf⟩)
  else do
    let sectionLength := sectionLength data.cells
    let buf := startHeader buf
    let dest ← appendDest [] (buf.cells.take tsHeaderLen)
    let vars := { vars with fullSdt :=
      { vars.fullSdt with dataFull := onlySectionAt vars.fullSdt.dataFull 0 } }
    let data := onlySectionAt data 0
    let head ← data.slice 0 sdtLen
    let dest ← appendDest dest head
    if tableId data.cells ≠ 0x42 then
      return (false, ⟨{ vars with sdtNeedsUpdate := true }, channel, buf⟩)
    else
      let search ← sdtServicesIn (maxTsSize + 1) vars.sdtForceEit channel.serviceId data
        sectionLength sdtLen dest
      match search with
      | .bug => return (false, ⟨vars, channel, buf⟩)
      | .ended found dest => sdtFinish ⟨vars, channel, buf⟩ found dest

theorem copyDescriptorsIn_full (fuel : Nat) (data : Buffer UInt8 maxTsSize) (start len pos : Nat)
    (kept : List UInt8) : copyDescriptorsIn fuel data start len pos kept =
      copyDescriptors fuel data start len pos kept := by
  induction fuel generalizing pos kept with
  | zero => rfl
  | succ fuel ih => simp only [copyDescriptorsIn, copyDescriptors, ih]

theorem sdtServicesIn_full (fuel : Nat) (forceEit : OptionStatus) (serviceId : Int)
    (data : Buffer UInt8 maxTsSize) (sectionLength pos : Nat) (dest : List UInt8) :
    sdtServicesIn fuel forceEit serviceId data sectionLength pos dest =
      sdtServices fuel forceEit serviceId data sectionLength pos dest := by
  induction fuel generalizing pos with
  | zero => rfl
  | succ fuel ih => simp only [sdtServicesIn, sdtServices, copyDescriptorsIn_full, ih]

/-- With all of `data_full` to read from it is the function of the rewriter. -/
theorem sdtChannelRewriteIn_full (vars : RewriteParameters) (channel : MumudvbChannel)
    (buf : Packet) : sdtChannelRewriteIn vars channel vars.fullSdt.dataFull buf =
      sdtChannelRewrite vars channel buf := by
  have hhead : (onlySectionAt vars.fullSdt.dataFull 0).slice 0 sdtLen =
      .ok ((onlySectionAt vars.fullSdt.dataFull 0).cells.take sdtLen) :=
    (onlySectionAt vars.fullSdt.dataFull 0).slice_ok (by decide)
  unfold sdtChannelRewriteIn
  simp only [sdtServicesIn_full, hhead, bind_ok]
  rfl

/-- `x` leaves its memory, or does as `y`. -/
def OrOutside {α : Type} (x y : Checked α) : Prop := x = .error .outOfBounds ∨ x = y

theorem OrOutside.refl {α : Type} (x : Checked α) : OrOutside x x := .inr rfl

theorem OrOutside.bind {α β : Type} {x y : Checked α} {f g : α → Checked β} (hx : OrOutside x y)
    (hf : ∀ a, OrOutside (f a) (g a)) : OrOutside (x >>= f) (y >>= g) := by
  rcases hx with rfl | rfl
  · exact .inl rfl
  · cases x with
    | error e => exact .refl _
    | ok a => exact hf a

theorem OrOutside.ite {α : Type} {c : Prop} [Decidable c] {x y x' y' : Checked α}
    (hx : OrOutside x x') (hy : OrOutside y y') :
    OrOutside (if c then x else y) (if c then x' else y') := by
  split
  · exact hx
  · exact hy

section within

variable {m : Nat} {data : Buffer UInt8 n} {full : Buffer UInt8 m} {rest : List UInt8}
  (hfull : full.cells = data.cells ++ rest)

include hfull

theorem read_within (i : Nat) : OrOutside (data.read i) (full.read i) := by
  unfold Buffer.read
  rw [hfull]
  by_cases h : i < data.cells.length
  · rw [List.getElem?_append_left h]
    exact .refl _
  · rw [List.getElem?_eq_none (by omega)]
    exact .inl rfl

theorem slice_within (i len : Nat) : OrOutside (data.slice i len) (full.slice i len) := by
  have hsize := congrArg List.length hfull
  rw [List.length_append, data.length_cells, full.length_cells] at hsize
  by_cases h : i + len ≤ n
  · rw [data.slice_ok h, full.slice_ok (by omega), hfull,
      List.drop_append_of_le_length (by rw [data.length_cells]; omega),
      List.take_append_of_le_length (by rw [List.length_drop, data.length_cells]; omega)]
    exact .refl _
  · rw [Buffer.slice, if_neg h]
    exact .inl rfl

theorem copyDescriptors_within (fuel start len pos : Nat) (kept : List UInt8) :
    OrOutside (copyDescriptorsIn fuel data start len pos kept)
      (copyDescriptorsIn fuel full start len pos kept) := by
  induction fuel generalizing pos kept with
  | zero => exact .refl _
  | succ fuel ih =>
    refine .ite (.bind (read_within hfull _) fun tag => ?_) (.refl _)
    refine .bind (read_within hfull _) fun descriptorLen => ?_
    refine .bind ?_ fun kept => ih _ _
    exact .ite (.bind (slice_within hfull _ _) fun src => .refl _) (.refl _)

theorem sdtServices_within (fuel : Nat) (forceEit : OptionStatus) (serviceId : Int)
    (sectionLength pos : Nat) (dest : List UInt8) :
    OrOutside (sdtServicesIn fuel forceEit serviceId data sectionLength pos dest)
      (sdtServicesIn fuel forceEit serviceId full sectionLength pos dest) := by
  induction fuel generalizing pos with
  | zero => exact .refl _
  | succ fuel ih =>
    refine .ite (.bind (slice_within hfull _ _) fun descr => ?_) (.refl _)
    refine .ite (.bind (copyDescriptors_within hfull _ _ _ _ _) fun kept => ?_) (ih _)
    exact .ite (ih _) (.refl _)

end within

/-- A rewriting that stays inside of the section does not depend on what follows it. -/
theorem sdtChannelRewrite_within (vars : RewriteParameters) (channel : MumudvbChannel)
    (data : Buffer UInt8 n) (buf : Packet) (rest : List UInt8)
    (hfull : vars.fullSdt.dataFull.cells = data.cells ++ rest) :
    OrOutside (sdtChannelRewriteIn vars channel data buf) (sdtChannelRewrite vars channel buf) := by
  rw [← sdtChannelRewriteIn_full]
  refine .ite (.refl _) (.bind (.refl _) fun dest => ?_)
  dsimp only
  by_cases h11 : 11 ≤ n
  · have hlen := data.length_cells
    have honly : (onlySectionAt vars.fullSdt.dataFull 0).cells =
        (onlySectionAt data 0).cells ++ rest := by
      rw [onlySectionAt_zero, onlySectionAt_zero, hfull, makeOnlySection_append (by omega)]
    have htable : tableId (onlySectionAt vars.fullSdt.dataFull 0).cells =
        tableId (onlySectionAt data 0).cells := by
      rw [honly, tableId, tableId, byteAt_append_left (by rw [Buffer.length_cells]; omega)]
    have hlength : sectionLength vars.fullSdt.dataFull.cells = sectionLength data.cells := by
      rw [hfull, sectionLength, sectionLength, byteAt_append_left (by omega),
        byteAt_append_left (by omega)]
    rw [htable, hlength]
    refine .bind (slice_within honly _ _) fun head => .bind (.refl _) fun dest => ?_
    exact .ite (.refl _) (.bind (sdtServices_within honly _ _ _ _ _ _) fun search => .refl _)
  · rw [Buffer.slice, if_neg (by simp only [sdtLen]; omega)]
    exact .inl rfl

/-- How far the loop over the descriptors has come, and how many bytes it has kept. -/
structure Walk where
  pos : Nat
  kept : Nat

section walk

variable (s : List UInt8) (start len : Nat)

/-- The length of a descriptor with its tag and its length, in an `unsigned char`. -/
def descriptorLen (i : Nat) : Nat := (byteAt s (i + 1) + 2).toNat

/-- One turn of the loop over the `len` bytes of descriptors at `start`. -/
def Walk.next (w : Walk) : Walk :=
  if w.pos < len then
    ⟨w.pos + descriptorLen s (start + w.pos),
      if sdtRewriteCopyDescriptor (byteAt s (start + w.pos)) then
        w.kept + descriptorLen s (start + w.pos)
      else w.kept⟩
  else w

def walk : Nat → Walk → Walk
  | 0, w => w
  | k + 1, w => walk k (w.next s start len)

/-- The tag and the length lie in the section, and so does a descriptor that is copied. -/
def DescriptorInside (w : Walk) : Prop :=
  start + w.pos + 2 ≤ s.length ∧
    (sdtRewriteCopyDescriptor (byteAt s (start + w.pos)) = true →
      start + w.pos + descriptorLen s (start + w.pos) ≤ s.length)

/-- So do all the descriptors that the loop comes to. -/
def DescriptorsInside (w : Walk) : Prop :=
  ∀ k, (walk s start len k w).pos < len → DescriptorInside s start (walk s start len k w)

end walk

section entries

variable (s : List UInt8)

/-- The entry behind the one at `pos`. -/
def nextEntry (pos : Nat) : Nat := pos + (5 + descriptorsLoopLength (s.drop pos))

def entryFrom : Nat → Nat → Nat
  | 0, pos => pos
  | k + 1, pos => entryFrom k (nextEntry s pos)

/-- The descriptors of the entry at `pos`. -/
def entryWalk (pos k : Nat) : Walk :=
  walk s (pos + 5) (descriptorsLoopLength (s.drop pos)) k ⟨0, 0⟩

/-- The loop goes on behind the entry: it is another service's, or its descriptors come to an end
and more than 162 bytes of them are kept. -/
def Passed (serviceId : Int) (pos : Nat) : Prop :=
  serviceId ≠ descrServiceId (s.drop pos) ∨
    ∃ k, descriptorsLoopLength (s.drop pos) ≤ (entryWalk s pos k).pos ∧
      162 < (entryWalk s pos k).kept

/-- The descriptors of the entries that the loop looks into lie in the section. -/
def EntriesInside (serviceId : Int) (sectionLength pos : Nat) : Prop :=
  ∀ k, (∀ j < k, Passed s serviceId (entryFrom s j pos)) → entryFrom s k pos + 5 < sectionLength →
    serviceId = descrServiceId (s.drop (entryFrom s k pos)) →
    DescriptorsInside s (entryFrom s k pos + 5)
      (descriptorsLoopLength (s.drop (entryFrom s k pos))) ⟨0, 0⟩

end entries

section walk

variable {s : List UInt8} {start len : Nat} {w : Walk}

theorem walk_of_le (h : len ≤ w.pos) (k : Nat) : walk s start len k w = w := by
  induction k with
  | zero => rfl
  | succ k ih => rw [walk, Walk.next, if_neg (by omega), ih]

/-- A descriptor of 254 bytes: the loop stands still. -/
theorem walk_stuck (h : descriptorLen s (start + w.pos) = 0) (k : Nat) :
    walk s start len k w = w := by
  induction k with
  | zero => rfl
  | succ k ih =>
    have hnext : w.next s start len = w := by
      simp only [Walk.next, h, Nat.add_zero, ite_self]
    rw [walk, hnext, ih]

theorem descriptorsInside_next (h : w.pos < len) :
    DescriptorsInside s start len w ↔
      DescriptorInside s start w ∧ DescriptorsInside s start len (w.next s start len) := by
  constructor
  · exact fun hall => ⟨hall 0 h, fun k => hall (k + 1)⟩
  · rintro ⟨hfirst, hrest⟩ k hk
    cases k with
    | zero => exact hfirst
    | succ k => exact hrest k hk

theorem descriptorsInside_of_le (h : len ≤ w.pos) : DescriptorsInside s start len w := by
  intro k hk
  rw [walk_of_le h] at hk
  omega

/-- The loop comes to its end at one place only. -/
theorem walk_end_unique {j k : Nat} (hj : len ≤ (walk s start len j w).pos)
    (hk : len ≤ (walk s start len k w).pos) : walk s start len j w = walk s start len k w := by
  induction j generalizing k w with
  | zero => exact (walk_of_le hj k).symm
  | succ j ih =>
    cases k with
    | zero => exact walk_of_le hk (j + 1)
    | succ k => exact ih hj hk

end walk

section copy

variable {data : Buffer UInt8 n} {start len : Nat}

theorem read_byte {i : Nat} (h : i < n) : data.read i = .ok (byteAt data.cells i) :=
  data.read_ok (getElem?_of_byteAt (by rwa [data.length_cells]))

theorem read_outside {i : Nat} (h : n ≤ i) : data.read i = .error .outOfBounds := by
  rw [Buffer.read, List.getElem?_eq_none (by rwa [data.length_cells])]

/-- What one turn of the loop does with a descriptor that lies in the section. -/
theorem copyDescriptorsIn_turn (hn : n ≤ 4096) (hstart : 5 ≤ start) (fuel : Nat)
    {pos : Nat} {kept : List UInt8} (hpos : pos < len) (hkept : kept.length ≤ pos)
    (hinside : DescriptorInside data.cells start ⟨pos, kept.length⟩) :
    ∃ kept', kept'.length ≤ pos + descriptorLen data.cells (start + pos) ∧
      Walk.next data.cells start len ⟨pos, kept.length⟩ =
        ⟨pos + descriptorLen data.cells (start + pos), kept'.length⟩ ∧
      copyDescriptorsIn (fuel + 1) data start len pos kept =
        copyDescriptorsIn fuel data start len (pos + descriptorLen data.cells (start + pos))
          kept' := by
  obtain ⟨htwo, hcopied⟩ := hinside
  rw [data.length_cells] at htwo hcopied
  dsimp only at htwo hcopied
  rw [copyDescriptorsIn, if_pos hpos, read_byte (by omega), bind_ok, read_byte (by omega), bind_ok]
  have hlength : (byteAt data.cells (start + pos + 1) + 2).toNat =
      descriptorLen data.cells (start + pos) := rfl
  simp only [hlength, Walk.next, if_pos hpos]
  by_cases hcopy : sdtRewriteCopyDescriptor (byteAt data.cells (start + pos)) = true
  · have hend := hcopied hcopy
    rw [if_pos hcopy, if_pos hcopy, data.slice_ok hend, bind_ok,
      if_pos (by simp only [sdtDescrLen, maxTsSize]; omega), pure_ok,
      bind_ok]
    have hlen : ((data.cells.drop (start + pos)).take
        (descriptorLen data.cells (start + pos))).length =
          descriptorLen data.cells (start + pos) := by
      rw [List.length_take, List.length_drop, data.length_cells]
      omega
    refine ⟨kept ++ (data.cells.drop (start + pos)).take
      (descriptorLen data.cells (start + pos)), ?_, ?_, rfl⟩
    · rw [List.length_append, hlen]
      omega
    · rw [List.length_append, hlen]
  · rw [if_neg hcopy, if_neg hcopy, bind_ok]
    exact ⟨kept, by omega, rfl, rfl⟩

theorem copyDescriptorsIn_outside {fuel pos : Nat} {kept : List UInt8} (hpos : pos < len)
    (houtside : ¬DescriptorInside data.cells start ⟨pos, kept.length⟩) :
    copyDescriptorsIn (fuel + 1) data start len pos kept = .error .outOfBounds := by
  rw [copyDescriptorsIn, if_pos hpos]
  by_cases htag : start + pos < n
  · rw [read_byte htag, bind_ok]
    by_cases hlen : start + pos + 1 < n
    · rw [read_byte hlen, bind_ok]
      have hcopied : ¬(sdtRewriteCopyDescriptor (byteAt data.cells (start + pos)) = true →
          start + pos + descriptorLen data.cells (start + pos) ≤ data.cells.length) := by
        intro hcopied
        exact houtside ⟨by rw [data.length_cells]; dsimp only; omega, hcopied⟩
      rw [Classical.not_imp, data.length_cells] at hcopied
      dsimp only
      rw [if_pos hcopied.1, Buffer.slice, if_neg (by exact hcopied.2)]
      rfl
    · rw [read_outside (by omega)]
      rfl
  · rw [read_outside (by omega)]
    rfl

/-- A descriptor of 254 bytes is the last one that is looked at. -/
theorem copyDescriptorsIn_stuck (hn : n ≤ 4096) (hstart : 5 ≤ start) {pos : Nat}
    (hpos : pos < len) (hstuck : descriptorLen data.cells (start + pos) = 0) (fuel : Nat)
    (kept : List UInt8) (hkept : kept.length ≤ pos)
    (hinside : DescriptorInside data.cells start ⟨pos, kept.length⟩) :
    copyDescriptorsIn fuel data start len pos kept = .error .endless := by
  induction fuel generalizing kept with
  | zero => rfl
  | succ fuel ih =>
    obtain ⟨kept', hkept', hnext, hturn⟩ :=
      copyDescriptorsIn_turn hn hstart fuel hpos hkept hinside
    rw [hstuck, Nat.add_zero] at hkept'
    rw [hturn, hstuck, Nat.add_zero, ih kept' hkept' hinside]

/-- The loop stays inside of the section exactly when the descriptors that it comes to lie there. -/
theorem copyDescriptorsIn_inside_iff (hn : n ≤ 4096) (hstart : 5 ≤ start) (fuel pos : Nat)
    (kept : List UInt8) (hkept : kept.length ≤ pos) (hfuel : len < pos + fuel) :
    copyDescriptorsIn fuel data start len pos kept ≠ .error .outOfBounds ↔
      DescriptorsInside data.cells start len ⟨pos, kept.length⟩ := by
  induction fuel generalizing pos kept with
  | zero => exact iff_of_true (by rw [copyDescriptorsIn]; simp) (descriptorsInside_of_le (by
      dsimp only
      omega))
  | succ fuel ih =>
    by_cases hpos : pos < len
    · rw [descriptorsInside_next hpos]
      by_cases hinside : DescriptorInside data.cells start ⟨pos, kept.length⟩
      · rw [and_iff_right hinside]
        obtain ⟨kept', hkept', hnext, hturn⟩ :=
          copyDescriptorsIn_turn hn hstart fuel hpos hkept hinside
        by_cases hstuck : descriptorLen data.cells (start + pos) = 0
        · rw [copyDescriptorsIn_stuck hn hstart hpos hstuck _ kept hkept hinside]
          refine iff_of_true (by simp) fun k hk => ?_
          have hsame : Walk.next data.cells start len ⟨pos, kept.length⟩ = ⟨pos, kept.length⟩ :=
            walk_stuck (w := ⟨pos, kept.length⟩) hstuck 1
          rw [hsame, walk_stuck (w := ⟨pos, kept.length⟩) hstuck]
          exact hinside
        · have hrest := ih (pos + descriptorLen data.cells (start + pos)) kept' hkept' (by omega)
          rw [hturn, hnext]
          exact hrest
      · exact iff_of_false (fun h => h (copyDescriptorsIn_outside hpos hinside))
          fun h => hinside h.1
    · rw [copyDescriptorsIn, if_neg hpos]
      exact iff_of_true (by simp) (descriptorsInside_of_le (by dsimp only; omega))

/-- The loop ends where the descriptors do. -/
theorem copyDescriptorsIn_ends (hn : n ≤ 4096) (hstart : 5 ≤ start) (fuel pos : Nat)
    (kept : List UInt8) (hkept : kept.length ≤ pos) (hfuel : len ≤ pos + fuel)
    (hinside : DescriptorsInside data.cells start len ⟨pos, kept.length⟩) (k : Nat)
    (hend : len ≤ (walk data.cells start len k ⟨pos, kept.length⟩).pos) :
    ∃ kept', copyDescriptorsIn (fuel + 1) data start len pos kept = .ok kept' ∧
      kept'.length = (walk data.cells start len k ⟨pos, kept.length⟩).kept := by
  induction fuel generalizing pos kept k with
  | zero =>
    have hpos : ¬pos < len := by omega
    rw [walk_of_le (by dsimp only; omega), copyDescriptorsIn, if_neg hpos]
    exact ⟨kept, rfl, rfl⟩
  | succ fuel ih =>
    by_cases hpos : pos < len
    · obtain ⟨hfirst, hrest⟩ := (descriptorsInside_next hpos).mp hinside
      obtain ⟨kept', hkept', hnext, hturn⟩ :=
        copyDescriptorsIn_turn hn hstart (fuel + 1) hpos hkept hfirst
      have hmoves : descriptorLen data.cells (start + pos) ≠ 0 := by
        intro hstuck
        rw [walk_stuck (w := ⟨pos, kept.length⟩) hstuck] at hend
        dsimp only at hend
        omega
      cases k with
      | zero =>
        rw [walk] at hend
        dsimp only at hend
        omega
      | succ k =>
        rw [walk, hnext] at hend ⊢
        rw [hnext] at hrest
        rw [hturn]
        exact ih (pos + descriptorLen data.cells (start + pos)) kept' hkept' (by omega) hrest k hend
    · rw [walk_of_le (by dsimp only; omega), copyDescriptorsIn, if_neg hpos]
      exact ⟨kept, rfl, rfl⟩

/-- What it has copied when it ends. -/
theorem walk_of_copyDescriptorsIn (hn : n ≤ 4096) (hstart : 5 ≤ start) {fuel pos : Nat}
    {kept kept' : List UInt8} (hkept : kept.length ≤ pos)
    (hcopy : copyDescriptorsIn fuel data start len pos kept = .ok kept') :
    ∃ k, len ≤ (walk data.cells start len k ⟨pos, kept.length⟩).pos ∧
      kept'.length = (walk data.cells start len k ⟨pos, kept.length⟩).kept := by
  induction fuel generalizing pos kept with
  | zero => cases hcopy
  | succ fuel ih =>
    by_cases hpos : pos < len
    · by_cases hinside : DescriptorInside data.cells start ⟨pos, kept.length⟩
      · obtain ⟨kept₁, hkept₁, hnext, hturn⟩ :=
          copyDescriptorsIn_turn hn hstart fuel hpos hkept hinside
        rw [hturn] at hcopy
        obtain ⟨k, hend, hlen⟩ := ih hkept₁ hcopy
        rw [← hnext] at hend hlen
        exact ⟨k + 1, hend, hlen⟩
      · rw [copyDescriptorsIn_outside hpos hinside] at hcopy
        cases hcopy
    · rw [copyDescriptorsIn, if_neg hpos] at hcopy
      cases hcopy
      exact ⟨0, by simpa [walk] using hpos, rfl⟩

end copy

section services

variable {data : Buffer UInt8 n} {forceEit : OptionStatus} {serviceId : Int}
  {sectionLength : Nat}

theorem le_entryFrom (s : List UInt8) (k pos : Nat) : pos ≤ entryFrom s k pos := by
  induction k generalizing pos with
  | zero => exact Nat.le_refl _
  | succ k ih =>
    have := ih (nextEntry s pos)
    rw [entryFrom]
    rw [nextEntry] at this ⊢
    omega

theorem entriesInside_end {s : List UInt8} {pos : Nat} (h : ¬pos + 5 < sectionLength) :
    EntriesInside s serviceId sectionLength pos := by
  intro k _ hk
  have := le_entryFrom s k pos
  omega

theorem entriesInside_next {s : List UInt8} {pos : Nat} (h : pos + 5 < sectionLength) :
    EntriesInside s serviceId sectionLength pos ↔
      (serviceId = descrServiceId (s.drop pos) →
        DescriptorsInside s (pos + 5) (descriptorsLoopLength (s.drop pos)) ⟨0, 0⟩) ∧
      (Passed s serviceId pos → EntriesInside s serviceId sectionLength (nextEntry s pos)) := by
  constructor
  · intro hall
    refine ⟨hall 0 (fun j hj => absurd hj (Nat.not_lt_zero j)) h, ?_⟩
    intro hpassed k hbefore
    refine hall (k + 1) fun j hj => ?_
    cases j with
    | zero => exact hpassed
    | succ j => exact hbefore j (by omega)
  · rintro ⟨hfirst, hrest⟩ k hbefore
    cases k with
    | zero => exact fun _ => hfirst
    | succ k => exact hrest (hbefore 0 (by omega)) k fun j hj => hbefore (j + 1) (by omega)

/-- The header of an entry, where it lies. -/
theorem slice_descr {pos : Nat} (h : pos + 5 ≤ n) :
    ∃ descr, data.slice pos 5 = .ok descr ∧ descr.length = 5 ∧
      descrServiceId descr = descrServiceId (data.cells.drop pos) ∧
      descriptorsLoopLength descr = descriptorsLoopLength (data.cells.drop pos) := by
  have hlen : ((data.cells.drop pos).take 5).length = 5 := by
    rw [List.length_take, List.length_drop, data.length_cells]
    omega
  have hbyte : ∀ i < 5, byteAt ((data.cells.drop pos).take 5) i = byteAt (data.cells.drop pos) i :=
    fun i hi => byteAt_take hi
  refine ⟨_, data.slice_ok h, hlen, ?_, ?_⟩
  · rw [descrServiceId, descrServiceId, hbyte 0 (by decide), hbyte 1 (by decide)]
  · rw [descriptorsLoopLength, descriptorsLoopLength, hbyte 3 (by decide), hbyte 4 (by decide)]

theorem descriptorsLoopLength_lt (d : List UInt8) : descriptorsLoopLength d < 4096 := by
  have := (byteAt d 4).toNat_lt
  rw [descriptorsLoopLength, hilo]
  omega

/-- The loop over the descriptors of the entry at `pos`. -/
abbrev copyEntry (data : Buffer UInt8 n) (pos : Nat) : Checked (List UInt8) :=
  copyDescriptorsIn (4096 + 1) data (pos + 5) (descriptorsLoopLength (data.cells.drop pos)) 0 []

/-- An entry of the service is passed if more of it is kept than the packet has room for. -/
theorem passed_iff (hn : n ≤ 4096) {pos : Nat}
    (hservice : serviceId = descrServiceId (data.cells.drop pos)) {kept : List UInt8}
    (hcopy : copyEntry data pos = .ok kept) :
    Passed data.cells serviceId pos ↔ 162 < kept.length := by
  have h0 : ([] : List UInt8).length ≤ 0 := Nat.le_refl _
  obtain ⟨k, hend, hlen⟩ := walk_of_copyDescriptorsIn hn (Nat.le_add_left 5 pos) h0 hcopy
  rw [List.length_nil] at hend hlen
  constructor
  · rintro (h | ⟨j, hj, hmore⟩)
    · exact absurd hservice h
    · rw [entryWalk] at hj hmore
      rw [hlen, walk_end_unique hend hj]
      exact hmore
  · intro h
    refine .inr ⟨k, hend, ?_⟩
    rw [hlen] at h
    exact h

/-- A loop that leaves the section, or does not end, is not passed. -/
theorem not_passed (hn : n ≤ 4096) {pos : Nat}
    (hservice : serviceId = descrServiceId (data.cells.drop pos)) {e : Fault}
    (hcopy : copyEntry data pos = .error e)
    (hinside : DescriptorsInside data.cells (pos + 5)
      (descriptorsLoopLength (data.cells.drop pos)) ⟨0, 0⟩) :
    ¬Passed data.cells serviceId pos := by
  rintro (h | ⟨k, hend, -⟩)
  · exact h hservice
  · have hloop := descriptorsLoopLength_lt (data.cells.drop pos)
    obtain ⟨kept, hok, -⟩ := copyDescriptorsIn_ends hn (Nat.le_add_left 5 pos) 4096 0 []
      (Nat.le_refl _) (by omega) hinside k hend
    rw [copyEntry, hok] at hcopy
    cases hcopy

/-- The loop over the services stays inside of the section exactly when the descriptors of the
entries that it looks into do. -/
theorem sdtServicesIn_inside_iff (hn : n ≤ 4096) (hlength : sectionLength ≤ n) (fuel pos : Nat)
    (hfuel : sectionLength < pos + fuel) {dest : List UInt8} (hdest : dest.length = 16) :
    sdtServicesIn fuel forceEit serviceId data sectionLength pos dest ≠ .error .outOfBounds ↔
      EntriesInside data.cells serviceId sectionLength pos := by
  induction fuel generalizing pos with
  | zero => exact iff_of_true (by rw [sdtServicesIn]; simp) (entriesInside_end (by omega))
  | succ fuel ih =>
    rw [sdtServicesIn]
    by_cases hpos : pos + 5 < sectionLength
    · obtain ⟨descr, hslice, hdescr, hid, hloop⟩ := @slice_descr n data pos (by omega)
      have hnext : pos + (5 + descriptorsLoopLength (data.cells.drop pos)) =
          nextEntry data.cells pos := rfl
      have hrest := ih (nextEntry data.cells pos) (by rw [nextEntry]; omega)
      rw [entriesInside_next hpos]
      simp only [sdtDescrLen, maxTsSize, tsPacketSize, if_pos hpos, hslice, bind_ok, hid, hloop,
        hnext]
      by_cases hservice : serviceId = descrServiceId (data.cells.drop pos)
      · rw [if_pos hservice, imp_iff_right hservice]
        have hloop_lt := descriptorsLoopLength_lt (data.cells.drop pos)
        have hinside := @copyDescriptorsIn_inside_iff n data (pos + 5)
          (descriptorsLoopLength (data.cells.drop pos)) hn (by omega) (4096 + 1) 0 [] (by simp)
          (by omega)
        rw [List.length_nil] at hinside
        rw [← hinside]
        cases hcopy : copyDescriptorsIn (4096 + 1) data (pos + 5)
          (descriptorsLoopLength (data.cells.drop pos)) 0 [] with
        | error e =>
          rw [hcopy] at hinside
          rw [bind_error, ne_eq, Except.error.injEq, ne_eq, Except.error.injEq]
          rw [ne_eq, Except.error.injEq] at hinside
          refine ⟨fun h => ⟨h, fun hpassed => ?_⟩, fun h => h.1⟩
          exact absurd hpassed (not_passed hn hservice hcopy (hinside.mp h))
        | ok kept =>
          have hpassed := passed_iff hn hservice hcopy
          rw [bind_ok, hpassed, and_iff_right (by simp), ← hrest, hdest]
          by_cases hfit : 162 < kept.length
          · rw [if_pos (by omega), imp_iff_right hfit]
          · rw [if_neg (by omega)]
            refine iff_of_true ?_ fun h => absurd h hfit
            split
            · simp
            · rw [appendDest_ok (by rw [length_sdtEntry, hdest, hdescr]; omega)]
              simp
      · rw [if_neg hservice, hrest]
        have hpassed : Passed data.cells serviceId pos := .inl hservice
        exact ⟨fun h => ⟨fun h' => absurd h' hservice, fun _ => h⟩, fun h => h.2 hpassed⟩
    · rw [if_neg hpos]
      exact iff_of_true (by simp) (entriesInside_end hpos)

end services

section agree

variable {s t : List UInt8} (hlen : s.length = t.length)
  (hbyte : ∀ i, 11 ≤ i → byteAt s i = byteAt t i)

include hbyte

theorem walk_agree {start : Nat} (hstart : 11 ≤ start) (len k : Nat) (w : Walk) :
    walk s start len k w = walk t start len k w := by
  induction k generalizing w with
  | zero => rfl
  | succ k ih =>
    have hnext : w.next s start len = w.next t start len := by
      rw [Walk.next, Walk.next, descriptorLen, descriptorLen, hbyte _ (by omega),
        hbyte _ (by omega)]
    rw [walk, walk, hnext, ih]

theorem descr_agree {pos : Nat} (hpos : 11 ≤ pos) :
    descrServiceId (s.drop pos) = descrServiceId (t.drop pos) ∧
      descriptorsLoopLength (s.drop pos) = descriptorsLoopLength (t.drop pos) := by
  have hdrop : ∀ i, byteAt (s.drop pos) i = byteAt (t.drop pos) i := by
    intro i
    rw [byteAt_drop, byteAt_drop, hbyte _ (by omega)]
  rw [descrServiceId, descrServiceId, descriptorsLoopLength, descriptorsLoopLength]
  simp only [hdrop, and_self]

theorem entryFrom_agree {pos : Nat} (hpos : 11 ≤ pos) (k : Nat) :
    entryFrom s k pos = entryFrom t k pos := by
  induction k generalizing pos with
  | zero => rfl
  | succ k ih =>
    rw [entryFrom, entryFrom, nextEntry, nextEntry, (descr_agree hbyte hpos).2, ih (by omega)]

theorem passed_agree {pos : Nat} (hpos : 11 ≤ pos) (serviceId : Int) :
    Passed s serviceId pos ↔ Passed t serviceId pos := by
  simp only [Passed, entryWalk, (descr_agree hbyte hpos).1, (descr_agree hbyte hpos).2,
    walk_agree hbyte (show 11 ≤ pos + 5 by omega)]

include hlen

theorem descriptorsInside_agree {start : Nat} (hstart : 11 ≤ start) (len : Nat) (w : Walk) :
    DescriptorsInside s start len w ↔ DescriptorsInside t start len w := by
  have hinside : ∀ v, DescriptorInside s start v ↔ DescriptorInside t start v := by
    intro v
    rw [DescriptorInside, DescriptorInside, descriptorLen, descriptorLen, hlen,
      hbyte _ (by omega), hbyte _ (by omega)]
  simp only [DescriptorsInside, hinside, walk_agree hbyte hstart]

/-- The three fields of the header that are changed play no part. -/
theorem entriesInside_agree (serviceId : Int) (sectionLength : Nat) :
    EntriesInside s serviceId sectionLength 11 ↔ EntriesInside t serviceId sectionLength 11 := by
  have hpos : ∀ k, 11 ≤ entryFrom t k 11 := fun k => le_entryFrom t k 11
  have hinside : ∀ k, DescriptorsInside s (entryFrom t k 11 + 5)
      (descriptorsLoopLength (t.drop (entryFrom t k 11))) ⟨0, 0⟩ ↔
        DescriptorsInside t (entryFrom t k 11 + 5)
          (descriptorsLoopLength (t.drop (entryFrom t k 11))) ⟨0, 0⟩ := by
    intro k
    have := hpos k
    exact descriptorsInside_agree hlen hbyte (by omega) _ _
  simp only [EntriesInside, entryFrom_agree hbyte (Nat.le_refl 11), passed_agree hbyte (hpos _),
    (descr_agree hbyte (hpos _)).1, (descr_agree hbyte (hpos _)).2, hinside]

end agree

theorem byteAt_makeOnlySection {s : List UInt8} {i : Nat} (h : 8 ≤ i) :
    byteAt (makeOnlySection s) i = byteAt s i := by
  rw [makeOnlySection, byteAt_set_ne (by omega), byteAt_set_ne (by omega),
    byteAt_set_ne (by omega)]

section result

variable {vars : RewriteParameters} {channel : MumudvbChannel} {data : Buffer UInt8 n}
  {buf : Packet}

/-- What the loop leaves in `buf_dest` has room for the CRC. -/
theorem sdtServicesIn_room {fuel pos sectionLength : Nat} {forceEit : OptionStatus}
    {serviceId : Int} {dest dest' : List UInt8} {found : Bool} (hdest : dest.length = 16)
    (h : sdtServicesIn fuel forceEit serviceId data sectionLength pos dest =
      .ok (.ended found dest')) : dest'.length ≤ 184 := by
  induction fuel generalizing pos with
  | zero => cases h
  | succ fuel ih =>
    rw [sdtServicesIn] at h
    split at h
    · obtain ⟨descr, hslice, h⟩ := bind_eq_ok.mp h
      dsimp only at h
      split at h
      · obtain ⟨kept, -, h⟩ := bind_eq_ok.mp h
        split at h
        · exact ih h
        · rename_i hfit
          have hdescr : descr.length ≤ 5 := by
            rw [Buffer.slice] at hslice
            split at hslice
            · cases hslice
              rw [List.length_take]
              simp only [sdtDescrLen]
              omega
            · cases hslice
          rw [hdest] at hfit
          simp only [sdtDescrLen, tsPacketSize] at hfit
          split at h
          · cases h
          · rw [appendDest_ok (by rw [length_sdtEntry, hdest]; omega)] at h
            cases h
            rw [List.length_append, length_sdtEntry]
            omega
      · exact ih h
    · cases h
      omega

theorem allSectionsSeen_ok (hlast : vars.sdtLastSectionNumber < 256) :
    ∃ allSeen, sdtRewriteAllSectionsSeen vars = .ok allSeen := by
  have hloop : ∀ (is : List Nat) (b : Bool), (∀ i ∈ is, i < 256) →
      ∃ allSeen, is.foldlM (fun allSeen i => do
        let seen ← vars.sdtSectionNumbersSeen.read i
        return allSeen && seen) b = (.ok allSeen : Checked Bool) := by
    intro is
    induction is with
    | nil => exact fun b _ => ⟨b, rfl⟩
    | cons i is ih =>
      intro b hall
      obtain ⟨seen, hread, -⟩ := vars.sdtSectionNumbersSeen.read_lt (hall i List.mem_cons_self)
      rw [List.foldlM_cons, hread, bind_ok, pure_ok, bind_ok]
      exact ih _ fun j hj => hall j (List.mem_cons_of_mem _ hj)
  refine hloop _ true fun i hi => ?_
  rw [List.mem_range] at hi
  omega

theorem sdtFinish_ok {st : RewriteState} {found : Bool} {dest : List UInt8}
    (hdest : dest.length ≤ 184) (hlast : st.vars.sdtLastSectionNumber < 256) :
    ∃ r, sdtFinish st found dest = .ok r := by
  obtain ⟨p, hclose, -⟩ := closeSection_ok hdest
  obtain ⟨allSeen, hseen⟩ := allSectionsSeen_ok hlast
  rw [sdtFinish, hclose, bind_ok, hseen, bind_ok]
  split
  · exact ⟨_, rfl⟩
  · split
    · exact ⟨_, rfl⟩
    · exact ⟨_, rfl⟩

/-- The rewriting stays inside of the section and of its buffers exactly when the channel has no
service, or the section is as long as its header and, if it is of the right table, the descriptors
of the entries that are looked into lie in it. -/
theorem sdtChannelRewriteIn_inside_iff (hsize : sectionSize data.cells = n) (hn : n ≤ 4096)
    (hlast : vars.sdtLastSectionNumber < 256) :
    sdtChannelRewriteIn vars channel data buf ≠ .error .outOfBounds ↔
      channel.serviceId = 0 ∨ (11 ≤ n ∧ (tableId data.cells = 0x42 →
        EntriesInside data.cells channel.serviceId (sectionLength data.cells) 11)) := by
  by_cases hid : channel.serviceId = 0
  · rw [sdtChannelRewriteIn, if_pos hid]
    exact iff_of_true (by simp) (.inl hid)
  · have hlen := data.length_cells
    have h5 : ((startHeader buf).cells.take tsHeaderLen).length = 5 := by simp
    have hheader : appendDest [] ((startHeader buf).cells.take tsHeaderLen) =
        .ok ((startHeader buf).cells.take tsHeaderLen) := appendDest_ok (by rw [h5]; decide)
    rw [sdtChannelRewriteIn, if_neg hid, or_iff_right hid]
    simp only [hheader, bind_ok]
    by_cases h11 : 11 ≤ n
    · have hhead : (onlySectionAt data 0).slice 0 sdtLen =
          .ok (((onlySectionAt data 0).cells.drop 0).take sdtLen) :=
        (onlySectionAt data 0).slice_ok (by simp only [sdtLen]; omega)
      have h16 : (((onlySectionAt data 0).cells.drop 0).take sdtLen).length = 11 := by
        rw [List.length_take, List.length_drop, Buffer.length_cells]
        simp only [sdtLen]
        omega
      have htable : tableId (onlySectionAt data 0).cells = tableId data.cells := by
        rw [onlySectionAt_zero, tableId, tableId, makeOnlySection, byteAt_set_ne (by decide),
          byteAt_set_ne (by decide), byteAt_set_ne (by decide)]
      rw [and_iff_right h11, hhead, bind_ok, appendDest_ok (by rw [h5, h16]; decide), bind_ok,
        htable]
      by_cases h42 : tableId data.cells = 0x42
      · have hlength : sectionLength data.cells ≤ n := by
          rw [sectionSize] at hsize
          omega
        have hdest : ((startHeader buf).cells.take tsHeaderLen ++
            ((onlySectionAt data 0).cells.drop 0).take sdtLen).length = 16 := by
          rw [List.length_append, h5, h16]
        have hsearch := @sdtServicesIn_inside_iff n (onlySectionAt data 0) vars.sdtForceEit
          channel.serviceId _ hn hlength (4096 + 1) 11 (by omega) _ hdest
        have hagree := @entriesInside_agree (onlySectionAt data 0).cells data.cells
          (by rw [Buffer.length_cells, hlen])
          (fun i hi => by rw [onlySectionAt_zero, byteAt_makeOnlySection (by omega)])
          channel.serviceId (sectionLength data.cells)
        rw [if_neg (fun h => h h42), imp_iff_right h42, ← hagree, ← hsearch]
        cases hrun : sdtServicesIn (4096 + 1) vars.sdtForceEit channel.serviceId
          (onlySectionAt data 0) (sectionLength data.cells) 11 ((startHeader buf).cells.take
            tsHeaderLen ++ ((onlySectionAt data 0).cells.drop 0).take sdtLen) with
        | error e =>
          rw [bind_error, ne_eq, Except.error.injEq, ne_eq, Except.error.injEq]
        | ok search =>
          rw [bind_ok]
          refine iff_of_true ?_ (by simp)
          cases search with
          | bug => simp
          | ended found dest =>
            obtain ⟨r, hfinish⟩ := @sdtFinish_ok
              ⟨{ vars with fullSdt := { vars.fullSdt with
                dataFull := onlySectionAt vars.fullSdt.dataFull 0 } }, channel, startHeader buf⟩
              found dest (sdtServicesIn_room hdest hrun) hlast
            dsimp only
            rw [hfinish]
            simp
      · rw [if_pos h42]
        exact iff_of_true (by simp) fun h => absurd h h42
    · rw [Buffer.slice, if_neg (by simp only [sdtLen]; omega)]
      exact iff_of_false (fun h => h rfl) fun h => h11 h.1

end result

/-- The section with the service of `tvSdt` alone. -/
def tvSection : Buffer UInt8 27 := ⟨tvSdt.bytes, rfl⟩

theorem sdtChannelRewriteIn_tv :
    sdtChannelRewriteIn (tvVars .on) tvChannel tvSection zeroPacket ≠ .error .outOfBounds ↔
      tvChannel.serviceId = 0 ∨ (11 ≤ 27 ∧ (tableId tvSection.cells = 0x42 →
        EntriesInside tvSection.cells tvChannel.serviceId (sectionLength tvSection.cells) 11)) :=
  sdtChannelRewriteIn_inside_iff (by decide) (by decide) (by decide)

/-- An SDT whose only service announces 4095 bytes of descriptors and has none. -/
def longLoop : Buffer UInt8 20 :=
  ⟨[0x42, 0xf0, 0x11, 0x00, 0x01, 0xc1, 0x00, 0x00, 0x00, 0x01, 0xff, 0x00, 0x01, 0xfc, 0x8f, 0xff,
    0xbb, 0xc0, 0xa7, 0x7a], rfl⟩

/-- The CRC is right, and the rewriter reads behind the section. -/
theorem longLoop_not_inside :
    crc32 longLoop.cells = 0 ∧ sectionSize longLoop.cells = 20 ∧
      (sdtChannelRewriteIn (tvVars .on) tvChannel longLoop zeroPacket).map Prod.fst =
        .error .outOfBounds := by
  decide +kernel

end MuMuDVB.SdtBounds
