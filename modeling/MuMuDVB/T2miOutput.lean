import MuMuDVB.T2miFrames

/-!
# Where processt2 writes

The realignment of the output drops up to 187 bytes, also when the call has not
written as many: then `output_bytes` wraps around, and the next write is almost
4 GiB behind the buffer. A size check goes wrong only when its sum wraps.
-/
namespace MuMuDVB.T2miOutput

open CheckedMemory RecordedRun MuMuDVB.TsHeader MuMuDVB.T2mi MuMuDVB.T2miInput
  MuMuDVB.T2miCollect MuMuDVB.T2miFrames UserPackets

/-- Every byte is written from 187 before `output_buf_offset` on and inside the buffer, and so is
the new end. -/
structure InRange (outputBufOffset outputBufSize : Nat) (out : Output) : Prop where
  writes : ∀ w ∈ out.writes, ∀ i, w.1 ≤ i → i < w.1 + w.2.length →
    outputBufOffset ≤ i + 187 ∧ i < outputBufSize
  atLeast : 0 ≤ (outputBufOffset : Int) + out.count
  atMost : (outputBufOffset : Int) + out.count ≤ outputBufSize

/-- One of the blocks, laid from `e` on as long as they fit, ends at 2^32 or behind it. -/
def Overflows (outputBufSize : Nat) : Nat → List Nat → Prop
  | _, [] => False
  | e, n :: ns =>
    4294967296 ≤ e + n ∨ (e + n ≤ outputBufSize ∧ Overflows outputBufSize (e + n) ns)

/-- The lengths of the packets that a T2-MI packet has for the output. -/
def lengths (t : List UInt8) : List Nat :=
  (chunks t copyFuel (19 + syncd t)).map fun c => c.length + 1

/-- No sum of a size check wraps; and the realignment drops no more than the call has written, or
nothing is written after it. -/
def Orderly (outputBufOffset outputBufSize : Nat) (first : Bool) (t : List UInt8) : Prop :=
  if syncd t = 0x1fff then outputBufOffset + dataFieldLength t < 4294967296
  else outputBufOffset + restLength first t < 4294967296 ∧
    (outputBufOffset + restLength first t ≤ outputBufSize →
      let part := (outputBufOffset + restLength first t) % 188
      let aligned := outputBufOffset + restLength first t - part
      ¬ Overflows outputBufSize aligned (lengths t) ∧
        (restLength first t < part → ∀ n ∈ (lengths t).head?, outputBufSize < aligned + n))

/-- The call completes the T2-MI packet `t` of the selected PLP. -/
def Finishes (input : Nat → UInt8) (plpId : UInt8) (s : T2State)
    (t : Buffer UInt8 t2packetSize) : Prop :=
  ∃ payloadStart, payloadStartOffset input = some payloadStart ∧ payloadUnitStart input = true ∧
    s.active = true ∧ 1 + (input (4 + payloadStart)).toNat < 184 ∧
    collectEnd input (4 + payloadStart) (1 + (input (4 + payloadStart)).toNat) s = .ok t ∧
    samePlp t.cells plpId = true

section emit

variable {outputBufOffset outputBufSize : Nat} {out : Output} {cs : List (List UInt8)}

theorem count_of_lt (h : out.outputBytes < 2147483648) : out.count = out.outputBytes := if_pos h

theorem writes_emit {w : Nat × List UInt8} (h : w ∈ out.writes) :
    w ∈ (emit outputBufOffset outputBufSize out cs).writes := by
  induction cs generalizing out with
  | nil => exact h
  | cons c cs ih =>
    rw [emit]
    split
    · exact h
    · exact ih (by simp [Output.copy, h])

/-- A block that ends at 2^32 or behind it is not inside the buffer. -/
theorem not_inRange {w : Nat × List UInt8} (h : w ∈ out.writes) (hlen : w.2 ≠ [])
    (hend : outputBufSize < w.1 + w.2.length) : ¬ InRange outputBufOffset outputBufSize out := by
  intro hrange
  have hpos := List.length_pos_iff.mpr hlen
  have := hrange.writes w h (w.1 + w.2.length - 1) (by omega) (by omega)
  omega

/-- One packet behind its sync byte. -/
def packetCopied (outputBufOffset : Nat) (out : Output) (c : List UInt8) : Output :=
  (out.copy outputBufOffset [tsSyncByte]).copy outputBufOffset c

theorem emit_cons (c : List UInt8) : emit outputBufOffset outputBufSize out (c :: cs) =
    if outputBufSize < uadd (uadd outputBufOffset out.outputBytes) (c.length + 1) then out
    else emit outputBufOffset outputBufSize (packetCopied outputBufOffset out c) cs := rfl

theorem writes_packetCopied (c : List UInt8) :
    (packetCopied outputBufOffset out c).writes = out.writes ++
      [(outputBufOffset + out.outputBytes, [tsSyncByte]),
        (outputBufOffset + uadd out.outputBytes 1, c)] := by
  simp [packetCopied, Output.copy]

theorem outputBytes_packetCopied {c : List UInt8}
    (h : out.outputBytes + (c.length + 1) < 4294967296) :
    (packetCopied outputBufOffset out c).outputBytes = out.outputBytes + (c.length + 1) := by
  have hbytes : (packetCopied outputBufOffset out c).outputBytes =
      uadd (uadd out.outputBytes 1) c.length := rfl
  rw [hbytes, uadd_assoc, uadd_of_lt (by omega)]
  omega

theorem InRange.packet {c : List UInt8} (h : InRange outputBufOffset outputBufSize out)
    (hmany : out.outputBytes + (c.length + 1) < 2147483648)
    (hfits : outputBufOffset + out.outputBytes + (c.length + 1) ≤ outputBufSize) :
    InRange outputBufOffset outputBufSize (packetCopied outputBufOffset out c) := by
  have hbytes : (packetCopied outputBufOffset out c).outputBytes =
    out.outputBytes + (c.length + 1) := outputBytes_packetCopied (by omega)
  have hcount : (packetCopied outputBufOffset out c).count =
      ((out.outputBytes + (c.length + 1) : Nat) : Int) := by
    rw [count_of_lt (by omega), hbytes]
  refine ⟨?_, by omega, by omega⟩
  rw [writes_packetCopied, List.forall_mem_append, List.forall_mem_cons, List.forall_mem_singleton,
    uadd_of_lt (by omega)]
  refine ⟨h.writes, fun i hi hlt => ?_, fun i hi hlt => ?_⟩
  · simp only [List.length_singleton] at hlt
    omega
  · simp only at hi hlt
    omega

/-- The packets are inside the buffer unless the sum of a size check wraps. -/
theorem emit_inRange_iff (hS : outputBufSize < 4294967296)
    (hrange : InRange outputBufOffset outputBufSize out)
    (hend : outputBufOffset + out.outputBytes ≤ outputBufSize)
    (hlen : ∀ c ∈ cs, c ≠ [] ∧ c.length ≤ 187)
    (hmany : out.outputBytes + 188 * cs.length < 2147483648) :
    InRange outputBufOffset outputBufSize (emit outputBufOffset outputBufSize out cs) ↔
      ¬ Overflows outputBufSize (outputBufOffset + out.outputBytes)
        (cs.map fun c => c.length + 1) := by
  induction cs generalizing out with
  | nil => simpa [emit, Overflows] using hrange
  | cons c cs ih =>
    rw [List.forall_mem_cons] at hlen
    obtain ⟨⟨hne, hc⟩, hcs⟩ := hlen
    rw [List.length_cons] at hmany
    have hoffset : uadd outputBufOffset out.outputBytes = outputBufOffset + out.outputBytes :=
      uadd_of_lt (by omega)
    rw [emit_cons, hoffset, List.map_cons, Overflows]
    by_cases hwrap : 4294967296 ≤ outputBufOffset + out.outputBytes + (c.length + 1)
    case pos =>
      have hsum : uadd (outputBufOffset + out.outputBytes) (c.length + 1) ≤ outputBufSize := by
        rw [uadd]
        omega
      rw [if_neg (Nat.not_lt.mpr hsum)]
      simp only [hwrap, true_or, not_true_eq_false, iff_false]
      have hwrite : (outputBufOffset + uadd out.outputBytes 1, c) ∈
          (packetCopied outputBufOffset out c).writes := by simp [writes_packetCopied]
      refine not_inRange (writes_emit hwrite) hne ?_
      rw [uadd_of_lt (by omega)]
      simp only
      omega
    case neg =>
      rw [uadd_of_lt (Nat.not_le.mp hwrap)]
      by_cases hroom : outputBufOffset + out.outputBytes + (c.length + 1) ≤ outputBufSize
      case neg =>
        simp only [if_pos (Nat.not_le.mp hroom), hwrap, hroom, false_and, or_self,
          not_false_eq_true, iff_true]
        exact hrange
      case pos =>
        have hbytes : (packetCopied outputBufOffset out c).outputBytes =
          out.outputBytes + (c.length + 1) := outputBytes_packetCopied (by omega)
        rw [if_neg (Nat.not_lt.mpr hroom), ih (hrange.packet (by omega) hroom) (by omega) hcs
          (by omega), hbytes, ← Nat.add_assoc outputBufOffset]
        simp only [hwrap, hroom, false_or, true_and]

/-- The same for an `output_bytes` below zero: the first packet is behind the buffer. -/
theorem emit_wrapped_iff {k : Nat} (hS : outputBufSize < 4294967296)
    (hrange : InRange outputBufOffset outputBufSize out)
    (hbytes : out.outputBytes + k = 4294967296) (hk : 0 < k) (hle : k ≤ outputBufOffset)
    (hO : outputBufOffset ≤ outputBufSize) (hlen : ∀ c ∈ cs, c ≠ [] ∧ c.length ≤ 187) :
    InRange outputBufOffset outputBufSize (emit outputBufOffset outputBufSize out cs) ↔
      ∀ n ∈ (cs.map fun c => c.length + 1).head?,
        outputBufSize < outputBufOffset - k + n ∧ outputBufOffset - k + n < 4294967296 := by
  cases cs with
  | nil => simpa [emit] using hrange
  | cons c cs =>
    have hoffset : uadd outputBufOffset out.outputBytes = outputBufOffset - k := by
      rw [uadd]
      omega
    simp only [emit_cons, hoffset, List.map_cons, List.head?_cons, Option.mem_some_iff, forall_eq']
    by_cases hroom : outputBufSize < uadd (outputBufOffset - k) (c.length + 1)
    case pos =>
      have hc := (hlen c List.mem_cons_self).2
      have hsum : outputBufOffset - k + (c.length + 1) < 4294967296 := by
        by_contra hwrap
        rw [uadd] at hroom
        omega
      rw [uadd_of_lt hsum] at hroom
      rw [if_pos (by rwa [uadd_of_lt hsum])]
      exact iff_of_true hrange ⟨hroom, hsum⟩
    case neg =>
      have hwrite : (outputBufOffset + out.outputBytes, [tsSyncByte]) ∈
          (packetCopied outputBufOffset out c).writes := by simp [writes_packetCopied]
      have hbehind : ¬ InRange outputBufOffset outputBufSize
          (emit outputBufOffset outputBufSize (packetCopied outputBufOffset out c) cs) :=
        not_inRange (writes_emit hwrite) (by simp) (by simp only [List.length_singleton]; omega)
      rw [if_neg hroom]
      refine iff_of_false hbehind fun hfits => hroom ?_
      rw [uadd_of_lt hfits.2]
      exact hfits.1

end emit

section chunks

variable {t : List UInt8}

theorem length_chunks (fuel pos : Nat) : (chunks t fuel pos).length ≤ fuel := by
  induction fuel generalizing pos with
  | zero => exact Nat.le_refl _
  | succ fuel ih =>
    rw [chunks]
    split
    · split
      · exact Nat.zero_le _
      · exact Nat.succ_le_succ (ih _)
    · split
      · exact Nat.succ_le_succ (Nat.zero_le _)
      · exact Nat.zero_le _

theorem chunks_bounds (ht : t.length = t2packetSize) (fuel pos : Nat) :
    ∀ c ∈ chunks t fuel pos, c ≠ [] ∧ c.length ≤ 187 := by
  induction fuel generalizing pos with
  | zero => exact List.forall_mem_nil _
  | succ fuel ih =>
    rw [chunks]
    split
    case isTrue =>
      split
      case isTrue => exact List.forall_mem_nil _
      case isFalse hinside =>
        rw [List.forall_mem_cons]
        have hlen : ((t.drop pos).take 187).length = 187 := by
          rw [List.length_take, List.length_drop, ht]
          simp only [t2packetSize] at hinside ⊢
          omega
        exact ⟨⟨List.ne_nil_of_length_pos (by omega), Nat.le_of_eq hlen⟩, ih _⟩
    case isFalse hend =>
      split
      case isTrue hlt =>
        have hupl := upl_lt t
        have hlen : ((t.drop pos).take (upl t - pos)).length = upl t - pos := by
          rw [List.length_take, List.length_drop, ht]
          simp only [t2packetSize]
          omega
        rw [List.forall_mem_singleton]
        refine ⟨List.ne_nil_of_length_pos (by omega), ?_⟩
        rw [hlen]
        rw [usub] at hend
        omega
      case isFalse => exact List.forall_mem_nil _

end chunks

section extract

variable {outputBufOffset outputBufSize : Nat} {t : Buffer UInt8 t2packetSize} {first first' : Bool}
  {out : Output}

theorem inRange_none (hO : outputBufOffset ≤ outputBufSize) :
    InRange outputBufOffset outputBufSize .none := by
  refine ⟨nofun, ?_, ?_⟩ <;> simp [Output.none, Output.count, hO]

theorem outputBytes_restCopied :
    (restCopied outputBufOffset first t.cells).outputBytes = restLength first t.cells := by
  have hsyncd := syncd_lt t.cells
  rw [restCopied, restLength]
  split
  case isTrue =>
    change uadd 0 ((t.cells.drop 19).take (syncd t.cells - dnp t.cells)).length = _
    rw [List.length_take, List.length_drop, t.length_cells, uadd]
    simp only [t2packetSize]
    omega
  case isFalse => rfl

theorem writes_restCopied : ∀ w ∈ (restCopied outputBufOffset first t.cells).writes,
    w.1 = outputBufOffset ∧ w.2.length = restLength first t.cells := by
  have hsyncd := syncd_lt t.cells
  rw [restCopied, restLength]
  split
  case isTrue =>
    simp [Output.copy, Output.none]
    omega
  case isFalse => exact List.forall_mem_nil _

theorem exists_write_restCopied (h : 0 < restLength first t.cells) :
    ∃ w ∈ (restCopied outputBufOffset first t.cells).writes,
      w.1 = outputBufOffset ∧ w.2.length = restLength first t.cells := by
  have hcond : first = false ∧ 0 < syncd t.cells := by
    by_contra hcond
    rw [restLength, if_neg hcond] at h
    exact Nat.lt_irrefl _ h
  have hwrite : (outputBufOffset + 0, (t.cells.drop 19).take (syncd t.cells - dnp t.cells)) ∈
      (restCopied outputBufOffset first t.cells).writes := by
    rw [restCopied, if_pos hcond]
    exact List.mem_singleton_self _
  exact ⟨_, hwrite, writes_restCopied _ hwrite⟩

/-- What is copied first is inside the buffer; the count after it is what the caller says. -/
theorem inRange_realigned {bytes : Nat}
    (hfits : outputBufOffset + restLength first t.cells ≤ outputBufSize)
    (hlow : 0 ≤ (outputBufOffset : Int) + Output.count ⟨bytes, []⟩)
    (hhigh : (outputBufOffset : Int) + Output.count ⟨bytes, []⟩ ≤ outputBufSize) :
    InRange outputBufOffset outputBufSize
      { restCopied outputBufOffset first t.cells with outputBytes := bytes } := by
  refine ⟨fun w hw i hi hlt => ?_, hlow, hhigh⟩
  obtain ⟨hindex, hlen⟩ := writes_restCopied w hw
  omega

/-- From the realigned output on: the packets are inside the buffer unless a sum wraps, or the
realignment dropped more than there was and a packet still fits. -/
theorem emit_realigned_iff {cs : List (List UInt8)} {part aligned : Nat}
    (hS : outputBufSize < 4294967296)
    (hfits : outputBufOffset + restLength first t.cells ≤ outputBufSize)
    (hlen : ∀ c ∈ cs, c ≠ [] ∧ c.length ≤ 187) (hmany : cs.length ≤ 352)
    (hpart : part = (outputBufOffset + restLength first t.cells) % 188)
    (haligned : aligned = outputBufOffset + restLength first t.cells - part) :
    InRange outputBufOffset outputBufSize (emit outputBufOffset outputBufSize
        (realign outputBufOffset (restCopied outputBufOffset first t.cells)) cs) ↔
      ¬ Overflows outputBufSize aligned (cs.map fun c => c.length + 1) ∧
        (restLength first t.cells < part → ∀ n ∈ (cs.map fun c => c.length + 1).head?,
          outputBufSize < aligned + n) := by
  have hrest := restLength_lt first t.cells
  have hrealign : realign outputBufOffset (restCopied outputBufOffset first t.cells) =
      { restCopied outputBufOffset first t.cells with
        outputBytes := usub (restLength first t.cells) part } := by
    rw [realign, outputBytes_restCopied, uadd_of_lt (by omega), hpart]
  rw [hrealign]
  by_cases hless : restLength first t.cells < part
  case neg =>
    have hbytes : usub (restLength first t.cells) part = restLength first t.cells - part :=
      usub_of_le (by omega) (by omega)
    have hcount : Output.count ⟨restLength first t.cells - part, []⟩ =
        ((restLength first t.cells - part : Nat) : Int) := count_of_lt (by simp only; omega)
    rw [hbytes, emit_inRange_iff hS (inRange_realigned hfits (by omega) (by omega))
      (by simp only; omega) hlen (by simp only; omega)]
    have hend : outputBufOffset + (restLength first t.cells - part) = aligned := by omega
    simp only [hend, hless, false_implies, and_true]
  case pos =>
    have hbytes : usub (restLength first t.cells) part =
        4294967296 - (part - restLength first t.cells) := by
      rw [usub]
      omega
    have hcount : Output.count ⟨4294967296 - (part - restLength first t.cells), []⟩ =
        - ((part - restLength first t.cells : Nat) : Int) := by
      rw [Output.count, if_neg (by simp only; omega)]
      simp only
      omega
    have hle : part ≤ outputBufOffset + restLength first t.cells := by
      rw [hpart]
      exact Nat.mod_le _ _
    rw [hbytes, emit_wrapped_iff (k := part - restLength first t.cells) hS
      (inRange_realigned hfits (by omega) (by omega)) (by simp only; omega) (by omega) (by omega)
      (by omega) hlen]
    have hend : outputBufOffset - (part - restLength first t.cells) = aligned := by omega
    rw [hend]
    cases cs with
    | nil => simp [Overflows]
    | cons c cs =>
      simp only [List.map_cons, List.head?_cons, Option.mem_some_iff, forall_eq', Overflows, hless,
        forall_const]
      constructor
      · rintro ⟨hroom, hsum⟩
        exact ⟨fun h => h.elim (by omega) (fun h => by omega), hroom⟩
      · rintro ⟨hoverflows, hroom⟩
        exact ⟨hroom, Nat.not_le.mp fun h => hoverflows (.inl h)⟩

/-- A rest that ends at 2^32 or behind it. -/
theorem rest_behind {cs : List (List UInt8)} (hS : outputBufSize < 4294967296)
    (hwrap : 4294967296 ≤ outputBufOffset + restLength first t.cells)
    (hO : outputBufOffset ≤ outputBufSize) :
    ¬ InRange outputBufOffset outputBufSize (emit outputBufOffset outputBufSize
      (realign outputBufOffset (restCopied outputBufOffset first t.cells)) cs) := by
  obtain ⟨w, hw, hindex, hlen⟩ : ∃ w ∈ (restCopied outputBufOffset first t.cells).writes,
    w.1 = outputBufOffset ∧ w.2.length = restLength first t.cells :=
    exists_write_restCopied (by omega)
  rw [← writes_realign] at hw
  exact not_inRange (writes_emit hw) (List.ne_nil_of_length_pos (by omega)) (by omega)

/-- A frame in which no packet starts is copied as one block. -/
theorem copy_inRange_iff {bytes : List UInt8} (hS : outputBufSize < 4294967296)
    (hO : outputBufOffset ≤ outputBufSize) (hne : bytes ≠ []) (hlen : bytes.length < 8192)
    (hroom : uadd outputBufOffset bytes.length ≤ outputBufSize) :
    InRange outputBufOffset outputBufSize (Output.none.copy outputBufOffset bytes) ↔
      outputBufOffset + bytes.length < 4294967296 := by
  have hwrite : (outputBufOffset + 0, bytes) ∈ (Output.none.copy outputBufOffset bytes).writes :=
    List.mem_singleton_self _
  constructor
  · intro hrange
    by_contra hwrap
    exact not_inRange hwrite hne (by simp only; omega) hrange
  · intro hsum
    rw [uadd_of_lt hsum] at hroom
    have hcount : (Output.none.copy outputBufOffset bytes).count = (bytes.length : Int) := by
      have hbytes : (Output.none.copy outputBufOffset bytes).outputBytes = bytes.length := by
        change uadd 0 bytes.length = _
        rw [uadd_of_lt (by omega), Nat.zero_add]
      rw [count_of_lt (by omega), hbytes]
    refine ⟨fun w hw i hi hlt => ?_, by omega, by omega⟩
    rw [List.mem_singleton.mp hw] at hi hlt
    simp only [Output.none] at hi hlt
    omega

theorem extract_inRange_iff (hO : outputBufOffset ≤ outputBufSize)
    (hS : outputBufSize < 4294967296)
    (h : extract t outputBufOffset outputBufSize first = .ok (out, first')) :
    InRange outputBufOffset outputBufSize out ↔
      Orderly outputBufOffset outputBufSize first t.cells := by
  have hrest := restLength_lt first t.cells
  have hbounds := chunks_bounds t.length_cells copyFuel (19 + syncd t.cells)
  have hmany : (chunks t.cells copyFuel (19 + syncd t.cells)).length ≤ 352 :=
    length_chunks copyFuel (19 + syncd t.cells)
  rw [Orderly]
  by_cases hsyncd : syncd t.cells = 0x1fff
  case pos =>
    rw [if_pos hsyncd]
    rw [extract_noStart first hsyncd] at h
    split at h
    case isTrue hnone =>
      cases h
      refine iff_of_true (inRange_none hO) ?_
      have hdfl := dataFieldLength_lt t.cells
      rw [uadd] at hnone
      omega
    case isFalse hcopy =>
      rw [← (Prod.mk.inj (Except.ok.inj h)).1]
      obtain ⟨hroom, hne⟩ := not_or.mp hcopy
      have hdfl := dataFieldLength_lt t.cells
      have hlen : ((t.cells.drop 19).take (dataFieldLength t.cells)).length =
          dataFieldLength t.cells := by
        rw [List.length_take, List.length_drop, t.length_cells]
        simp only [t2packetSize]
        omega
      rw [copy_inRange_iff hS hO (List.ne_nil_of_length_pos (by omega)) (by omega)
        (by rw [hlen]; omega), hlen]
  case neg =>
    rw [if_neg hsyncd]
    rw [extract_eq first hsyncd hO hS] at h
    by_cases hwrap : outputBufOffset + restLength first t.cells < 4294967296
    case neg =>
      have hroom : ¬ outputBufSize < uadd outputBufOffset (restLength first t.cells) := by
        rw [uadd]
        omega
      rw [if_neg hroom] at h
      rw [← (Prod.mk.inj (Except.ok.inj h)).1]
      simp only [hwrap, false_and, iff_false]
      exact rest_behind hS (by omega) hO
    case pos =>
      rw [uadd_of_lt hwrap] at h
      by_cases hfits : outputBufOffset + restLength first t.cells ≤ outputBufSize
      case neg =>
        rw [if_pos (Nat.not_le.mp hfits)] at h
        cases h
        simp only [hwrap, hfits, false_implies, and_true, iff_true]
        exact inRange_none hO
      case pos =>
        rw [if_neg (Nat.not_lt.mpr hfits)] at h
        rw [← (Prod.mk.inj (Except.ok.inj h)).1]
        simp only [hwrap, hfits, true_and, forall_const, lengths]
        exact emit_realigned_iff hS hfits hbounds hmany rfl rfl

end extract

/-- Every call that returns: what it writes and its count are in range exactly when the T2-MI packet
it completes, if any, is orderly. -/
theorem processt2_inRange_iff {input : Nat → UInt8} {outputBufOffset outputBufSize : Nat}
    {plpId : UInt8} {s : T2State} {r : Call} (hO : outputBufOffset ≤ outputBufSize)
    (hS : outputBufSize < 4294967296)
    (hcall : processt2 input outputBufOffset outputBufSize plpId s = .ok r) :
    InRange outputBufOffset outputBufSize r.output ↔
      ∀ t, Finishes input plpId s t → Orderly outputBufOffset outputBufSize s.first t.cells := by
  cases processt2_returns hcall with
  | aside haside =>
    refine iff_of_true (inRange_none hO) ?_
    rintro t ⟨payloadStart, hpayload, hunit, hactive, hpointer, -⟩
    exact absurd (haside payloadStart hpayload hunit hactive) (Nat.not_le.mpr hpointer)
  | starts _ hinactive _ =>
    refine iff_of_true (inRange_none hO) ?_
    rintro t ⟨payloadStart, -, -, hactive, -⟩
    exact absurd (hinactive.symm.trans hactive) Bool.false_ne_true
  | continues _ hnostart _ _ =>
    refine iff_of_true (inRange_none hO) ?_
    rintro t ⟨payloadStart, -, hunit, -⟩
    exact absurd (hnostart.symm.trans hunit) Bool.false_ne_true
  | ends hpayload hunit hactive hpointer hend hstart =>
    obtain ⟨t, ht, hend⟩ := bind_eq_ok.mp hend
    obtain ⟨⟨out, first⟩, hextract, ⟨⟩⟩ := bind_eq_ok.mp hend
    have honly : ∀ t', Finishes input plpId s t' → t' = t := by
      rintro t' ⟨payloadStart, hpayload', -, -, -, ht', -⟩
      cases hpayload.symm.trans hpayload'
      exact Except.ok.inj (ht'.symm.trans ht)
    rw [extractPlp] at hextract
    split at hextract
    case isTrue hplp =>
      rw [extract_inRange_iff hO hS hextract]
      constructor
      · intro horderly t' ht'
        rw [honly t' ht']
        exact horderly
      · intro h
        exact h t ⟨_, hpayload, hunit, hactive, hpointer, ht, hplp⟩
    case isFalse hplp =>
      cases hextract
      refine iff_of_true (inRange_none hO) fun t' ht' => ?_
      have heq := honly t' ht'
      obtain ⟨-, -, -, -, -, -, hplp'⟩ := ht'
      rw [heq] at hplp'
      exact absurd hplp' hplp

/-! A frame that ends in the middle of a packet, and one that starts with a packet. -/

def frameStart : Nat → UInt8 := tsPacket true (startPayload 0 0)

/-- The end of a frame of which `k` bytes were sent, and the start of the same frame again. -/
def frameEnd (k : Nat) : Nat → UInt8 := tsPacket true (endPayload 0 0 k (nullFrame 0 0))

theorem isFrame_null : IsFrame 0 false 0 (nullFrame 0 0) := isFrame_nullFrame 0 0 (by decide)

theorem length_marked_null :
    (marked tsSyncByte 187 false.toNat ((dataField (nullFrame 0 0)).drop 0)).length = 190 := by
  rw [length_marked (by decide), dataField_nullFrame, List.drop_zero, List.length_replicate]
  decide

/-- A frame that starts with a packet does not complete the packet before. -/
theorem not_orderly_null {t : Buffer UInt8 t2packetSize} {first : Bool}
    (ht : t.cells.take (nullFrame 0 0).length = nullFrame 0 0) :
    ¬ Orderly 190 65612 first t.cells := by
  obtain ⟨-, hsyncd, -, -⟩ := isFrame_null.header ht
  have hrest : restLength first t.cells = 0 := by
    rw [restLength, hsyncd]
    exact if_neg (by simp)
  have hhead : (lengths t.cells).head? = some 188 := by
    have hchunks := chunks_eq_cut isFrame_null ht copyFuel 0 (Nat.zero_le _) (by decide)
    have hne : List.replicate 188 (0 : UInt8) ≠ [] := List.cons_ne_nil _ _
    rw [lengths, hsyncd, hchunks, dataField_nullFrame, List.drop_zero, cut_of_ne (by decide) hne,
      List.map_cons, List.head?_cons, List.length_take, List.length_replicate]
    rfl
  rw [Orderly, hsyncd, hrest, hhead, if_neg (by decide)]
  rintro ⟨-, horderly⟩
  have hbehind := (horderly (by decide)).2 (by decide) 188 rfl
  exact absurd hbehind (by decide)

/-- The TS packet that ends the frame: what comes out, and the next frame is open. -/
theorem frameEnd_ends (k outputBufOffset : Nat) {s : T2State} (hk : 24 < k) (hk' : k ≤ 207)
    (hcollected : Collected s ((nullFrame 0 0).take k)) :
    ∃ t : Buffer UInt8 t2packetSize, t.cells.take (nullFrame 0 0).length = nullFrame 0 0 ∧
      ∀ out first, extractPlp t outputBufOffset 65612 0 s.first = .ok (out, first) →
        ∃ s' reads, processt2 (frameEnd k) outputBufOffset 65612 0 s = .ok ⟨s', reads, out⟩ ∧
          Collected s' ((nullFrame 0 0).take (k - 24)) ∧ s'.first = first := by
  obtain ⟨j, hj⟩ := Nat.exists_eq_add_of_lt hk
  have htype : ((nullFrame 0 0).take (k - 24)).head? = some 0 := by
    rw [show k - 24 = j + 1 by omega]
    rfl
  have hroom : ((nullFrame 0 0).take k ++ (nullFrame 0 0).drop k).length ≤ t2packetSize := by
    rw [List.take_append_drop, length_nullFrame]
    decide
  have hends := @Collected.ends (frameEnd k) outputBufOffset 65612 0 s _ _ _ _ hcollected
    (payload_tsPacket true (length_endPayload 0 0 (Nat.le_of_lt hk) hk' 0 0))
    (payloadUnitStart_tsPacket true (endPayload 0 0 k (nullFrame 0 0))) rfl htype hroom
  rw [List.take_append_drop] at hends
  exact hends

theorem extractPlp_null {t : Buffer UInt8 t2packetSize}
    (ht : t.cells.take (nullFrame 0 0).length = nullFrame 0 0) :
    ∃ out, extractPlp t 0 65612 0 true = .ok (out, false) ∧ out.count = 190 := by
  have hcompletion : completion false true 0 (nullFrame 0 0) = [] := rfl
  obtain ⟨out, hextract, hemits⟩ : ∃ out, extractPlp t 0 65612 0 true = .ok (out, false) ∧
      Emits 0 out (completion false true 0 (nullFrame 0 0) ++
        marked tsSyncByte 187 false.toNat ((dataField (nullFrame 0 0)).drop 0)) :=
    extractPlp_frame isFrame_null ht (by decide) (by decide) (by rw [hcompletion]; decide)
      (by rw [length_marked_null, hcompletion]; decide) (by decide)
  refine ⟨out, hextract, ?_⟩
  rw [Output.count, hemits.bytes, hcompletion, List.nil_append, length_marked_null]
  decide

/-- The first frame gives 190 bytes, and 159 bytes of the second one are there. -/
theorem firstFrame : ∃ r₁ r₂,
    processt2 frameStart 0 65612 0 initial = .ok r₁ ∧
    processt2 (frameEnd 183) 0 65612 0 r₁.state = .ok r₂ ∧ r₂.output.count = 190 ∧
    Collected r₂.state ((nullFrame 0 0).take 159) := by
  obtain ⟨s₁, reads₁, hcall₁, hcollected₁, hfirst₁⟩ : ∃ s' reads,
      processt2 frameStart 0 65612 0 initial = .ok ⟨s', reads, .none⟩ ∧
        Collected s' ((nullFrame 0 0).take 183) ∧ s'.first = initial.first :=
    starts_collected rfl (payload_tsPacket true (length_startPayload 0 0))
      (payloadUnitStart_tsPacket _ _) rfl rfl
  obtain ⟨t, ht, hends⟩ := frameEnd_ends 183 0 (by decide) (by decide) hcollected₁
  rw [hfirst₁] at hends
  obtain ⟨out, hextract, hcount⟩ := extractPlp_null ht
  obtain ⟨s₂, reads₂, hcall₂, hcollected₂, -⟩ := hends out false hextract
  exact ⟨_, _, hcall₁, hcall₂, hcount, hcollected₂⟩

theorem inRange_firstFrame : ∃ s r, processt2 (frameEnd 183) 0 65612 0 s = .ok r ∧
    r.output.count = 190 ∧ (InRange 0 65612 r.output ↔
      ∀ t, Finishes (frameEnd 183) 0 s t → Orderly 0 65612 s.first t.cells) := by
  obtain ⟨r₁, r₂, -, hcall, hcount, -⟩ := firstFrame
  exact ⟨_, r₂, hcall, hcount, processt2_inRange_iff (by decide) (by decide) hcall⟩

/-- The first frame gives 190 bytes. At the end of the second one `output_bytes` becomes 2^32 - 2,
and the next byte is written there. -/
theorem not_inRange_frameEnd : ∃ r₁ r₂ r₃,
    processt2 frameStart 0 65612 0 initial = .ok r₁ ∧
    processt2 (frameEnd 183) 0 65612 0 r₁.state = .ok r₂ ∧ r₂.output.count = 190 ∧
    processt2 (frameEnd 159) 190 65612 0 r₂.state = .ok r₃ ∧ ¬ InRange 190 65612 r₃.output := by
  obtain ⟨r₁, r₂, hcall₁, hcall₂, hcount, hcollected⟩ := firstFrame
  obtain ⟨t, ht, hends⟩ := frameEnd_ends 159 190 (by decide) (by decide) hcollected
  obtain ⟨⟨out, first⟩, hextract⟩ : ∃ out, extractPlp t 190 65612 0 r₂.state.first = .ok out :=
    extractPlp_ok t r₂.state.first
  obtain ⟨s₃, reads₃, hcall₃, -⟩ := hends out first hextract
  refine ⟨_, _, _, hcall₁, hcall₂, hcount, hcall₃, fun hrange => ?_⟩
  have hplp : samePlp t.cells 0 = true := by
    rw [samePlp, (isFrame_null.header ht).2.2.2]
    decide
  rw [extractPlp, if_pos hplp] at hextract
  exact not_orderly_null ht ((extract_inRange_iff (by decide) (by decide) hextract).mp hrange)

end MuMuDVB.T2miOutput
