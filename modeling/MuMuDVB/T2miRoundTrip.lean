import MuMuDVB.T2miFrames

/-!
# processt2 undoes the encapsulation

TS packets are user packets of a stream of baseband frames, which are cut
without regard to them; each frame is in a T2-MI packet, and the T2-MI packets
are cut over TS packets. Fed with these, `processt2` gives back the first ones
from the first packet boundary on, as far as the finished frames go.
-/
namespace MuMuDVB.T2miRoundTrip

open CheckedMemory MuMuDVB.TsHeader MuMuDVB.T2mi MuMuDVB.T2miCollect MuMuDVB.T2miFrames UserPackets

/-- A TS packet, and the byte that counts deleted null packets behind it. -/
structure UserPacket (npd : Bool) where
  packet : List UInt8
  dnp : List UInt8
  size : packet.length = 188
  sync : packet.head? = some tsSyncByte
  gap : dnp.length = npd.toNat

/-- The user packets back to back, without their sync bytes. -/
def userStream {npd : Bool} (ps : List (UserPacket npd)) : List UInt8 :=
  stream (ps.map fun p => (p.packet.tail, p.dnp))

/-- The T2-MI packets `fs` carry the user packets, from byte `skip` of the stream on: their data
fields follow each other, and SYNCD of each is the distance to the next user packet. -/
structure Framed (plpId : UInt8) {npd : Bool} (skip : Nat) (ps : List (UserPacket npd))
    (fs : List (List UInt8)) : Prop where
  carried : fs.flatMap dataField <+: (userStream ps).drop skip
  frames : ∀ before f after, fs = before ++ f :: after →
    IsFrame plpId npd (toBoundary 187 npd.toNat (skip + (before.flatMap dataField).length)) f

/-- TS packets that carry `rest`, the end of a T2-MI packet, and then `fs`: at most one T2-MI packet
starts in a TS packet, right behind the end of the one before. They may stop anywhere. -/
inductive Splits : List UInt8 → List (List UInt8) → List (Nat → UInt8) → Prop where
  | done (rest : List UInt8) : Splits rest [] []
  | empty {rest : List UInt8} {fs : List (List UInt8)} {input : Nat → UInt8}
      {inputs : List (Nat → UInt8)} (control : adaptationField input = 0x02)
      (later : Splits rest fs inputs) : Splits rest fs (input :: inputs)
  | continues {rest payload : List UInt8} {fs : List (List UInt8)} {input : Nat → UInt8}
      {inputs : List (Nat → UInt8)} (carries : Payload input payload)
      (noStart : payloadUnitStart input = false) (later : Splits rest fs inputs) :
      Splits (payload ++ rest) fs (input :: inputs)
  | starts {rest head more : List UInt8} {fs : List (List UInt8)} {input : Nat → UInt8}
      {inputs : List (Nat → UInt8)}
      (carries : Payload input (UInt8.ofNat rest.length :: (rest ++ head)))
      (start : payloadUnitStart input = true) (some : head ≠ [])
      (later : Splits more fs inputs) : Splits rest ((head ++ more) :: fs) (input :: inputs)

/-- The decapsulator, how much it has produced so far, and the output buffer. -/
structure Delivery where
  state : T2State
  produced : Nat
  buffer : List UInt8

/-- A call with `output_buf_offset` behind what was produced. -/
def receive (outputBufSize : Nat) (plpId : UInt8) (x : Delivery) (input : Nat → UInt8) :
    Checked Delivery := do
  let r ← processt2 input x.produced outputBufSize plpId x.state
  .ok ⟨r.state, (x.produced + r.output.count).toNat, applyWrites x.buffer r.output.writes⟩

/-- The TS packets of the frames `fs`, from the first packet boundary on. -/
def delivered (npd : Bool) (skip : Nat) (fs : List (List UInt8)) : List UInt8 :=
  marked tsSyncByte 187 npd.toNat ((fs.flatMap dataField).drop (toBoundary 187 npd.toNat skip))

/-- The frames `fs` are finished. -/
structure Delivered (outputBufSize : Nat) (npd : Bool) (skip : Nat) (x : Delivery)
    (fs : List (List UInt8)) : Prop where
  first : x.state.first = fs.isEmpty
  produced : x.produced = (delivered npd skip fs).length
  bytes : x.buffer.take x.produced = delivered npd skip fs
  size : x.buffer.length = outputBufSize

section frames

variable {outputBufSize skip : Nat} {plpId : UInt8} {npd : Bool} {x : Delivery}
  {f : List UInt8} {fs : List (List UInt8)}

/-- A call that writes nothing. -/
theorem Delivered.unchanged (h : Delivered outputBufSize npd skip x fs) {input : Nat → UInt8}
    {s' : T2State} {reads : List (Nat × Nat)} (hfirst : s'.first = x.state.first)
    (hcall : processt2 input x.produced outputBufSize plpId x.state = .ok ⟨s', reads, .none⟩) :
    receive outputBufSize plpId x input = .ok { x with state := s' } ∧
      Delivered outputBufSize npd skip { x with state := s' } fs := by
  constructor
  · rw [receive, hcall]
    rfl
  · exact ⟨hfirst.trans h.first, h.produced, h.bytes, h.size⟩

theorem toBoundary_lt_188 (npd : Bool) (k : Nat) : toBoundary 187 npd.toNat k < 188 := by
  have hlt := @toBoundary_lt 187 npd.toNat (by decide) k
  have hgap : npd.toNat ≤ 1 := Bool.toNat_le npd
  omega

/-- The first frame reaches the first packet boundary. -/
theorem Framed.boundary {ps : List (UserPacket npd)} {before after : List (List UInt8)}
    (h : Framed plpId skip ps (before ++ after)) (hne : before ≠ []) :
    toBoundary 187 npd.toNat skip ≤ (before.flatMap dataField).length := by
  obtain ⟨g, before, rfl⟩ := List.exists_cons_of_ne_nil hne
  have hframe := h.frames [] g (before ++ after) rfl
  have hlt := toBoundary_lt_188 npd skip
  have hatLeast := hframe.atLeast
  rw [List.flatMap_cons, List.length_append]
  omega

theorem toBoundary_delivered
    (h : toBoundary 187 npd.toNat skip ≤ (fs.flatMap dataField).length) :
    toBoundary 187 npd.toNat ((fs.flatMap dataField).drop (toBoundary 187 npd.toNat skip)).length =
      toBoundary 187 npd.toNat (skip + (fs.flatMap dataField).length) := by
  rw [List.length_drop, ← toBoundary_from_boundary (by decide) skip]
  congr 1
  omega

/-- One more frame: the rest of the last user packet, and the packets from SYNCD on. -/
theorem delivered_snoc (hfs : fs ≠ [] →
      toBoundary 187 npd.toNat skip ≤ (fs.flatMap dataField).length)
    (hatLeast : 188 ≤ (dataField f).length) {next : Nat}
    (hnext : next = toBoundary 187 npd.toNat (skip + (fs.flatMap dataField).length)) :
    delivered npd skip (fs ++ [f]) = delivered npd skip fs ++
      (completion npd fs.isEmpty next f ++
        marked tsSyncByte 187 npd.toNat ((dataField f).drop next)) := by
  rw [delivered, delivered, List.flatMap_append, List.flatMap_singleton]
  by_cases hempty : fs = []
  case pos =>
    subst hempty
    simp only [List.flatMap_nil, List.length_nil, Nat.add_zero] at hnext
    simp [hnext, completion]
  case neg =>
    have hboundary := hfs hempty
    have hsame := (toBoundary_delivered hboundary).trans hnext.symm
    have hlt := toBoundary_lt_188 npd (skip + (fs.flatMap dataField).length)
    rw [List.drop_append_of_le_length hboundary, marked_append (by decide) (by rw [hsame]; omega),
      hsame, completion, List.isEmpty_eq_false_iff.mpr hempty]
    rfl

/-- What completes the last packet ends at a packet boundary of the output. -/
theorem delivered_aligned (hfs : fs ≠ [] →
      toBoundary 187 npd.toNat skip ≤ (fs.flatMap dataField).length)
    (hatLeast : 188 ≤ (dataField f).length) {next : Nat}
    (hnext : next = toBoundary 187 npd.toNat (skip + (fs.flatMap dataField).length)) :
    ((delivered npd skip fs).length + (completion npd fs.isEmpty next f).length) % 188 = 0 := by
  rw [delivered, completion]
  by_cases hempty : fs = []
  case pos =>
    subst hempty
    simp
  case neg =>
    have hsame := (toBoundary_delivered (hfs hempty)).trans hnext.symm
    have hlt := toBoundary_lt_188 npd (skip + (fs.flatMap dataField).length)
    have hlength : ((dataField f).take (next - npd.toNat)).length = next - npd.toNat := by
      rw [List.length_take]
      omega
    rw [List.isEmpty_eq_false_iff.mpr hempty, length_marked (by decide)]
    simp only [Bool.false_eq_true, ↓reduceIte, hlength]
    have hrest := @markedLength_rest 187 npd.toNat (by decide)
      ((fs.flatMap dataField).drop (toBoundary 187 npd.toNat skip)).length
    rwa [hsame] at hrest

/-- A call that finishes a frame. -/
theorem Delivered.frame (h : Delivered outputBufSize npd skip x fs) {out : Output}
    {xs : List UInt8} (hemits : Emits x.produced out xs)
    (hdelivered : delivered npd skip (fs ++ [f]) = delivered npd skip fs ++ xs)
    (hroom : (delivered npd skip (fs ++ [f])).length ≤ outputBufSize)
    (hlen : xs.length < 2147483648) {input : Nat → UInt8}
    {s' : T2State} {reads : List (Nat × Nat)} (hfirst : s'.first = false)
    (hcall : processt2 input x.produced outputBufSize plpId x.state = .ok ⟨s', reads, out⟩) :
    ∃ x', receive outputBufSize plpId x input = .ok x' ∧ x'.state = s' ∧
      Delivered outputBufSize npd skip x' (fs ++ [f]) := by
  have hlength : (delivered npd skip (fs ++ [f])).length = x.produced + xs.length := by
    rw [hdelivered, List.length_append, h.produced]
  have hsize := h.size
  have hcount : ((x.produced : Int) + out.count).toNat = x.produced + xs.length := by
    rw [Output.count, hemits.bytes, if_pos hlen]
    omega
  have hbuffer : applyWrites x.buffer out.writes = splice x.buffer x.produced xs :=
    hemits.memory x.buffer (by omega)
  refine ⟨⟨s', x.produced + xs.length, splice x.buffer x.produced xs⟩, ?_, rfl, ?_, ?_, ?_, ?_⟩
  · rw [receive, hcall, bind_ok, hcount, hbuffer]
  · simp [hfirst]
  · exact hlength.symm
  · change (splice x.buffer x.produced xs).take (x.produced + xs.length) = _
    rw [take_splice (by omega) rfl, h.bytes, hdelivered]
  · change (splice x.buffer x.produced xs).length = _
    rw [length_splice (by omega), h.size]

theorem delivered_mono {gs : List (List UInt8)} (h : fs <+: gs) :
    (delivered npd skip fs).length ≤ (delivered npd skip gs).length := by
  obtain ⟨more, rfl⟩ := h
  rw [delivered, delivered, List.flatMap_append, List.drop_append]
  exact length_marked_mono (by decide) (List.prefix_append _ _)

end frames

section run

variable {outputBufSize skip : Nat} {plpId : UInt8} {npd : Bool} {ps : List (UserPacket npd)}

/-- A frame gives less than 2^31 bytes. -/
theorem length_frame_lt {next k : Nat} {f : List UInt8} (h : IsFrame plpId npd next f)
    (first : Bool) (gap : Nat) :
    (completion npd first k f ++ marked tsSyncByte 187 gap ((dataField f).drop k)).length <
      2147483648 := by
  have hdfl := h.dfl
  have hlt := hilo_toNat_lt (byteAt f 13) (byteAt f 14)
  have hmarked : (marked tsSyncByte 187 gap ((dataField f).drop k)).length ≤
    2 * ((dataField f).drop k).length := length_marked_le (by decide)
  have hcompletion : (completion npd first k f).length ≤ (dataField f).length := by
    rw [completion]
    split
    · exact Nat.zero_le _
    · rw [List.length_take]
      exact Nat.min_le_right _ _
  rw [List.length_drop] at hmarked
  rw [List.length_append]
  omega

/-- The TS packet in which the frame `f` ends. -/
theorem Delivered.ends {x : Delivery} {fs later : List (List UInt8)} {f sent rest head : List UInt8}
    {input : Nat → UInt8} (h : Delivered outputBufSize npd skip x fs)
    (hcollected : Collected x.state sent) (hf : f = sent ++ rest)
    (hframed : Framed plpId skip ps (fs ++ f :: later))
    (hpayload : Payload input (UInt8.ofNat rest.length :: (rest ++ head)))
    (hunit : payloadUnitStart input = true) (htype : head.head? = some 0) (hplp : plpId < 128)
    (hroom : (delivered npd skip (fs ++ [f])).length ≤ outputBufSize)
    (hS : outputBufSize < 4294967296) :
    ∃ x', receive outputBufSize plpId x input = .ok x' ∧ Collected x'.state head ∧
      Delivered outputBufSize npd skip x' (fs ++ [f]) := by
  have hframe := hframed.frames fs f later rfl
  have hatLeast := hframe.atLeast
  have hboundary : fs ≠ [] → toBoundary 187 npd.toNat skip ≤ (fs.flatMap dataField).length :=
    hframed.boundary
  have haligned := delivered_aligned hboundary hatLeast rfl
  have hsnoc := delivered_snoc hboundary hatLeast rfl
  have hlength := congrArg List.length hsnoc
  rw [List.length_append, List.length_append] at hlength
  rw [← h.produced, ← h.first] at haligned hlength
  rw [← h.first] at hsnoc
  obtain ⟨t, hcells, hends⟩ := hcollected.ends hpayload hunit rfl htype
    (by rw [← hf]; exact hframe.atMost)
  rw [← hf] at hcells
  obtain ⟨out, hextract, hemits⟩ := extractPlp_frame hframe hcells hplp (toBoundary_lt_188 npd _)
    haligned (by omega) hS
  obtain ⟨s', reads, hcall, hhead, hfirst⟩ := hends out false hextract
  obtain ⟨x', hreceive, rfl, hdelivered⟩ := h.frame hemits hsnoc hroom
    (length_frame_lt hframe _ _) hfirst hcall
  exact ⟨x', hreceive, hhead, hdelivered⟩

/-- With a T2-MI packet open, of which `sent` is collected and `rest` is to come. -/
theorem receive_open {rest : List UInt8} {later : List (List UInt8)} {inputs : List (Nat → UInt8)}
    (hplp : plpId < 128) (hS : outputBufSize < 4294967296) (hsplits : Splits rest later inputs) :
    ∀ x fs sent, Framed plpId skip ps (fs ++ (sent ++ rest) :: later) →
      Delivered outputBufSize npd skip x fs → Collected x.state sent →
      (delivered npd skip (fs ++ (sent ++ rest) :: later).dropLast).length ≤ outputBufSize →
      ∃ x', inputs.foldlM (receive outputBufSize plpId) x = .ok x' ∧
        Delivered outputBufSize npd skip x' (fs ++ (sent ++ rest) :: later).dropLast := by
  induction hsplits with
  | done rest =>
    intro x fs sent _ hdelivered _ _
    rw [List.dropLast_concat]
    exact ⟨x, rfl, hdelivered⟩
  | @empty rest later input inputs control _ ih =>
    intro x fs sent hframed hdelivered hcollected hroom
    have hnone : payloadStartOffset input = none := by simp [payloadStartOffset, control]
    obtain ⟨hreceive, hdelivered⟩ := hdelivered.unchanged rfl (processt2_aside hnone)
    rw [List.foldlM_cons, hreceive, bind_ok]
    exact ih _ fs sent hframed hdelivered hcollected hroom
  | @continues rest payload later input inputs carries noStart _ ih =>
    intro x fs sent hframed hdelivered hcollected hroom
    have hframe := hframed.frames fs _ later rfl
    have hatMost := hframe.atMost
    rw [← List.append_assoc] at hframed hroom hatMost ⊢
    obtain ⟨s', reads, hcall, hcollected, hfirst⟩ := hcollected.continues carries noStart
      (by rw [List.length_append] at hatMost; omega)
    obtain ⟨hreceive, hdelivered⟩ := hdelivered.unchanged hfirst hcall
    rw [List.foldlM_cons, hreceive, bind_ok]
    exact ih _ fs (sent ++ payload) hframed hdelivered hcollected hroom
  | @starts rest head more later input inputs carries start some _ ih =>
    intro x fs sent hframed hdelivered hcollected hroom
    have hboth := hframed
    rw [List.append_cons] at hboth hroom ⊢
    have htype := (hboth.frames (fs ++ [sent ++ rest]) (head ++ more) later rfl).packetType
    rw [List.head?_append_of_ne_nil _ some] at htype
    have hfits : (delivered npd skip (fs ++ [sent ++ rest])).length ≤ outputBufSize := by
      refine Nat.le_trans (delivered_mono ?_) hroom
      rw [List.dropLast_append_of_ne_nil (List.cons_ne_nil _ _)]
      exact List.prefix_append _ _
    obtain ⟨x', hreceive, hcollected, hdelivered⟩ := hdelivered.ends hcollected rfl hframed carries
      start htype hplp hfits hS
    rw [List.foldlM_cons, hreceive, bind_ok]
    exact ih x' (fs ++ [sent ++ rest]) head hboth hdelivered hcollected hroom

/-- With no T2-MI packet open: what is left of one of which the start was missed is passed over. -/
theorem receive_closed {rest : List UInt8} {fs : List (List UInt8)} {inputs : List (Nat → UInt8)}
    (hplp : plpId < 128) (hS : outputBufSize < 4294967296) (hsplits : Splits rest fs inputs)
    (hframed : Framed plpId skip ps fs)
    (hroom : (delivered npd skip fs.dropLast).length ≤ outputBufSize) :
    ∀ x, x.state.active = false → Delivered outputBufSize npd skip x [] →
      ∃ x', inputs.foldlM (receive outputBufSize plpId) x = .ok x' ∧
        Delivered outputBufSize npd skip x' fs.dropLast := by
  induction hsplits with
  | done rest =>
    intro x _ hdelivered
    exact ⟨x, rfl, hdelivered⟩
  | @empty rest fs input inputs control _ ih =>
    intro x hactive hdelivered
    have hnone : payloadStartOffset input = none := by simp [payloadStartOffset, control]
    obtain ⟨hreceive, hdelivered⟩ := hdelivered.unchanged rfl (processt2_aside hnone)
    rw [List.foldlM_cons, hreceive, bind_ok]
    exact ih hframed hroom _ hactive hdelivered
  | @continues rest payload fs input inputs carries noStart _ ih =>
    intro x hactive hdelivered
    obtain ⟨payloadStart, hstart, -⟩ := carries.offset
    obtain ⟨hreceive, hdelivered⟩ := hdelivered.unchanged rfl
      (processt2_missed hstart noStart hactive)
    rw [List.foldlM_cons, hreceive, bind_ok]
    exact ih hframed hroom _ hactive hdelivered
  | @starts rest head more later input inputs carries start some hlater _ =>
    intro x hactive hdelivered
    have htype := (hframed.frames [] (head ++ more) later rfl).packetType
    rw [List.head?_append_of_ne_nil _ some] at htype
    obtain ⟨s', reads, hcall, hcollected, hfirst⟩ :=
      starts_collected hactive carries start rfl htype
    obtain ⟨hreceive, hdelivered⟩ := hdelivered.unchanged hfirst hcall
    rw [List.foldlM_cons, hreceive, bind_ok]
    exact receive_open hplp hS hlater _ [] head hframed hdelivered hcollected hroom

end run

/-- The original TS packets from the first packet boundary on, up to the end of the last finished
frame: all `fs` but the last one are finished. -/
def original {npd : Bool} (skip : Nat) (ps : List (UserPacket npd)) (fs : List (List UInt8)) :
    List UInt8 :=
  let period := 187 + npd.toNat
  let start := skip + toBoundary 187 npd.toNat skip
  let len := skip + (fs.dropLast.flatMap dataField).length - start
  ((ps.drop (start / period)).flatMap (·.packet)).take (markedLength 187 npd.toNat len)

section original

variable {skip : Nat} {plpId : UInt8} {npd : Bool} {ps : List (UserPacket npd)}
  {fs : List (List UInt8)}

theorem UserPacket.cons (p : UserPacket npd) : tsSyncByte :: p.packet.tail = p.packet :=
  List.cons_head?_tail p.sync

/-- The stream from packet `j` on gives the TS packets from there on. -/
theorem marked_userStream (j k : Nat) :
    marked tsSyncByte 187 npd.toNat (((userStream ps).drop (j * (187 + npd.toNat))).take k) =
      ((ps.drop j).flatMap (·.packet)).take (markedLength 187 npd.toNat k) := by
  have hsizes : ∀ (qs : List (UserPacket npd)), ∀ p ∈ qs.map fun p => (p.packet.tail, p.dnp),
      p.1.length = 187 ∧ p.2.length = npd.toNat := by
    intro qs p hp
    obtain ⟨q, -, rfl⟩ := List.mem_map.mp hp
    exact ⟨by rw [List.length_tail, q.size], q.gap⟩
  rw [userStream, drop_stream (hsizes ps), ← List.map_drop, marked_take_stream (by decide)
    (hsizes (ps.drop j)), List.flatMap_map]
  simp only [UserPacket.cons]

theorem delivered_eq_original (h : Framed plpId skip ps fs) :
    delivered npd skip fs.dropLast = original skip ps fs := by
  have hprefix : fs.dropLast.flatMap dataField <+: (userStream ps).drop skip := by
    obtain ⟨more, hmore⟩ := List.dropLast_prefix fs
    refine List.IsPrefix.trans ⟨more.flatMap dataField, ?_⟩ h.carried
    rw [← List.flatMap_append, hmore]
  have hstart : (skip + toBoundary 187 npd.toNat skip) / (187 + npd.toNat) * (187 + npd.toNat) =
      skip + toBoundary 187 npd.toNat skip :=
    Nat.div_mul_cancel (Nat.dvd_of_mod_eq_zero (add_toBoundary_mod (by decide) skip))
  have hlen : skip + (fs.dropLast.flatMap dataField).length -
      (skip + toBoundary 187 npd.toNat skip) =
        (fs.dropLast.flatMap dataField).length - toBoundary 187 npd.toNat skip := by omega
  rw [delivered, original]
  simp only [hlen]
  rw [← marked_userStream, hstart, ← List.drop_drop, ← List.drop_take,
    ← List.prefix_iff_eq_take.mp hprefix]

end original

/-- From the initial state, with room for what comes out. -/
theorem t2mi_roundTrip {npd : Bool} {skip outputBufSize : Nat} {plpId : UInt8}
    {ps : List (UserPacket npd)} {fs : List (List UInt8)} {rest : List UInt8}
    {inputs : List (Nat → UInt8)} {buffer : List UInt8} (hplp : plpId < 128)
    (hframed : Framed plpId skip ps fs) (hsplits : Splits rest fs inputs)
    (hbuffer : buffer.length = outputBufSize) (hS : outputBufSize < 4294967296)
    (hroom : (original skip ps fs).length ≤ outputBufSize) :
    ∃ x, inputs.foldlM (receive outputBufSize plpId) ⟨initial, 0, buffer⟩ = .ok x ∧
      x.produced = (original skip ps fs).length ∧
      x.buffer.take x.produced = original skip ps fs := by
  have hempty : delivered npd skip [] = [] := by simp [delivered]
  have hstart : Delivered outputBufSize npd skip ⟨initial, 0, buffer⟩ [] :=
    ⟨rfl, by rw [hempty]; rfl, by rw [hempty]; rfl, hbuffer⟩
  rw [← delivered_eq_original hframed] at hroom ⊢
  obtain ⟨x, hrun, hdelivered⟩ := receive_closed hplp hS hsplits hframed hroom _ rfl hstart
  exact ⟨x, hrun, hdelivered.produced, hdelivered.bytes⟩

/-! Three null packets in two frames of 188 bytes; the first one ends in the second TS packet. -/

def nullPacket : UserPacket false where
  packet := tsSyncByte :: List.replicate 187 0
  dnp := []
  size := by rw [List.length_cons, List.length_replicate]
  sync := rfl
  gap := rfl

def nullPackets : List (UserPacket false) := [nullPacket, nullPacket, nullPacket]

def nullFrames : List (List UInt8) := [nullFrame 0 0, nullFrame 0x05 0xd0]

def nullInputs : List (Nat → UInt8) :=
  [tsPacket true (startPayload 0 0), tsPacket true (endPayload 0 0 183 (nullFrame 0x05 0xd0))]

theorem framed_nullPackets : Framed 0 0 nullPackets nullFrames := by
  refine ⟨⟨List.replicate 185 0, by decide +kernel⟩, fun before f after heq => ?_⟩
  cases before with
  | nil =>
    cases heq
    exact isFrame_nullFrame 0 0 (by decide)
  | cons g before =>
    cases before with
    | nil =>
      obtain ⟨hg, hrest⟩ := List.cons.inj heq
      obtain ⟨rfl, -⟩ := List.cons.inj hrest
      rw [← hg, List.flatMap_singleton, dataField_nullFrame, List.length_replicate]
      exact isFrame_nullFrame 0x05 0xd0 (by decide)
    | cons g' before => simp [nullFrames] at heq

theorem splits_nullPackets : Splits [] nullFrames nullInputs := by
  have hcut : ∀ a b k, (nullFrame a b).take k ++ (nullFrame a b).drop k = nullFrame a b :=
    fun a b k => List.take_append_drop k (nullFrame a b)
  have hsecond : Splits ((nullFrame 0 0).drop 183) [nullFrame 0x05 0xd0]
      [tsPacket true (endPayload 0 0 183 (nullFrame 0x05 0xd0))] := by
    have hlen : (endPayload 0 0 183 (nullFrame 0x05 0xd0)).length = 184 :=
      length_endPayload 0 0 (by decide) (by decide) 0x05 0xd0
    have hstarts := Splits.starts (payload_tsPacket true hlen) (payloadUnitStart_tsPacket _ _)
      (by decide) (.done ((nullFrame 0x05 0xd0).drop 159))
    rwa [hcut] at hstarts
  have hstarts := Splits.starts (payload_tsPacket true (length_startPayload 0 0))
      (payloadUnitStart_tsPacket _ _) (by decide) hsecond
  rwa [hcut] at hstarts

theorem roundTrip_nullPackets :
    ∃ x, nullInputs.foldlM (receive 65612 0) ⟨initial, 0, List.replicate 65612 0⟩ = .ok x ∧
      x.produced = (original 0 nullPackets nullFrames).length ∧
      x.buffer.take x.produced = original 0 nullPackets nullFrames :=
  t2mi_roundTrip (by decide) framed_nullPackets splits_nullPackets List.length_replicate (by decide)
    (by decide +kernel)

end MuMuDVB.T2miRoundTrip
