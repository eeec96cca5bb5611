import MuMuDVB.UnicastHttp

/-!
# Requests in pieces

The buffer of a client holds what came in so far, zeros up to its end and a
zero behind it, however the pieces were cut and whenever it grew. So the
string that is parsed is what came in, and the last piece of a request decides
alone.
-/
namespace MuMuDVB.UnicastSplit

open CheckedMemory CString MuMuDVB.UnicastHttp

/-- The buffer holds `t`: there is none yet, or the rest of its `buffersize + 1` bytes are zeros. -/
structure Holding (client : HttpClient) (t : List UInt8) : Prop where
  pos : client.bufferpos = t.length
  room : t.length ≤ client.buffersize
  block : client.buffer = none ∧ client.buffersize = 0 ∨
    client.buffer = some (t ++ List.replicate (client.buffersize + 1 - t.length) 0)

/-- The text comes in pieces of 1 to 100 bytes, and there is memory for it. -/
structure Delivers (arrivals : List Arrival) (text : List UInt8) : Prop where
  granted : ∀ a ∈ arrivals, a.granted = true
  piece : ∀ a ∈ arrivals, ∃ piece, a.recv = some piece ∧ 1 ≤ piece.length ∧
    piece.length ≤ recvBufferMultiple
  whole : (arrivals.flatMap fun a => a.recv.getD []) = text

/-- LF CR LF is in the text, at its end only. -/
def EndsOnce (text : List UInt8) : Prop :=
  [10, 13, 10] <:+ text ∧ ∀ u v, text = u ++ [10, 13, 10] ++ v → v = []

/-- The calls for what comes in, with what each one does and leaves. -/
def handleMessages (channels : List HttpChannel) :
    HttpClient → List Arrival → Checked (List (Action × HttpClient))
  | _, [] => .ok []
  | client, a :: later => do
    let step ← handleMessage channels client a
    let steps ← handleMessages channels step.2 later
    return step :: steps

variable {channels : List HttpChannel} {client : HttpClient} {a : Arrival}
  {t piece text : List UInt8}

theorem length_realloc (cells : List UInt8) (n : Nat) (fresh : Nat → UInt8) :
    (realloc cells n fresh).length = n := by
  rw [realloc, List.length_map, List.length_range]

theorem take_realloc {cells : List UInt8} {n k : Nat} (fresh : Nat → UInt8) (hk : k ≤ cells.length)
    (hn : k ≤ n) : (realloc cells n fresh).take k = cells.take k := by
  apply List.ext_getElem
  · rw [List.length_take, List.length_take, length_realloc]
    omega
  · intro i hi hi'
    have hlt : i < k := by
      rw [List.length_take] at hi
      omega
    rw [List.getElem_take, List.getElem_take]
    simp only [realloc, List.getElem_map, List.getElem_range]
    rw [List.getElem?_eq_getElem (by omega), Option.getD_some]

/-- What the buffer holds, up to its old size. -/
theorem Holding.take_block (h : Holding client t) :
    client.buffersize ≤ (client.buffer.getD []).length ∧
      (client.buffer.getD []).take client.buffersize =
        t ++ List.replicate (client.buffersize - t.length) 0 := by
  have hroom := h.room
  rcases h.block with ⟨hnone, hzero⟩ | hblock
  · have ht : t = [] := List.length_eq_zero_iff.mp (by omega)
    rw [hnone, hzero, ht]
    simp
  · rw [hblock, Option.getD_some, List.length_append, List.length_replicate]
    refine ⟨by omega, ?_⟩
    rw [List.take_append, List.take_of_length_le hroom, List.take_replicate]
    congr 2
    omega

/-- After the first lines there is room for 100 bytes more. -/
theorem growBuffer_spec (h : Holding client t) (hgranted : a.granted = true) :
    ∃ (size : Nat) (x : UInt8), t.length + 100 ≤ size ∧
      growBuffer client a = .ok (some { client with
        buffer := some (t ++ (List.replicate (size - t.length) 0 ++ [x]))
        buffersize := size }) := by
  have hroom := h.room
  have hpos := h.pos
  rw [growBuffer]
  split
  case isTrue hshort =>
    obtain ⟨hlen, htake⟩ := h.take_block
    have hnew := length_realloc (client.buffer.getD []) (client.buffersize + 100 + 1) a.fresh
    obtain ⟨x, hx⟩ := List.length_eq_one_iff.mp (show ((realloc (client.buffer.getD [])
      (client.buffersize + 100 + 1) a.fresh).drop (client.buffersize + 100)).length = 1 by
        rw [List.length_drop, hnew]
        omega)
    refine ⟨client.buffersize + 100, x, by omega, ?_⟩
    have hcells : splice (realloc (client.buffer.getD []) (client.buffersize + 100 + 1) a.fresh)
        client.buffersize (List.replicate 100 0) =
        t ++ (List.replicate (client.buffersize + 100 - t.length) 0 ++ [x]) := by
      rw [splice, List.length_replicate, hx, take_realloc a.fresh hlen (by omega), htake,
        List.append_assoc, List.append_assoc, ← List.append_assoc (List.replicate _ _),
        List.replicate_append_replicate, Nat.sub_add_comm hroom]
    simp only [recvBufferMultiple]
    rw [writeBlock, if_pos (by rw [hnew, List.length_replicate]; omega), bind_ok,
      hcells]
    rfl
  case isFalse hfits =>
    simp only [recvBufferMultiple] at hfits
    rcases h.block with ⟨_, hzero⟩ | hblock
    · omega
    · refine ⟨client.buffersize, 0, by omega, ?_⟩
      have hend : List.replicate (client.buffersize - t.length) (0 : UInt8) ++ [0] =
          List.replicate (client.buffersize + 1 - t.length) 0 := by
        rw [← List.replicate_succ', Nat.sub_add_comm hroom]
      rw [hend, ← hblock]
      rfl

/-- The string that is parsed is what came in. -/
theorem receive_spec (h : Holding client t) (hgranted : a.granted = true)
    (hrecv : a.recv = some piece) (hmin : 1 ≤ piece.length) (hmax : piece.length ≤ 100)
    (hnul : 0 ∉ t ++ piece) : ∃ client', receive client a = .ok (.text (t ++ piece), client') ∧
      Holding client' (t ++ piece) := by
  obtain ⟨size, x, hroom, hgrow⟩ := growBuffer_spec h hgranted
  obtain ⟨c, cs, hpiece⟩ := List.exists_cons_of_ne_nil (List.ne_nil_of_length_pos hmin)
  have htake : (c :: cs).take recvBufferMultiple = piece := by
    rw [← hpiece]
    exact List.take_of_length_le hmax
  have hzeros : List.replicate (size - t.length) (0 : UInt8) =
      List.replicate piece.length 0 ++ List.replicate (size - (t ++ piece).length) 0 := by
    rw [List.replicate_append_replicate, List.length_append]
    congr 1
    omega
  have hpieceIn : splice (t ++ (List.replicate (size - t.length) 0 ++ [x])) t.length piece =
      (t ++ piece ++ List.replicate (size - (t ++ piece).length) 0) ++ ([x] ++ []) := by
    rw [hzeros, List.append_assoc, splice_middle _ _ _ _ List.length_replicate.symm]
    simp only [List.append_assoc, List.append_nil]
  have hlen : (t ++ piece ++ List.replicate (size - (t ++ piece).length) 0).length = size := by
    rw [List.length_append, List.length_replicate, List.length_append]
    omega
  have hterminated : splice ((t ++ piece ++ List.replicate (size - (t ++ piece).length) 0) ++
      ([x] ++ [])) size [0] = (t ++ piece) ++ List.replicate (size + 1 - (t ++ piece).length) 0 := by
    have hsplice := splice_middle (t ++ piece ++ List.replicate (size - (t ++ piece).length) 0)
      [x] [] [0] rfl
    rw [hlen] at hsplice
    rw [hsplice, List.append_assoc, List.append_nil, ← List.replicate_succ']
    congr 2
    rw [List.length_append]
    omega
  have hrest : List.replicate (size + 1 - (t ++ piece).length) (0 : UInt8) =
      0 :: List.replicate (size - (t ++ piece).length) 0 := by
    rw [← List.replicate_succ]
    congr 1
    rw [List.length_append]
    omega
  have hwrite : writeBlock (t ++ (List.replicate (size - t.length) 0 ++ [x])) t.length piece =
      .ok ((t ++ piece ++ List.replicate (size - (t ++ piece).length) 0) ++ ([x] ++ [])) := by
    rw [writeBlock, hpieceIn, if_pos]
    simp only [List.length_append, List.length_replicate, List.length_cons]
    omega
  have hend : writeBlock ((t ++ piece ++ List.replicate (size - (t ++ piece).length) 0) ++
      ([x] ++ [])) size [0] =
      .ok ((t ++ piece) ++ List.replicate (size + 1 - (t ++ piece).length) 0) := by
    rw [writeBlock, hterminated, if_pos]
    rw [List.length_append, hlen]
    exact Nat.le_refl _
  have hlog : ∃ bs, (if client.bufferpos = 0 then readBlock ((t ++ piece ++
      List.replicate (size - (t ++ piece).length) 0) ++ ([x] ++ [])) 0 6 else .ok [] :
      Checked (List UInt8)) = .ok bs := by
    split
    · rw [readBlock, if_pos (by rw [List.length_append, hlen]; omega)]
      exact ⟨_, rfl⟩
    · exact ⟨_, rfl⟩
  obtain ⟨bs, hlog⟩ := hlog
  refine ⟨{ client with
    buffer := some ((t ++ piece) ++ List.replicate (size + 1 - (t ++ piece).length) 0)
    buffersize := size
    bufferpos := client.bufferpos + piece.length }, ?_, ?_, ?_, Or.inr rfl⟩
  · rw [receive, hgrow, bind_ok]
    dsimp only
    rw [hrecv, hpiece]
    dsimp only
    rw [htake, h.pos, hwrite, bind_ok, ← h.pos, hlog, bind_ok, hend, bind_ok, hrest,
      cstring_append hnul, bind_ok, pure_ok, ← hpiece, hrest]
  · show client.bufferpos + piece.length = (t ++ piece).length
    rw [h.pos, List.length_append]
  · show (t ++ piece).length ≤ size
    rw [List.length_append]
    omega

/-- What is in the buffer of a client between two calls has `buffersize + 1` bytes. -/
def Fits (client : HttpClient) : Prop :=
  ∀ cells, client.buffer = some cells → cells.length = client.buffersize + 1

theorem Holding.fits (h : Holding client t) : Fits client := by
  intro cells hcells
  have hroom := h.room
  rcases h.block with ⟨hnone, _⟩ | hblock
  · rw [hnone] at hcells
    cases hcells
  · rw [hblock, Option.some.injEq] at hcells
    rw [← hcells, List.length_append, List.length_replicate]
    omega

/-- A part of a request that ends before its end is not complete. -/
theorem complete_part {rest : List UInt8} (hend : EndsOnce (t ++ rest)) (hrest : rest ≠ []) :
    complete t = false := by
  by_contra h
  rw [Bool.not_eq_false, complete, Bool.and_eq_true, strstr_isSome] at h
  obtain ⟨_, u, v, ht⟩ := h
  have hv := hend.2 u (v ++ rest) (by rw [← List.append_assoc, ht])
  exact hrest (List.append_eq_nil_iff.mp hv).2

theorem answer_fits {s : List UInt8} (h : Fits client) : Fits (answer channels client s).2 := by
  rw [answer]
  split
  · split
    · dsimp only
      split
      · exact h
      · exact h
      · split <;> exact fun cells hcells => by cases hcells
    · split
      · exact h
      · intro cells hcells
        dsimp only at hcells
        split at hcells
        · obtain ⟨before, hbefore, rfl⟩ := Option.map_eq_some_iff.mp hcells
          rw [List.length_set]
          exact h before hbefore
        · exact h cells hcells
  · exact h

/-- The action depends on the string and on two fields of the client. -/
theorem answer_congr {client' : HttpClient} {s : List UInt8} (hptr : client'.chanPtr = client.chanPtr)
    (hasked : client'.askedChannel = client.askedChannel) :
    (answer channels client' s).1 = (answer channels client s).1 := by
  have hget : getRequest channels client' s = getRequest channels client s := by
    simp only [getRequest, unlessStreamed, hptr, hasked]
  rw [answer, answer, hget, hptr]
  split
  · split
    · dsimp only
      cases getRequest channels client s with
      | notFound => rfl
      | reply r => rfl
      | channel requested =>
        dsimp only
        split <;> rfl
    · split <;> rfl
  · rfl

theorem handleMessage_spec (h : Holding client t) (hgranted : a.granted = true)
    (hrecv : a.recv = some piece) (hmin : 1 ≤ piece.length) (hmax : piece.length ≤ 100)
    (hnul : 0 ∉ t ++ piece) : ∃ client', Holding client' (t ++ piece) ∧
      client'.chanPtr = client.chanPtr ∧ client'.askedChannel = client.askedChannel ∧
      handleMessage channels client a = .ok (answer channels client' (t ++ piece)) := by
  obtain ⟨client', hreceive, hholding⟩ := receive_spec h hgranted hrecv hmin hmax hnul
  obtain ⟨hptr, hasked⟩ := receive_frame hreceive
  exact ⟨client', hholding, hptr, hasked, by rw [handleMessage, hreceive]; rfl⟩

theorem Delivers.tail {later : List Arrival} (h : Delivers (a :: later) text) :
    ∃ piece rest, a.recv = some piece ∧ (1 ≤ piece.length ∧ piece.length ≤ 100) ∧
      text = piece ++ rest ∧ Delivers later rest ∧ (later ≠ [] → rest ≠ []) := by
  obtain ⟨piece, hrecv, hmin, hmax⟩ := h.piece a List.mem_cons_self
  have hlater : ∀ b ∈ later, b ∈ a :: later := fun b hb => List.mem_cons_of_mem a hb
  refine ⟨piece, _, hrecv, ⟨hmin, hmax⟩, ?_, ⟨fun b hb => h.granted b (hlater b hb),
    fun b hb => h.piece b (hlater b hb), rfl⟩, fun hne hnil => ?_⟩
  · rw [← h.whole, List.flatMap_cons, hrecv, Option.getD_some]
  · obtain ⟨b, later', rfl⟩ := List.exists_cons_of_ne_nil hne
    obtain ⟨next, hnext, hpos, _⟩ := h.piece b (hlater b List.mem_cons_self)
    rw [List.flatMap_cons, hnext, Option.getD_some, List.append_eq_nil_iff] at hnil
    rw [hnil.1] at hpos
    exact absurd hpos (by decide)

/-- The calls for the rest of a request. The induction is on the pieces; what came in before is in
the buffer. -/
theorem handleMessages_spec {arrivals : List Arrival} (h : Holding client t)
    (hne : arrivals ≠ []) (hdelivers : Delivers arrivals text) (hnul : 0 ∉ t ++ text)
    (hend : EndsOnce (t ++ text)) : ∃ steps, handleMessages channels client arrivals = .ok steps ∧
      steps.map Prod.fst = List.replicate (arrivals.length - 1) .wait ++
        [(answer channels client (t ++ text)).1] ∧ ∀ step ∈ steps, Fits step.2 := by
  induction arrivals generalizing client t text with
  | nil => exact absurd rfl hne
  | cons a later ih =>
    obtain ⟨piece, rest, hrecv, ⟨hmin, hmax⟩, rfl, hrest, hmore⟩ := hdelivers.tail
    rw [← List.append_assoc] at hnul hend ⊢
    obtain ⟨client', hholding, hptr, hasked, hhandle⟩ := @handleMessage_spec channels client a t
      piece h (hdelivers.granted a List.mem_cons_self) hrecv hmin hmax
      (fun hin => hnul (List.mem_append_left rest hin))
    rw [handleMessages, hhandle, bind_ok]
    cases later with
    | nil =>
      have hnil : rest = [] := hrest.whole.symm
      subst hnil
      refine ⟨_, rfl, ?_, ?_⟩
      · rw [List.append_nil, ← answer_congr hptr hasked]
        rfl
      · intro step hstep
        rw [List.mem_singleton.mp hstep]
        exact answer_fits hholding.fits
    | cons b later' =>
      have hwait : answer channels client' (t ++ piece) = (.wait, client') := by
        rw [answer, complete_part hend (hmore (by simp))]
        rfl
      obtain ⟨steps, hsteps, hactions, hfits⟩ := ih hholding (by simp) hrest hnul hend
      rw [hwait, hsteps]
      refine ⟨_, rfl, ?_, ?_⟩
      · rw [List.map_cons, hactions, ← answer_congr hptr hasked]
        rfl
      · intro step hstep
        rcases List.mem_cons.mp hstep with rfl | hstep
        · exact hholding.fits
        · exact hfits step hstep

/-- However a request is cut, the calls before the last one do nothing, and the last one does what
the whole text asks for; no access is outside of the `buffersize + 1` bytes of the buffer. -/
theorem handleMessages_split (channels : List HttpChannel) {client : HttpClient}
    {arrivals : List Arrival} (hempty : Holding client []) (hnul : 0 ∉ text)
    (hend : EndsOnce text) (hdelivers : Delivers arrivals text) :
    ∃ steps, handleMessages channels client arrivals = .ok steps ∧
      steps.map Prod.fst = List.replicate (arrivals.length - 1) .wait ++
        [(answer channels client text).1] ∧ ∀ step ∈ steps, Fits step.2 := by
  have hne : arrivals ≠ [] := by
    rintro rfl
    have hnil : text = [] := hdelivers.whole.symm
    obtain ⟨before, hbefore⟩ := hend.1
    rw [hnil] at hbefore
    simp at hbefore
  exact handleMessages_spec hempty hne hdelivers hnul hend

theorem endsOnce_of_strstr (hend : [10, 13, 10] <:+ text)
    (honce : strstr [10, 13, 10] text.dropLast = none) : EndsOnce text := by
  refine ⟨hend, fun u v htext => ?_⟩
  by_contra hv
  refine strstr_eq_none.mp honce ⟨u, v.dropLast, ?_⟩
  rw [htext, List.dropLast_append_of_ne_nil hv]

/-- A request for a channel by its number, cut within the end of its last line. -/
theorem handleMessages_cut : ∃ steps, handleMessages oneChannel newClient
    [arrive "GET /bynumber/1 HTTP/1.0\r\n\r", arrive "\n"] = .ok steps ∧
      steps.map Prod.fst = [.wait, .attach 0] ∧ ∀ step ∈ steps, Fits step.2 := by
  have h := @handleMessages_split (bytes "GET /bynumber/1 HTTP/1.0\r\n\r\n") oneChannel newClient
    [arrive "GET /bynumber/1 HTTP/1.0\r\n\r", arrive "\n"] ⟨rfl, Nat.le_refl 0, Or.inl ⟨rfl, rfl⟩⟩ (by decide +kernel)
    (endsOnce_of_strstr (by decide +kernel) (by decide +kernel))
    ⟨by simp [arrive], by decide +kernel, by decide +kernel⟩
  exact h

/-! ## Whatever arrives -/

/-- The buffer of a client between two calls. -/
structure Sound (client : HttpClient) : Prop where
  fits : Fits client
  none : client.buffer = none → client.buffersize = 0
  pos : client.bufferpos ≤ client.buffersize

theorem length_writeBlock {cells src : List UInt8} {i : Nat} (h : i + src.length ≤ cells.length) :
    writeBlock cells i src = .ok (splice cells i src) ∧
      (splice cells i src).length = cells.length :=
  ⟨if_pos h, length_splice h⟩

theorem growBuffer_sound (h : Sound client) (a : Arrival) : growBuffer client a = .ok none ∨
    ∃ client' cells, growBuffer client a = .ok (some client') ∧ Sound client' ∧
      client'.buffer = some cells ∧ client'.bufferpos + 100 ≤ client'.buffersize := by
  have hpos := h.pos
  rw [growBuffer]
  simp only [recvBufferMultiple]
  split
  case isTrue hshort =>
    split
    · right
      have hnew := length_realloc (client.buffer.getD []) (client.buffersize + 100 + 1) a.fresh
      obtain ⟨hwrite, hlen⟩ := @length_writeBlock (realloc (client.buffer.getD [])
        (client.buffersize + 100 + 1) a.fresh) (List.replicate 100 0) client.buffersize (by
          rw [hnew, List.length_replicate]
          omega)
      rw [hwrite, bind_ok]
      refine ⟨_, _, rfl, ⟨fun cells hcells => ?_, fun hnone => (by cases hnone), ?_⟩, rfl, ?_⟩
      · rw [← Option.some.inj hcells, hlen, hnew]
      · show client.bufferpos ≤ client.buffersize + 100
        omega
      · show client.bufferpos + 100 ≤ client.buffersize + 100
        omega
    · exact Or.inl rfl
  case isFalse hfits =>
    right
    cases hbuffer : client.buffer with
    | none =>
      have := h.none hbuffer
      omega
    | some cells => exact ⟨client, cells, rfl, h, hbuffer, by omega⟩

theorem answer_sound {s : List UInt8} (h : Sound client) :
    Sound (answer channels client s).2 := by
  have hfits : Fits (answer channels client s).2 := answer_fits h.fits
  have hfree : ∀ asked : Int, (HttpClient.freeBuffer { client with askedChannel := asked }).bufferpos ≤
      (HttpClient.freeBuffer { client with askedChannel := asked }).buffersize := fun _ => Nat.le_refl 0
  suffices hrest : ((answer channels client s).2.buffer = none →
      (answer channels client s).2.buffersize = 0) ∧
      (answer channels client s).2.bufferpos ≤ (answer channels client s).2.buffersize from
    ⟨hfits, hrest.1, hrest.2⟩
  rw [answer]
  split
  · split
    · dsimp only
      split
      · exact ⟨h.none, h.pos⟩
      · exact ⟨h.none, h.pos⟩
      · split
        · exact ⟨fun _ => rfl, hfree (-1)⟩
        · exact ⟨fun _ => rfl, hfree (-1)⟩
    · split
      · exact ⟨h.none, h.pos⟩
      · refine ⟨fun hnone => h.none ?_, h.pos⟩
        dsimp only at hnone
        split at hnone
        · exact Option.map_eq_none_iff.mp hnone
        · exact hnone
  · exact ⟨h.none, h.pos⟩

theorem receive_sound (h : Sound client) (a : Arrival) : ∃ received client',
    receive client a = .ok (received, client') ∧ Sound client' := by
  rw [receive]
  rcases growBuffer_sound h a with hnone | ⟨client₁, cells, hgrow, hsound, hbuffer, hroom⟩
  · rw [hnone]
    exact ⟨.failed, _, rfl, fun cells hcells => by (cases hcells), fun _ => rfl, Nat.le_refl 0⟩
  · rw [hgrow, bind_ok]
    dsimp only
    cases a.recv with
    | none => exact ⟨.failed, client₁, rfl, hsound⟩
    | some bs =>
      cases bs with
      | nil => exact ⟨.closed, client₁, rfl, hsound⟩
      | cons c cs =>
        dsimp only
        have hfits := hsound.fits cells hbuffer
        have hpiece : ((c :: cs).take recvBufferMultiple).length ≤ 100 := List.length_take_le _ _
        rw [hbuffer]
        dsimp only
        obtain ⟨hwrite, hlen⟩ := @length_writeBlock cells ((c :: cs).take recvBufferMultiple)
          client₁.bufferpos (by omega)
        rw [hwrite, bind_ok]
        have hlog : ∃ bs, (if client₁.bufferpos = 0 then readBlock (splice cells client₁.bufferpos
            ((c :: cs).take recvBufferMultiple)) 0 6 else .ok [] : Checked (List UInt8)) =
            .ok bs := by
          split
          · exact ⟨_, by rw [readBlock, if_pos (by omega)]⟩
          · exact ⟨_, rfl⟩
        obtain ⟨bs, hlog⟩ := hlog
        obtain ⟨hend, hlenEnd⟩ := @length_writeBlock (splice cells client₁.bufferpos
          ((c :: cs).take recvBufferMultiple)) [0] client₁.buffersize (by
            rw [hlen, List.length_singleton]
            omega)
        obtain ⟨s, hs⟩ := cstring_of_mem (show (0 : UInt8) ∈ splice (splice cells client₁.bufferpos
          ((c :: cs).take recvBufferMultiple)) client₁.buffersize [0] by simp [splice])
        rw [hlog, bind_ok, hend, bind_ok, hs]
        refine ⟨.text s, _, rfl, fun cells' hcells' => ?_, fun hnone => (by cases hnone), ?_⟩
        · rw [← Option.some.inj hcells', hlenEnd, hlen, hfits]
        · show client₁.bufferpos + _ ≤ client₁.buffersize
          omega

/-- Every call returns, and leaves the buffer sound. -/
theorem handleMessage_sound (channels : List HttpChannel) (h : Sound client) (a : Arrival) :
    ∃ action client', handleMessage channels client a = .ok (action, client') ∧ Sound client' := by
  obtain ⟨received, client₁, hreceive, hsound⟩ := receive_sound h a
  rw [handleMessage, hreceive, bind_ok]
  cases received with
  | failed => exact ⟨.fail, client₁, rfl, hsound⟩
  | closed => exact ⟨.hangUp, client₁, rfl, hsound⟩
  | text s => exact ⟨_, _, rfl, answer_sound hsound⟩

end MuMuDVB.UnicastSplit
