import MuMuDVB.CamdSockets

/-!
# The messages of the camd

`getcwthread_func` reads a message of the camd in two parts: a header, whose
request tells the length of what follows, and the rest, both into one buffer.
The socket gives as many bytes at a time as it likes. The events of other
channels are served with the same buffer in between.
-/
namespace MuMuDVB.CamdMessages

open CheckedMemory RecordedRun MuMuDVB.CamdSockets

@[simp] abbrev dvbapiOpcodeLen : Nat := 5

@[simp] abbrev dvbapiCaSetDescrLen : Nat := 21

@[simp] abbrev dvbapiCaSetPidLen : Nat := 13

@[simp] abbrev caSetDescr : Nat := 0x40106f86

@[simp] abbrev caSetPid : Nat := 0x40086f87

/-- A number in the order of bytes of the machine. -/
def littleEndian (bytes : List UInt8) : Nat := bytes.foldr (fun b n => b.toNat + 256 * n) 0

/-- `(int *) (buff + 1)` -/
def request (buff : List UInt8) : Nat := littleEndian ((buff.drop 1).take 4)

/-- The size that is asked for behind a header. -/
def bodyLen (buff : List UInt8) : Option Nat :=
  if request buff = caSetDescr then some (dvbapiCaSetDescrLen - dvbapiOpcodeLen)
  else if request buff = caSetPid then some (dvbapiCaSetPidLen - dvbapiOpcodeLen)
  else none

/-- What is done with a `ca_descr_t`: an index, a parity and a control word. -/
def setDescr (body : List UInt8) (chan : CamdChannel) : CamdChannel :=
  let index := littleEndian (body.take 4)
  let parity := littleEndian ((body.drop 4).take 4)
  let cw := (body.drop 8).take 8
  if index ≠ 2 ^ 32 - 1 then
    if parity ≠ 0 then { chan with oddCw := cw, gotKeyOdd := true }
    else { chan with evenCw := cw, gotKeyEven := true }
  else chan

/-- What is done with a `ca_pid_t`: a PID and an index, an `int`. -/
def setPid (body : List UInt8) (chan : CamdChannel) : CamdChannel :=
  let index := CString.int (littleEndian ((body.drop 4).take 4))
  if index = -1 then
    let refcnt := chan.caIdxRefcnt - 1
    if refcnt = 0 then { chan with caIdxRefcnt := refcnt, caIdx := 0 }
    else { chan with caIdxRefcnt := refcnt }
  else
    let caIdx := if chan.caIdxRefcnt = 0 then (index + 1) % 2 ^ 32 else chan.caIdx
    { chan with caIdx, caIdxRefcnt := (chan.caIdxRefcnt + 1) % 2 ^ 32 }

/-- The message in the buffer is handled. -/
def interpret (buff : List UInt8) (chan : CamdChannel) : CamdChannel :=
  if request buff = caSetDescr then
    setDescr ((buff.drop dvbapiOpcodeLen).take (dvbapiCaSetDescrLen - dvbapiOpcodeLen)) chan
  else if request buff = caSetPid then
    setPid ((buff.drop dvbapiOpcodeLen).take (dvbapiCaSetPidLen - dvbapiOpcodeLen)) chan
  else chan

/-- What the thread knows of a channel and its socket. The bytes that were taken for messages are
kept for the proofs only. -/
structure Socket where
  buff : Buffer UInt8 dvbapiCaSetDescrLen
  pending : List UInt8
  chan : CamdChannel
  interpreted : List (List UInt8)

/-- `recv` gives so many bytes. -/
def Socket.recv (s : Socket) (offset got : Nat) : Checked Socket := do
  let buff ← s.buff.write offset (s.pending.take got)
  return { s with buff, pending := s.pending.drop got }

/-- `*request = 0`, if less came than was asked for. -/
def Socket.checkLength (s : Socket) (got size : Nat) : Checked Socket :=
  if got ≠ size then do
    let buff ← s.buff.write 1 [0, 0, 0, 0]
    return { s with buff }
  else return s

/-- The second `recv`, if there is a request. -/
def Socket.recvBody (s : Socket) (got : Nat) : Checked Socket :=
  match bodyLen s.buff.cells with
  | some size => do
    let s ← s.recv dvbapiOpcodeLen got
    s.checkLength got size
  | none => return s

/-- What is done with the buffer at last. -/
def Socket.handle (s : Socket) : Socket :=
  match bodyLen s.buff.cells with
  | some size => { s with
      chan := interpret s.buff.cells s.chan
      interpreted := s.interpreted ++ [s.buff.cells.take (dvbapiOpcodeLen + size)] }
  | none => s

/-- A ready socket is read: `header` bytes come first, and `body` ones if more are asked for. -/
def Socket.ready (s : Socket) (header body : Nat) : Checked Socket := do
  let s ← s.recv 0 header
  let s ← s.recvBody body
  return s.handle

/-- A message of the camd as it is written. -/
structure CamdMessage where
  bytes : List UInt8
  known : (bodyLen bytes).map (dvbapiOpcodeLen + ·) = some bytes.length

inductive Event where
  | ready (header body : Nat)
  /-- other channels are served, which leave the buffer as they like -/
  | others (buff : Buffer UInt8 dvbapiCaSetDescrLen)

/-- A ready socket gives at least one byte, and each time no more than asked for or than there
are. -/
inductive Step : Socket → Event → Socket → Prop where
  | ready {s s₁ s' : Socket} {header body : Nat} (positive : 1 ≤ header)
      (asked : header ≤ dvbapiOpcodeLen) (available : header ≤ s.pending.length)
      (first : s.recv 0 header = .ok s₁)
      (askedBody : body ≤ (bodyLen s₁.buff.cells).getD 0) (availableBody : body ≤ s₁.pending.length)
      (call : s.ready header body = .ok s') : Step s (.ready header body) s'
  | others {s : Socket} (buff : Buffer UInt8 dvbapiCaSetDescrLen) :
      Step s (.others buff) { s with buff }

/-- The camd has written messages on the socket of a channel. -/
def camdSystem (messages : List CamdMessage) (chan : CamdChannel) : System Socket Event where
  Initial s := s.pending = messages.flatMap CamdMessage.bytes ∧ s.chan = chan ∧ s.interpreted = []
  Step := Step

/-- The messages one after the other, each of them whole. -/
def interpretAll (messages : List CamdMessage) (chan : CamdChannel) : CamdChannel :=
  messages.foldl (fun chan m => interpret m.bytes chan) chan

/-- What was taken for messages are the first ones, each byte of them read for it; the channel has
what they tell, and the others are still to be read. -/
def InStep (messages : List CamdMessage) (chan : CamdChannel) (s : Socket) : Prop :=
  ∃ done todo, messages = done ++ todo ∧ s.interpreted = done.map CamdMessage.bytes ∧
    s.chan = interpretAll done chan ∧ s.pending = todo.flatMap CamdMessage.bytes

/-- Each `recv` gives as many bytes as it is asked for. -/
def ReadsWhole (s : Socket) : Event → Prop
  | .ready header body => header = dvbapiOpcodeLen ∧ ∀ size ∈ bodyLen s.pending, body = size
  | .others _ => True

section messages

variable {buff buff' : List UInt8} {size : Nat}

theorem request_congr (h : buff.take 5 = buff'.take 5) : request buff = request buff' := by
  have hword : ∀ l : List UInt8, (l.drop 1).take 4 = (l.take 5).drop 1 := fun l => by
    rw [List.drop_take]
  rw [request, request, hword, hword, h]

theorem bodyLen_congr (h : buff.take 5 = buff'.take 5) : bodyLen buff = bodyLen buff' := by
  rw [bodyLen, bodyLen, request_congr h]

/-- The two sizes. -/
theorem bodyLen_cases (h : bodyLen buff = some size) :
    (request buff = caSetDescr ∧ size = 16) ∨ (request buff ≠ caSetDescr ∧
      request buff = caSetPid ∧ size = 8) := by
  rw [bodyLen] at h
  split_ifs at h with h₁ h₂
  · exact .inl ⟨h₁, (Option.some.inj h).symm⟩
  · exact .inr ⟨h₁, h₂, (Option.some.inj h).symm⟩

/-- Only the bytes of the message matter. -/
theorem interpret_congr (h : bodyLen buff = some size)
    (htake : buff.take (5 + size) = buff'.take (5 + size)) (chan : CamdChannel) :
    interpret buff chan = interpret buff' chan := by
  have hheader : buff.take 5 = buff'.take 5 := by
    have := congrArg (List.take 5) htake
    rwa [List.take_take, List.take_take, Nat.min_eq_left (Nat.le_add_right 5 size)] at this
  have hbody : (buff.drop 5).take size = (buff'.drop 5).take size := by
    have hdrop : ∀ l : List UInt8, (l.drop 5).take size = (l.take (5 + size)).drop 5 := fun l => by
      rw [List.drop_take, Nat.add_sub_cancel_left]
    rw [hdrop, hdrop, htake]
  rw [interpret, interpret, ← request_congr hheader]
  rcases bodyLen_cases h with ⟨hdescr, rfl⟩ | ⟨hnot, hpid, rfl⟩
  · rw [if_pos hdescr, if_pos hdescr]
    exact congrArg (setDescr · chan) hbody
  · rw [if_neg hnot, if_neg hnot, if_pos hpid, if_pos hpid]
    exact congrArg (setPid · chan) hbody

theorem CamdMessage.length_eq (m : CamdMessage) :
    ∃ size, bodyLen m.bytes = some size ∧ m.bytes.length = 5 + size ∧ (size = 16 ∨ size = 8) := by
  obtain ⟨size, hsize, hlength⟩ := Option.map_eq_some_iff.mp m.known
  refine ⟨size, hsize, hlength.symm, ?_⟩
  exact (bodyLen_cases hsize).imp And.right fun h => h.2.2

end messages

/-! ## What a ready socket does -/

section ready

variable {s s₁ s' : Socket} {offset got size header body : Nat}

theorem Socket.recv_ok (hroom : offset + got ≤ 21) (hgot : got ≤ s.pending.length) :
    ∃ s', s.recv offset got = .ok s' ∧
      s'.buff.cells = splice s.buff.cells offset (s.pending.take got) ∧
      s'.pending = s.pending.drop got ∧ s'.chan = s.chan ∧ s'.interpreted = s.interpreted := by
  obtain ⟨buff, hwrite, hcells⟩ := s.buff.write_ok offset (s.pending.take got)
    (by rw [List.length_take, Nat.min_eq_left hgot]; exact hroom)
  refine ⟨{ s with buff, pending := s.pending.drop got }, ?_, hcells, rfl, rfl, rfl⟩
  rw [Socket.recv, hwrite]
  rfl

/-- The header that a whole read leaves in the buffer. -/
theorem Socket.recv_header (hfirst : s.recv 0 header = .ok s₁)
    (havailable : header ≤ s.pending.length) (hasked : header ≤ 5) :
    s₁.buff.cells.take header = s.pending.take header ∧ s₁.pending = s.pending.drop header ∧
      s₁.chan = s.chan ∧ s₁.interpreted = s.interpreted := by
  obtain ⟨s₂, hrecv, hcells, hrest⟩ :=
    @Socket.recv_ok s 0 header (by omega) havailable
  cases hrecv.symm.trans hfirst
  refine ⟨?_, hrest⟩
  have hlength : (s.pending.take header).length = header := by
    rw [List.length_take, Nat.min_eq_left havailable]
  have htake := take_splice_zero s.buff.cells (s.pending.take header)
  rwa [hlength, ← hcells] at htake

/-- After `*request = 0` there is no message. -/
theorem checkLength_short (hne : got ≠ size) :
    ∃ s', s.checkLength got size = .ok s' ∧ s'.handle = s' ∧ s'.pending = s.pending ∧
      s'.interpreted = s.interpreted := by
  obtain ⟨buff, hwrite, hcells⟩ := s.buff.write_ok 1 [0, 0, 0, 0] (by decide)
  have hrequest : request buff.cells = 0 := by
    have hword : (buff.cells.drop 1).take 4 = [0, 0, 0, 0] := by
      rw [hcells]
      exact take_drop_splice (by rw [s.buff.length_cells]; decide) rfl
    rw [request, hword]
    rfl
  refine ⟨{ s with buff }, ?_, ?_, rfl, rfl⟩
  · rw [Socket.checkLength, if_pos hne, hwrite]
    rfl
  · rw [Socket.handle, bodyLen]
    dsimp only
    rw [hrequest, if_neg (by decide), if_neg (by decide)]

/-- What comes of the header and of what follows it. -/
theorem ready_cases (hfirst : s.recv 0 header = .ok s₁)
    (hasked : body ≤ (bodyLen s₁.buff.cells).getD 0) (havailable : body ≤ s₁.pending.length) :
    ∃ s', s.ready header body = .ok s' ∧ s'.pending = s₁.pending.drop body ∧
      ((s'.interpreted = s₁.interpreted ∧ bodyLen s₁.buff.cells ≠ some body) ∨
        (bodyLen s₁.buff.cells = some body ∧
          s'.interpreted = s₁.interpreted ++ [s₁.buff.cells.take 5 ++ s₁.pending.take body] ∧
          s'.chan = interpret (s₁.buff.cells.take 5 ++ s₁.pending.take body) s₁.chan)) := by
  rw [Socket.ready, hfirst, bind_ok, Socket.recvBody]
  cases hsize : bodyLen s₁.buff.cells with
  | none =>
    rw [hsize] at hasked
    have hbody : body = 0 := Nat.le_zero.mp hasked
    refine ⟨s₁, ?_, by rw [hbody, List.drop_zero], .inl ⟨rfl, fun h => by cases h⟩⟩
    dsimp only
    rw [pure_ok, bind_ok, Socket.handle, hsize]
    rfl
  | some size =>
    rw [hsize] at hasked
    have hsixteen : size ≤ 16 := by
      rcases bodyLen_cases hsize with ⟨-, rfl⟩ | ⟨-, -, rfl⟩ <;> decide
    have hle : body ≤ size := hasked
    obtain ⟨s₂, hrecv, hcells, hpending, hchan, hinterpreted⟩ :=
      @Socket.recv_ok s₁ 5 body (by omega) havailable
    dsimp only
    rw [hrecv, bind_ok]
    by_cases heq : body = size
    · subst heq
      have hlength : (s₁.pending.take body).length = body := by
        rw [List.length_take, Nat.min_eq_left havailable]
      have hbuffer : 5 ≤ s₁.buff.cells.length := by
        rw [s₁.buff.length_cells]
        decide
      have hheader : s₂.buff.cells.take 5 = s₁.buff.cells.take 5 := by
        rw [hcells, take_splice_of_le (Nat.le_refl 5) hbuffer]
      have hmessage : s₂.buff.cells.take (5 + body) =
          s₁.buff.cells.take 5 ++ s₁.pending.take body := by
        rw [hcells, take_splice hbuffer (by rw [hlength])]
      have hsize₂ : bodyLen s₂.buff.cells = some body := (bodyLen_congr hheader).trans hsize
      have hchecked : s₂.checkLength body body = .ok s₂ := if_neg fun h => h rfl
      rw [hchecked, bind_ok, Socket.handle, hsize₂]
      refine ⟨_, rfl, hpending, .inr ⟨rfl, ?_, ?_⟩⟩
      · dsimp only
        rw [hinterpreted, ← hmessage]
      · dsimp only
        rw [hchan]
        refine interpret_congr hsize₂ (hmessage.trans (List.take_of_length_le ?_).symm) _
        rw [List.length_append, hlength, List.length_take]
        omega
    · obtain ⟨s₃, hchecked, hhandle, hpending', hinterpreted'⟩ :=
        checkLength_short (s := s₂) heq
      rw [hchecked, bind_ok, hhandle]
      exact ⟨s₃, rfl, hpending'.trans hpending, .inl ⟨hinterpreted'.trans hinterpreted,
        fun h => heq (Option.some.inj h).symm⟩⟩

end ready

/-! ## Runs -/

section runs

variable {messages done todo : List CamdMessage} {m : CamdMessage} {chan : CamdChannel}
  {s s' : Socket}

theorem interpretAll_concat (done : List CamdMessage) (m : CamdMessage) (chan : CamdChannel) :
    interpretAll (done ++ [m]) chan = interpret m.bytes (interpretAll done chan) := by
  rw [interpretAll, List.foldl_append]
  rfl

/-- The header of the next message, and the rest of it. -/
theorem pending_message (hpending : s.pending = (m :: todo).flatMap CamdMessage.bytes) :
    ∃ size, bodyLen s.pending = some size ∧ m.bytes.length = 5 + size ∧ (size = 16 ∨ size = 8) ∧
      s.pending.take 5 ++ (s.pending.drop 5).take size = m.bytes ∧
      s.pending.drop (5 + size) = todo.flatMap CamdMessage.bytes := by
  obtain ⟨size, hsize, hlength, hsizes⟩ := m.length_eq
  rw [List.flatMap_cons] at hpending
  have hheader : s.pending.take 5 = m.bytes.take 5 := by
    rw [hpending, List.take_append_of_le_length (by omega)]
  refine ⟨size, (bodyLen_congr hheader).trans hsize, hlength, hsizes, ?_, ?_⟩
  · rw [← List.take_add, hpending, ← hlength, List.take_left]
  · rw [hpending, ← hlength, List.drop_left]

/-- A ready socket keeps in step exactly when it reads the next message whole. -/
theorem ready_inStep {header body : Nat} {s₁ : Socket} (hin : InStep messages chan s)
    (hpositive : 1 ≤ header) (hasked : header ≤ 5) (havailable : header ≤ s.pending.length)
    (hfirst : s.recv 0 header = .ok s₁) (haskedBody : body ≤ (bodyLen s₁.buff.cells).getD 0)
    (havailableBody : body ≤ s₁.pending.length) (hcall : s.ready header body = .ok s') :
    InStep messages chan s' ↔ ReadsWhole s (.ready header body) := by
  obtain ⟨done, todo, rfl, hinterpreted, hchan, hpending⟩ := hin
  obtain ⟨hheader, hpending₁, hchan₁, hinterpreted₁⟩ :=
    Socket.recv_header hfirst havailable hasked
  cases todo with
  | nil =>
    rw [hpending] at havailable
    exact absurd (hpositive.trans havailable) (by decide)
  | cons m todo =>
    obtain ⟨size, hsize, hlength, hsizes, hbytes, hrest⟩ := pending_message hpending
    rw [ReadsWhole, hsize]
    obtain ⟨s₂, hready, hleft, hcases⟩ := ready_cases hfirst haskedBody havailableBody
    cases hready.symm.trans hcall
    rcases hcases with ⟨hsame, hnone⟩ | ⟨hsize₁, hadded, heffect⟩
    · -- bytes are gone, and no message
      refine iff_of_false ?_ ?_
      · rintro ⟨done', todo', hsplit, hinterpreted', -, hpending'⟩
        have hlengths : done'.length = done.length := by
          have := congrArg List.length
            (hinterpreted'.symm.trans (hsame.trans (hinterpreted₁.trans hinterpreted)))
          rwa [List.length_map, List.length_map] at this
        obtain ⟨-, rfl⟩ := List.append_inj hsplit.symm hlengths
        have hgone := congrArg List.length (hpending'.symm.trans hleft)
        rw [← hpending, hpending₁, List.drop_drop, List.length_drop] at hgone
        omega
      · rintro ⟨rfl, hbody⟩
        refine hnone ?_
        rw [bodyLen_congr hheader, hsize, hbody size rfl]
    · constructor
      · rintro ⟨done', todo', hsplit, hinterpreted', -, hpending'⟩
        have hlengths : done'.length = (done ++ [m]).length := by
          have := congrArg List.length (hinterpreted'.symm.trans hadded)
          rw [List.length_map, List.length_append, hinterpreted₁, hinterpreted,
            List.length_map] at this
          rw [this, List.length_append]
          rfl
        rw [List.append_cons] at hsplit
        obtain ⟨-, rfl⟩ := List.append_inj hsplit.symm hlengths
        -- as many bytes are gone as the message has
        have hgone := congrArg List.length (hpending'.symm.trans hleft)
        have hwhole := congrArg List.length hpending
        rw [hpending₁, List.drop_drop, List.length_drop] at hgone
        rw [List.flatMap_cons, List.length_append] at hwhole
        rw [hpending₁, List.length_drop] at havailableBody
        have hsizes₁ : body = 16 ∨ body = 8 :=
          (bodyLen_cases hsize₁).imp And.right fun h => h.2.2
        have hfive : header = 5 := by omega
        refine ⟨hfive, ?_⟩
        rintro _ ⟨⟩
        omega
      · rintro ⟨rfl, hbody⟩
        have heq := hbody size rfl
        subst heq
        have hmessage : s₁.buff.cells.take 5 ++ s₁.pending.take body = m.bytes := by
          rw [hheader, hpending₁, hbytes]
        refine ⟨done ++ [m], todo, List.append_cons .., ?_, ?_, ?_⟩
        · rw [hadded, hmessage, hinterpreted₁, hinterpreted, List.map_append]
          rfl
        · rw [heffect, hmessage, hchan₁, hchan, interpretAll_concat]
        · rw [hleft, hpending₁, List.drop_drop, hrest]

/-- A message that is there as a whole is read as a whole. -/
theorem ready_message {more : List UInt8} (m : CamdMessage)
    (hpending : s.pending = m.bytes ++ more) :
    ∃ size s', bodyLen m.bytes = some size ∧ s.ready 5 size = .ok s' ∧
      s'.chan = interpret m.bytes s.chan := by
  obtain ⟨size, hsize, hlength, -⟩ := m.length_eq
  have havailable : 5 ≤ s.pending.length := by
    rw [hpending, List.length_append]
    omega
  obtain ⟨s₁, hfirst, -⟩ := @Socket.recv_ok s 0 5 (by decide) havailable
  obtain ⟨hheader, hpending₁, hchan₁, -⟩ := Socket.recv_header hfirst havailable (Nat.le_refl 5)
  have htake : s.pending.take 5 = m.bytes.take 5 := by
    rw [hpending, List.take_append_of_le_length (by omega)]
  have hsize₁ : bodyLen s₁.buff.cells = some size :=
    (bodyLen_congr (hheader.trans htake)).trans hsize
  have hmessage : s₁.buff.cells.take 5 ++ s₁.pending.take size = m.bytes := by
    rw [hheader, hpending₁, ← List.take_add, hpending, ← hlength, List.take_left]
  have havailable₁ : size ≤ s₁.pending.length := by
    rw [hpending₁, hpending, List.length_drop, List.length_append]
    omega
  obtain ⟨s', hready, -, ⟨-, hnone⟩ | ⟨-, -, heffect⟩⟩ :=
    ready_cases hfirst (by rw [hsize₁]; exact Nat.le_refl size) havailable₁
  · exact absurd hsize₁ hnone
  · exact ⟨size, s', hsize, hready, by rw [heffect, hmessage, hchan₁]⟩

/-- In every run the messages are read as they were written, each when all of it was read, if and
only if each `recv` gives all that it is asked for. -/
theorem inStep_run_iff (messages : List CamdMessage) (chan : CamdChannel) (past : List Event)
    (s : Socket) : Run ((camdSystem messages chan).restrict ReadsWhole) past s ↔
      Along (camdSystem messages chan) (fun _ => InStep messages chan) past s := by
  refine along_iff ?_ ?_ past s
  · rintro s ⟨hpending, rfl, hinterpreted⟩
    exact ⟨[], messages, rfl, hinterpreted, rfl, hpending⟩
  · rintro past s e s' - hin hstep
    cases hstep with
    | ready positive asked available first askedBody availableBody call =>
      exact ready_inStep hin positive asked available first askedBody availableBody call
    | others buff => exact iff_of_true hin trivial

end runs

/-! A control word that comes in two parts: the first is dropped, and the second is read as
headers. -/

def evenKey : CamdMessage :=
  ⟨[0, 0x86, 0x6f, 0x10, 0x40] ++ [0, 0, 0, 0] ++ [0, 0, 0, 0] ++ [1, 2, 3, 4, 5, 6, 7, 8],
    by decide⟩

def waiting : Socket := ⟨Buffer.fill 21 0, evenKey.bytes, unusedCamd, []⟩

/-- Ready three times. -/
def readThrice (s : Socket) : Checked Socket := do
  let s ← s.ready 5 8
  let s ← s.ready 5 0
  s.ready 3 0

theorem readThrice_run : ∃ past s, readThrice waiting = .ok s ∧
    Run (camdSystem [evenKey] unusedCamd) past s := by
  refine ⟨_, _, rfl, .next (.next (.next (.start (s := waiting) ⟨rfl, rfl, rfl⟩)
    (@Step.ready _ _ _ 5 8 ?_ ?_ ?_ rfl ?_ ?_ rfl))
    (@Step.ready _ _ _ 5 0 ?_ ?_ ?_ rfl ?_ ?_ rfl))
    (@Step.ready _ _ _ 3 0 ?_ ?_ ?_ rfl ?_ ?_ rfl)⟩
  all_goals decide +kernel

theorem pending_read_not : ¬ ∀ (messages : List CamdMessage) (chan : CamdChannel)
    (past : List Event) (s : Socket), Run (camdSystem messages chan) past s → s.pending = [] →
    s.chan = interpretAll messages chan := by
  intro h
  obtain ⟨past, s, hread, hrun⟩ := readThrice_run
  have hview : (readThrice waiting).map (fun s => (s.pending, s.chan.gotKeyEven)) =
      .ok ([], false) := by decide +kernel
  rw [hread] at hview
  obtain ⟨hpending, hkey⟩ := Prod.mk.inj (Except.ok.inj hview)
  have hchan := h _ _ _ _ hrun hpending
  rw [hchan] at hkey
  exact absurd hkey (by decide +kernel)

end MuMuDVB.CamdMessages
