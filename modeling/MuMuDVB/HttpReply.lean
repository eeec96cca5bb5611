import MuMuDVB.CString
import MuMuDVB.FuelLoop

/-!
# The replies of the HTTP server

A reply is collected in two buffers that grow by steps, one for the header and
one for the body. They are put together in the end and written to the socket,
which may take a part only or ask to try again. Reallocations succeed, so that
no length is beyond what they can be asked for.
-/
namespace MuMuDVB.HttpReply

open CheckedMemory FuelLoop CString

/-- An allocated buffer; a byte of it that was never written is empty. -/
structure ReplyBuffer where
  cells : List (Option UInt8)
  length : Nat
  used : Nat

inductive ReplyType where
  | header | body
  deriving DecidableEq

/-- `struct unicast_reply` -/
structure UnicastReply where
  header : ReplyBuffer
  body : ReplyBuffer
  type : ReplyType

def replySizeStep : Nat := 256

/-- `malloc(REPLY_SIZE_STEP * sizeof (char))` -/
def newBuffer : ReplyBuffer := ⟨List.replicate replySizeStep none, replySizeStep, 0⟩

/-- `unicast_reply_init` -/
def unicastReplyInit : UnicastReply := ⟨newBuffer, newBuffer, .body⟩

/-- `realloc`: the content stays as far as the new block reaches. -/
def realloc (cells : List (Option UInt8)) (n : Nat) : List (Option UInt8) :=
  cells.take n ++ List.replicate (n - cells.length) none

/-- The buffer grows until there is room for `len` bytes and a zero. -/
def growTurn (len : Nat) (b : ReplyBuffer) : Checked (Turn ReplyBuffer ReplyBuffer) :=
  if (b.length : Int) - b.used < len + 1 then
    .ok (.again ⟨realloc b.cells (b.length + replySizeStep), b.length + replySizeStep, b.used⟩)
  else .ok (.done b)

/-- Bytes written into an allocated block. -/
def writeCells (cells : List (Option UInt8)) (off : Nat) (src : List UInt8) :
    Checked (List (Option UInt8)) :=
  if off + src.length ≤ cells.length then .ok (splice cells off (src.map some))
  else .error .outOfBounds

/-- `vsnprintf` of a text at `off`, where there is room for `room` bytes: a text that does not fit
is cut. -/
def vsnprintf (cells : List (Option UInt8)) (off : Nat) (room : Int) (text : List UInt8) :
    Checked (List (Option UInt8)) :=
  if room < 0 then .error .negative
  else if room = 0 then .ok cells
  else writeCells cells off (text.take (room.toNat - 1) ++ [0])

/-- `unicast_reply_write` into one buffer; a turn of the loop for every byte is enough. -/
def writeBuffer (b : ReplyBuffer) (text : List UInt8) : Checked ReplyBuffer := do
  let b ← run (growTurn text.length) (text.length + 2) b
  let cells ← vsnprintf b.cells b.used ((b.length : Int) - b.used) text
  return { b with cells := cells, used := b.used + text.length }

/-- `unicast_reply_write` of a text that has been formatted. -/
def unicastReplyWrite (reply : UnicastReply) (text : List UInt8) : Checked UnicastReply :=
  match reply.type with
  | .header => do
    let b ← writeBuffer reply.header text
    return { reply with header := b }
  | .body => do
    let b ← writeBuffer reply.body text
    return { reply with body := b }

/-- `%d` -/
def decimal (n : Nat) : List UInt8 := bytes (Nat.repr n)

/-- The status of the codes that can be sent. -/
def status (code : Int) : Option (List UInt8) :=
  if code = 200 then some (bytes "200 OK\r\n")
  else if code = 404 then some (bytes "404 Not found\r\n")
  else none

/-- What follows the status, for the VERSION of the program. -/
def headerLines (version contentType : List UInt8) (usedBody : Nat) : List (List UInt8) :=
  [bytes "Access-Control-Allow-Origin: *\r\n",
    bytes "Server: mumudvb/" ++ version ++ bytes "\r\n",
    bytes "Content-type: " ++ contentType ++ bytes "; charset=utf-8\r\n",
    bytes "Content-length: " ++ decimal usedBody ++ bytes "\r\n",
    bytes "\r\n"]

/-- The first `len` bytes of a block, which are to be there and to have been written. -/
def readCells (cells : List (Option UInt8)) (off len : Nat) : Checked (List UInt8) :=
  if off + len ≤ cells.length then
    ((cells.drop off).take len).mapM fun cell =>
      match cell with
      | some c => .ok c
      | none => .error .outOfBounds
  else .error .outOfBounds

/-- "we merge the header and the body" -/
def mergeBuffers (reply : UnicastReply) : Checked ReplyBuffer := do
  let cells := realloc reply.header.cells (reply.header.used + reply.body.used)
  let body ← readCells reply.body.cells 0 reply.body.used
  let cells ← writeCells cells reply.header.used body
  return { reply.header with cells := cells, used := reply.header.used + reply.body.used }

/-- The answer of the socket to a `write`; it takes no more than it is given. -/
inductive WriteAnswer where
  | wrote (n : Nat)
  | eintr
  | eagain
  | failed (errno : Nat)

/-- The loop that writes the reply: what was taken, in how many attempts. -/
structure SendState where
  size : Nat
  attempts : Nat
  delivered : List UInt8

structure Sent where
  result : Int
  delivered : List UInt8

def sendTurn (b : ReplyBuffer) (answers : Nat → WriteAnswer) (s : SendState) :
    Checked (Turn SendState Sent) :=
  if s.size < b.used then do
    let buf ← readCells b.cells s.size (b.used - s.size)
    match answers s.attempts with
    | .wrote n => return .again ⟨s.size + min n buf.length, s.attempts + 1,
        s.delivered ++ buf.take n⟩
    | .eintr => return .again { s with attempts := s.attempts + 1 }
    | .eagain => return .again { s with attempts := s.attempts + 1 }
    | .failed _ => return .done ⟨-1, s.delivered⟩
  else return .done ⟨s.size, s.delivered⟩

/-- `unicast_reply_send` -/
def unicastReplySend (fuel : Nat) (reply : UnicastReply) (answers : Nat → WriteAnswer)
    (code : Int) (version contentType : List UInt8) : Checked Sent := do
  let reply ← unicastReplyWrite { reply with type := .header } (bytes "HTTP/1.0 ")
  match status code with
  | none => return ⟨0, []⟩
  | some line =>
    let reply ← unicastReplyWrite reply line
    let reply ← (headerLines version contentType reply.body.used).foldlM unicastReplyWrite reply
    let b ← mergeBuffers reply
    run (sendTurn b answers) fuel ⟨0, 0, []⟩

/-- The buffer holds these bytes, inside what is allocated. -/
structure Holds (b : ReplyBuffer) (text : List UInt8) : Prop where
  used : b.used = text.length
  length : b.cells.length = b.length
  room : b.used ≤ b.length
  cells : b.cells.take b.used = text.map some

section buffers

variable {b : ReplyBuffer} {text more : List UInt8} {cells : List (Option UInt8)}

theorem holds_newBuffer : Holds newBuffer [] :=
  ⟨rfl, List.length_replicate, Nat.zero_le _, rfl⟩

theorem length_realloc (cells : List (Option UInt8)) (n : Nat) : (realloc cells n).length = n := by
  rw [realloc, List.length_append, List.length_take, List.length_replicate]
  omega

theorem take_realloc {k n : Nat} (hk : k ≤ cells.length) (hn : k ≤ n) :
    (realloc cells n).take k = cells.take k := by
  rw [realloc, List.take_append_of_le_length (by rw [List.length_take]; omega), List.take_take,
    Nat.min_eq_left hn]

theorem Holds.grow (hb : Holds b text) (n : Nat) (hn : b.length ≤ n) :
    Holds ⟨realloc b.cells n, n, b.used⟩ text := by
  have hroom := hb.room
  have hlength := hb.length
  refine ⟨hb.used, length_realloc _ _, Nat.le_trans hroom hn, ?_⟩
  dsimp only
  rw [take_realloc (by omega) (by omega)]
  exact hb.cells

/-- The loop ends with room for the text and a zero. -/
theorem Holds.run_grow (hb : Holds b text) (len : Nat) {fuel : Nat}
    (hfuel : b.used + len + 1 - b.length < fuel) :
    ∃ b', run (growTurn len) fuel b = .ok b' ∧ Holds b' text ∧ b'.used + len + 1 ≤ b'.length := by
  induction fuel generalizing b with
  | zero => omega
  | succ fuel ih =>
    by_cases hfull : (b.length : Int) - b.used < len + 1
    · have hturn : growTurn len b = .ok (.again
          ⟨realloc b.cells (b.length + replySizeStep), b.length + replySizeStep, b.used⟩) :=
        if_pos hfull
      rw [run_again hturn]
      refine ih (hb.grow _ (Nat.le_add_right _ _)) ?_
      have hstep : replySizeStep = 256 := rfl
      dsimp only
      omega
    · refine ⟨b, ?_, hb, by omega⟩
      rw [run, growTurn, if_neg hfull]
      rfl

/-- The text is written behind what is there. -/
theorem Holds.write (hb : Holds b text) (more : List UInt8) :
    ∃ b', writeBuffer b more = .ok b' ∧ Holds b' (text ++ more) := by
  have hroom := hb.room
  have hfuel : b.used + more.length + 1 - b.length < more.length + 2 := by omega
  obtain ⟨b₁, hgrow, hb₁, hfits⟩ := hb.run_grow more.length hfuel
  have hlength₁ := hb₁.length
  have hcut : more.take (((b₁.length : Int) - b₁.used).toNat - 1) = more :=
    List.take_of_length_le (by omega)
  have hwrite : writeCells b₁.cells b₁.used (more ++ [0]) =
      .ok (splice b₁.cells b₁.used ((more ++ [0]).map some)) := by
    refine if_pos ?_
    rw [List.length_append, List.length_singleton]
    omega
  refine ⟨{ b₁ with
    cells := splice b₁.cells b₁.used ((more ++ [0]).map some)
    used := b₁.used + more.length }, ?_, ?_, ?_, ?_, ?_⟩
  · rw [writeBuffer, hgrow, bind_ok, vsnprintf, if_neg (by omega), if_neg (by omega), hcut, hwrite]
    rfl
  · rw [List.length_append, ← hb₁.used]
  · dsimp only
    rw [length_splice, hlength₁]
    rw [List.length_map, List.length_append, List.length_singleton]
    omega
  · dsimp only
    omega
  · dsimp only
    rw [List.map_append, ← splice_splice, take_splice_of_le (by rw [List.length_map]),
      take_splice (by omega) (by rw [List.length_map]), hb₁.cells, List.map_append]
    · rw [length_splice] <;> rw [List.length_map] <;> omega
    · rw [List.length_map]
      omega

theorem readCells_eq {off len : Nat} (hcells : (cells.drop off).take len = text.map some)
    (hlen : off + len ≤ cells.length) : readCells cells off len = .ok text := by
  rw [readCells, if_pos hlen, hcells, mapM_eq_ok, List.forall₂_map_left_iff]
  exact List.forall₂_same.mpr fun _ _ => rfl

theorem Holds.readCells (hb : Holds b text) : readCells b.cells 0 b.used = .ok text := by
  refine readCells_eq hb.cells ?_
  rw [Nat.zero_add, hb.length]
  exact hb.room

/-- The merged block has exactly the bytes of both. -/
theorem mergeBuffers_eq {reply : UnicastReply} {head body : List UInt8}
    (hhead : Holds reply.header head) (hbody : Holds reply.body body) :
    ∃ b, mergeBuffers reply = .ok b ∧ b.cells = (head ++ body).map some ∧
      b.used = (head ++ body).length := by
  have hread := hbody.readCells
  have hlen := length_realloc reply.header.cells (reply.header.used + reply.body.used)
  have hfits : reply.header.used + body.length ≤
      (realloc reply.header.cells (reply.header.used + reply.body.used)).length := by
    rw [hlen, hbody.used]
  have hroom := hhead.room
  have hlength := hhead.length
  let merged := realloc reply.header.cells (reply.header.used + reply.body.used)
  refine ⟨{ reply.header with
    cells := splice merged reply.header.used (body.map some)
    used := reply.header.used + reply.body.used }, ?_, ?_, ?_⟩
  · rw [mergeBuffers, hread, bind_ok, writeCells, if_pos hfits]
    rfl
  · have htake : merged.take reply.header.used = head.map some := by
      rw [take_realloc (by omega) (Nat.le_add_right _ _)]
      exact hhead.cells
    have hdrop : merged.drop (reply.header.used + body.length) = [] := by
      refine List.drop_of_length_le ?_
      rw [hlen, hbody.used]
    show splice merged reply.header.used (body.map some) = _
    rw [splice, List.length_map, htake, hdrop, List.append_nil, List.map_append]
  · dsimp only
    rw [hhead.used, hbody.used, List.length_append]

end buffers

/-- Both buffers of a reply hold these bytes. -/
structure Collects (reply : UnicastReply) (type : ReplyType) (head body : List UInt8) : Prop where
  type : reply.type = type
  header : Holds reply.header head
  body : Holds reply.body body

section reply

variable {reply : UnicastReply} {head body : List UInt8}

theorem collects_init : Collects unicastReplyInit .body [] [] :=
  ⟨rfl, holds_newBuffer, holds_newBuffer⟩

theorem Collects.write_body (hr : Collects reply .body head body) (text : List UInt8) :
    ∃ reply', unicastReplyWrite reply text = .ok reply' ∧
      Collects reply' .body head (body ++ text) := by
  obtain ⟨b, hwrite, hb⟩ := hr.body.write text
  refine ⟨{ reply with body := b }, ?_, hr.type, hr.header, hb⟩
  rw [unicastReplyWrite, hr.type]
  dsimp only
  rw [hwrite]
  rfl

theorem Collects.write_header (hr : Collects reply .header head body) (text : List UInt8) :
    ∃ reply', unicastReplyWrite reply text = .ok reply' ∧
      Collects reply' .header (head ++ text) body := by
  obtain ⟨b, hwrite, hb⟩ := hr.header.write text
  refine ⟨{ reply with header := b }, ?_, hr.type, hb, hr.body⟩
  rw [unicastReplyWrite, hr.type]
  dsimp only
  rw [hwrite]
  rfl

/-- Any number of writes to the body. -/
theorem Collects.writes_body (hr : Collects reply .body head body) (texts : List (List UInt8)) :
    ∃ reply', texts.foldlM unicastReplyWrite reply = .ok reply' ∧
      Collects reply' .body head (body ++ texts.flatten) := by
  induction texts generalizing reply body with
  | nil => exact ⟨reply, rfl, by rwa [List.flatten_nil, List.append_nil]⟩
  | cons text texts ih =>
    obtain ⟨reply₁, hwrite, hr₁⟩ := hr.write_body text
    obtain ⟨reply', hwrites, hr'⟩ := ih hr₁
    refine ⟨reply', ?_, ?_⟩
    · rw [List.foldlM_cons, hwrite]
      exact hwrites
    · rwa [List.flatten_cons, ← List.append_assoc]

theorem Collects.writes_header (hr : Collects reply .header head body)
    (texts : List (List UInt8)) :
    ∃ reply', texts.foldlM unicastReplyWrite reply = .ok reply' ∧
      Collects reply' .header (head ++ texts.flatten) body := by
  induction texts generalizing reply head with
  | nil => exact ⟨reply, rfl, by rwa [List.flatten_nil, List.append_nil]⟩
  | cons text texts ih =>
    obtain ⟨reply₁, hwrite, hr₁⟩ := hr.write_header text
    obtain ⟨reply', hwrites, hr'⟩ := ih hr₁
    refine ⟨reply', ?_, ?_⟩
    · rw [List.foldlM_cons, hwrite]
      exact hwrites
    · rwa [List.flatten_cons, ← List.append_assoc]

end reply

section send

variable {b : ReplyBuffer} {answers : Nat → WriteAnswer} {whole : List UInt8} {s s' : SendState}

/-- The socket asks for patience at most. -/
def Patient (answers : Nat → WriteAnswer) : Prop := ∀ k errno, answers k ≠ .failed errno

/-- It takes something again and again. -/
def Takes (answers : Nat → WriteAnswer) : Prop :=
  ∀ k, ∃ j n, k ≤ j ∧ 0 < n ∧ answers j = .wrote n

/-- What was delivered is what stands before the position. -/
structure Sending (whole : List UInt8) (s : SendState) : Prop where
  within : s.size ≤ whole.length
  delivered : s.delivered = whole.take s.size

/-- The buffer has exactly the bytes of the reply. -/
structure Merged (b : ReplyBuffer) (whole : List UInt8) : Prop where
  cells : b.cells = whole.map some
  used : b.used = whole.length

theorem Merged.readCells (hb : Merged b whole) (hle : s.size ≤ whole.length) :
    readCells b.cells s.size (b.used - s.size) = .ok (whole.drop s.size) := by
  refine readCells_eq ?_ ?_
  · rw [hb.cells, hb.used, ← List.map_drop, ← List.map_take, List.take_of_length_le]
    rw [List.length_drop]
  · rw [hb.cells, hb.used, List.length_map]
    omega

theorem Merged.turn_done (hb : Merged b whole) (hs : Sending whole s)
    (hsize : ¬s.size < whole.length) :
    sendTurn b answers s = .ok (.done ⟨whole.length, whole⟩) := by
  have hall : s.size = whole.length := Nat.le_antisymm hs.within (Nat.le_of_not_lt hsize)
  rw [sendTurn, hb.used, if_neg hsize, hs.delivered, hall, List.take_length]
  rfl

theorem Sending.wrote (hs : Sending whole s) (n : Nat) :
    Sending whole ⟨s.size + min n (whole.drop s.size).length, s.attempts + 1,
      s.delivered ++ (whole.drop s.size).take n⟩ := by
  have hwithin := hs.within
  constructor
  · dsimp only
    rw [List.length_drop]
    omega
  · dsimp only
    rw [hs.delivered, List.take_add]
    congr 1
    rw [← List.take_take, List.take_length]

/-- A turn before the end makes an attempt, and comes further if the socket takes something. -/
theorem Merged.turn_again (hb : Merged b whole) (hpatient : Patient answers)
    (hs : Sending whole s) (hsize : s.size < whole.length) :
    ∃ s', sendTurn b answers s = .ok (.again s') ∧ Sending whole s' ∧
      s'.attempts = s.attempts + 1 ∧ s.size ≤ s'.size ∧
      (∀ n, 0 < n → answers s.attempts = .wrote n → s.size < s'.size) := by
  rw [sendTurn, hb.used, if_pos hsize, ← hb.used, hb.readCells hs.within, bind_ok]
  cases hanswer : answers s.attempts with
  | wrote n =>
    refine ⟨_, rfl, hs.wrote n, rfl, Nat.le_add_right _ _, fun m hm heq => ?_⟩
    cases heq
    dsimp only
    rw [List.length_drop]
    omega
  | eintr =>
    refine ⟨_, rfl, ⟨hs.within, hs.delivered⟩, rfl, Nat.le_refl _, fun n _ heq => ?_⟩
    cases heq
  | eagain =>
    refine ⟨_, rfl, ⟨hs.within, hs.delivered⟩, rfl, Nat.le_refl _, fun n _ heq => ?_⟩
    cases heq
  | failed errno => exact absurd hanswer (hpatient _ errno)

/-- The loop returns with everything or goes on. -/
theorem Merged.run_send (hb : Merged b whole) (hpatient : Patient answers) (fuel : Nat)
    (hs : Sending whole s) :
    run (sendTurn b answers) fuel s = .error .endless ∨
      run (sendTurn b answers) fuel s = .ok ⟨whole.length, whole⟩ := by
  induction fuel generalizing s with
  | zero => exact .inl rfl
  | succ fuel ih =>
    by_cases hsize : s.size < whole.length
    · obtain ⟨s', hturn, hs', -⟩ := hb.turn_again hpatient hs hsize
      rw [run_again hturn]
      exact ih hs'
    · rw [run, hb.turn_done hs hsize]
      exact .inr rfl

/-- It returns if the socket takes something again and again. -/
theorem Merged.run_ends (hb : Merged b whole) (hpatient : Patient answers) (htakes : Takes answers)
    (hs : Sending whole s) :
    ∃ fuel, run (sendTurn b answers) fuel s = .ok ⟨whole.length, whole⟩ := by
  induction hleft : whole.length - s.size using Nat.strong_induction_on generalizing s with
  | _ left ih =>
    -- the attempts until the next one that takes something
    have hwait : ∀ wait (s : SendState), Sending whole s → whole.length - s.size = left →
        (∃ n, 0 < n ∧ answers (s.attempts + wait) = .wrote n) →
        ∃ fuel, run (sendTurn b answers) fuel s = .ok ⟨whole.length, whole⟩ := by
      intro wait
      induction wait with
      | zero =>
        rintro s hs hleft ⟨n, hn, hanswer⟩
        by_cases hsize : s.size < whole.length
        · obtain ⟨s', hturn, hs', -, -, hmore⟩ := hb.turn_again hpatient hs hsize
          have hmore := hmore n hn hanswer
          obtain ⟨fuel, hrun⟩ := ih _ (by omega) hs' rfl
          exact ⟨fuel + 1, by rw [run_again hturn, hrun]⟩
        · exact ⟨1, by rw [run, hb.turn_done hs hsize]; rfl⟩
      | succ wait ihwait =>
        rintro s hs hleft hanswer
        by_cases hsize : s.size < whole.length
        · obtain ⟨s', hturn, hs', hattempts, hle, -⟩ := hb.turn_again hpatient hs hsize
          have hend : ∃ fuel, run (sendTurn b answers) fuel s' = .ok ⟨whole.length, whole⟩ := by
            by_cases hsame : s'.size = s.size
            · refine ihwait s' hs' (by omega) ?_
              rwa [hattempts, Nat.add_assoc, Nat.add_comm 1]
            · exact ih _ (by omega) hs' rfl
          obtain ⟨fuel, hrun⟩ := hend
          exact ⟨fuel + 1, by rw [run_again hturn, hrun]⟩
        · exact ⟨1, by rw [run, hb.turn_done hs hsize]; rfl⟩
    obtain ⟨j, n, hj, hn, hanswer⟩ := htakes s.attempts
    refine hwait (j - s.attempts) s hs hleft ⟨n, hn, ?_⟩
    rwa [Nat.add_sub_cancel' hj]

end send

/-- The header of a reply to be sent with `code`. -/
def headerBlock (code : Int) (version contentType : List UInt8) (usedBody : Nat) : List UInt8 :=
  bytes "HTTP/1.0 " ++ (if code = 200 then bytes "200 OK\r\n" else bytes "404 Not found\r\n") ++
    (headerLines version contentType usedBody).flatten

/-- The reply that is written to the socket: the header, then the texts of the body. -/
def wholeReply (code : Int) (version contentType : List UInt8) (texts : List (List UInt8)) :
    List UInt8 :=
  headerBlock code version contentType texts.flatten.length ++ texts.flatten

section complete

variable {reply : UnicastReply} {code : Int} {texts : List (List UInt8)}

/-- Before the loop the whole reply is in one buffer. -/
theorem unicastReplySend_merged (hreply : Collects reply .body [] texts.flatten)
    (hcode : code = 200 ∨ code = 404) (version contentType : List UInt8) :
    ∃ b, Merged b (wholeReply code version contentType texts) ∧ ∀ fuel answers,
      unicastReplySend fuel reply answers code version contentType =
        run (sendTurn b answers) fuel ⟨0, 0, []⟩ := by
  have hstart : Collects { reply with type := .header } .header [] texts.flatten :=
    ⟨rfl, hreply.header, hreply.body⟩
  have hstatus : status code =
      some (if code = 200 then bytes "200 OK\r\n" else bytes "404 Not found\r\n") := by
    rcases hcode with rfl | rfl
    · rfl
    · rfl
  obtain ⟨reply₁, hfirst, hr₁⟩ := hstart.write_header (bytes "HTTP/1.0 ")
  obtain ⟨reply₂, hline, hr₂⟩ := hr₁.write_header
    (if code = 200 then bytes "200 OK\r\n" else bytes "404 Not found\r\n")
  obtain ⟨reply₃, hlines, hr₃⟩ := hr₂.writes_header
    (headerLines version contentType texts.flatten.length)
  obtain ⟨b, hmerge, hcells, hused⟩ := mergeBuffers_eq hr₃.header hr₃.body
  refine ⟨b, ⟨hcells, hused⟩, fun fuel answers => ?_⟩
  rw [unicastReplySend, hfirst, bind_ok, hstatus]
  dsimp only
  rw [hline, bind_ok, hr₂.body.used, hlines, bind_ok, hmerge]
  rfl

end complete

/-- Whatever texts are written to the body: every write to the socket stays within the reply, which
has been delivered when the loop returns; and it returns if the socket takes something again and
again. -/
theorem reply_complete {code : Int} (hcode : code = 200 ∨ code = 404)
    {answers : Nat → WriteAnswer} (hpatient : Patient answers) (texts : List (List UInt8))
    (version contentType : List UInt8) :
    ∃ reply, texts.foldlM unicastReplyWrite unicastReplyInit = .ok reply ∧
      (∀ fuel, unicastReplySend fuel reply answers code version contentType = .error .endless ∨
        unicastReplySend fuel reply answers code version contentType =
          .ok ⟨(wholeReply code version contentType texts).length,
            wholeReply code version contentType texts⟩) ∧
      (Takes answers → ∃ fuel, unicastReplySend fuel reply answers code version contentType =
        .ok ⟨(wholeReply code version contentType texts).length,
          wholeReply code version contentType texts⟩) := by
  obtain ⟨reply, hwrites, hr⟩ := collects_init.writes_body texts
  obtain ⟨b, hb, hsend⟩ := unicastReplySend_merged hr hcode version contentType
  have hstart : Sending (wholeReply code version contentType texts) ⟨0, 0, []⟩ :=
    ⟨Nat.zero_le _, rfl⟩
  refine ⟨reply, hwrites, fun fuel => ?_, fun htakes => ?_⟩
  · rw [hsend]
    exact hb.run_send hpatient fuel hstart
  · obtain ⟨fuel, hrun⟩ := hb.run_ends hpatient htakes hstart
    exact ⟨fuel, by rw [hsend, hrun]⟩

/-! A socket that is interrupted, asks to wait, and takes seven bytes, in turn. -/

def slowSocket (k : Nat) : WriteAnswer :=
  if k % 3 = 0 then .eintr else if k % 3 = 1 then .eagain else .wrote 7

theorem slowSocket_patient : Patient slowSocket := by
  intro k errno h
  rw [slowSocket] at h
  split at h
  · cases h
  · split at h <;> cases h

theorem slowSocket_takes : Takes slowSocket := by
  intro k
  refine ⟨3 * k + 2, 7, by omega, by omega, ?_⟩
  rw [slowSocket, if_neg (by omega), if_neg (by omega)]

theorem reply_complete_slowSocket :
    ∃ reply fuel, [bytes "abc", bytes "de"].foldlM unicastReplyWrite unicastReplyInit = .ok reply ∧
      unicastReplySend fuel reply slowSocket 200 (bytes "2") (bytes "text/html") =
        .ok ⟨(wholeReply 200 (bytes "2") (bytes "text/html") [bytes "abc", bytes "de"]).length,
          wholeReply 200 (bytes "2") (bytes "text/html") [bytes "abc", bytes "de"]⟩ := by
  obtain ⟨reply, hwrites, -, hends⟩ := reply_complete (.inl rfl) slowSocket_patient
    [bytes "abc", bytes "de"] (bytes "2") (bytes "text/html")
  obtain ⟨fuel, hsend⟩ := hends slowSocket_takes
  exact ⟨reply, fuel, hwrites, hsend⟩

example : wholeReply 200 (bytes "2") (bytes "text/html") [bytes "abc", bytes "de"] =
    bytes ("HTTP/1.0 200 OK\r\nAccess-Control-Allow-Origin: *\r\nServer: mumudvb/2\r\n" ++
      "Content-type: text/html; charset=utf-8\r\nContent-length: 5\r\n\r\nabcde") := by
  decide +kernel

end MuMuDVB.HttpReply
