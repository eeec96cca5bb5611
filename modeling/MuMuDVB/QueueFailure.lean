import MuMuDVB.UnicastQueue
import MuMuDVB.ParallelHeaps

/-!
# Allocations that fail in the queue of a client

The functions of the queue once more, now with the answer of every `malloc` as a
parameter. An element is linked before its buffer is allocated, so that a pointer
to a buffer may be null here and a length may never have been written.
-/
namespace MuMuDVB.QueueFailure

open CheckedMemory CheckedHeap
open MuMuDVB.UnicastQueue (QueueHeader emptyHeader)

/-- `unicast_queue_data_t`; `dataLength` is empty until it is written. -/
structure QueueData where
  data : Option Addr
  dataLength : Option Nat
  next : Option Addr

/-- What `malloc` is called for. -/
inductive Block where
  | node (element : QueueData)
  | bytes (data : List UInt8)

structure Queue where
  heap : Heap Block
  header : QueueHeader

def readNode (h : Heap Block) (p : Option Addr) : Checked (Addr × QueueData) :=
  match p with
  | none => .error .outOfBounds
  | some p => do
    match ← h.read p with
    | .node element => return (p, element)
    | .bytes _ => .error .outOfBounds

/-- A length that was never written is not to be read. -/
def written (dataLength : Option Nat) : Checked Nat :=
  match dataLength with
  | none => .error .outOfBounds
  | some len => .ok len

/-- `free`, which takes a null pointer as well. -/
def release (h : Heap Block) (p : Option Addr) : Checked (Heap Block) :=
  match p with
  | none => .ok h
  | some p => h.free p

/-- The first half of `unicast_queue_add_data`: an element is allocated and linked. -/
def linkElement (q : Queue) (elementAlloc : Bool) : Checked (Queue × Option Addr) :=
  if q.header.packetsInQueue = 0 then
    if elementAlloc then
      let (dest, h) := q.heap.alloc (.node ⟨none, none, none⟩)
      .ok (⟨h, { q.header with first := some dest, last := some dest }⟩, some dest)
    else .ok (⟨q.heap, { q.header with first := none }⟩, none)
  else do
    let (p, element) ← readNode q.heap q.header.last
    if elementAlloc then
      let (dest, h) := q.heap.alloc (.node ⟨none, none, none⟩)
      let h ← h.write p (.node { element with next := some dest })
      return (⟨h, { q.header with last := some dest }⟩, some dest)
    else
      let h ← q.heap.write p (.node { element with next := none })
      return (⟨h, q.header⟩, none)

/-- `unicast_queue_add_data`. -/
def unicastQueueAddData (q : Queue) (data : List UInt8) (elementAlloc bufferAlloc : Bool) :
    Checked (Queue × Int) := do
  let (q, dest) ← linkElement q elementAlloc
  match dest with
  | none => return (q, -1)
  | some dest =>
    if bufferAlloc then
      let (block, h) := q.heap.alloc (.bytes data)
      let h ← h.write dest (.node ⟨some block, some data.length, none⟩)
      return (⟨h, { q.header with
        packetsInQueue := q.header.packetsInQueue + 1
        dataBytesInQueue := q.header.dataBytesInQueue + data.length }⟩, 0)
    else return (q, -1)

/-- `unicast_queue_get_data`: the buffer and what is written to `data_len`, or a null pointer. -/
def unicastQueueGetData (q : Queue) : Checked (Option (Option Addr × Option Nat)) :=
  if q.header.packetsInQueue = 0 then .ok none
  else do
    let (_, element) ← readNode q.heap q.header.first
    return some (element.data, element.dataLength)

/-- `unicast_queue_remove_data`. -/
def unicastQueueRemoveData (q : Queue) : Checked (Queue × Int) :=
  if q.header.packetsInQueue = 0 then .ok (q, -1)
  else do
    let (p, element) ← readNode q.heap q.header.first
    let len ← written element.dataLength
    let h ← release q.heap element.data
    let h ← h.free p
    return (⟨h, { q.header with
      first := element.next
      packetsInQueue := q.header.packetsInQueue - 1
      full := false
      dataBytesInQueue := q.header.dataBytesInQueue - len }⟩, 0)

/-- `unicast_queue_clear`. -/
def unicastQueueClear (fuel : Nat) (q : Queue) : Checked Queue :=
  match fuel with
  | 0 => .error .endless
  | fuel + 1 =>
    if 0 < q.header.packetsInQueue then do
      let (q, _) ← unicastQueueRemoveData q
      unicastQueueClear fuel q
    else .ok q

/-- `unicast_queue_requeue`; `data` are the bytes that the pointer of the caller gives. -/
def unicastQueueRequeue (q : Queue) (data : List UInt8) (tempAlloc : Bool) :
    Checked (Queue × Int) :=
  if q.header.packetsInQueue = 0 then .ok (q, -1)
  else if tempAlloc then do
    let (tempbuf, h) := q.heap.alloc (.bytes data)
    let (p, dest) ← readNode h q.header.first
    let lastPktSize ← written dest.dataLength
    let h ← release h dest.data
    let h ← h.write p (.node { dest with data := some tempbuf, dataLength := some data.length })
    return (⟨h, { q.header with
      dataBytesInQueue := q.header.dataBytesInQueue - lastPktSize + data.length }⟩, 0)
  else .ok (q, -1)

inductive Operation where
  | add (data : List UInt8) (elementAlloc bufferAlloc : Bool)
  | get
  | remove
  | clear
  | requeue (data : List UInt8) (tempAlloc : Bool)

/-- What a caller sees of an operation. -/
inductive Answer where
  | code (value : Int)
  /-- the queue is empty -/
  | null
  /-- the bytes at the pointer, if it is not null, and the length -/
  | data (bytes : Option (List UInt8)) (len : Option Nat)
  | done
  deriving DecidableEq

/-- The bytes of a buffer. -/
def bytesAt (h : Heap Block) (p : Option Addr) : Checked (Option (List UInt8)) :=
  match p with
  | none => .ok none
  | some p => do
    match ← h.read p with
    | .node _ => .error .outOfBounds
    | .bytes data => return some data

def perform (q : Queue) : Operation → Checked (Queue × Answer)
  | .add data elementAlloc bufferAlloc => do
    let (q, value) ← unicastQueueAddData q data elementAlloc bufferAlloc
    return (q, .code value)
  | .get => do
    match ← unicastQueueGetData q with
    | none => return (q, .null)
    | some (block, len) =>
      let bytes ← bytesAt q.heap block
      return (q, .data bytes len)
  | .remove => do
    let (q, value) ← unicastQueueRemoveData q
    return (q, .code value)
  | .clear => do
    let q ← unicastQueueClear (q.header.packetsInQueue + 1) q
    return (q, .done)
  | .requeue data tempAlloc => do
    let (q, value) ← unicastQueueRequeue q data tempAlloc
    return (q, .code value)

/-- The answer to an operation and the numbers in the header after it. -/
structure Seen where
  answer : Answer
  packetsInQueue : Nat
  dataBytesInQueue : Int
  full : Bool
  deriving DecidableEq

def seen (q : Queue) (answer : Answer) : Seen :=
  ⟨answer, q.header.packetsInQueue, q.header.dataBytesInQueue, q.header.full⟩

/-- What is seen of the operations, up to a fault. -/
def observe (q : Queue) : List Operation → List (Checked Seen)
  | [] => []
  | op :: ops =>
    match perform q op with
    | .error e => [.error e]
    | .ok (q, answer) => .ok (seen q answer) :: observe q ops

section alike

variable {base base' : Nat} {h h' : Heap Block} {p p' : Option Addr} {q q' : Queue}

/-- The same pointer, or null twice. -/
abbrev SamePointer (base base' : Nat) : Option Addr → Option Addr → Prop :=
  Option.Rel (SamePlace base base')

/-- The same element up to its pointers. -/
structure SameElement (base base' : Nat) (e e' : QueueData) : Prop where
  data : SamePointer base base' e.data e'.data
  dataLength : e'.dataLength = e.dataLength
  next : SamePointer base base' e.next e'.next

theorem SameElement.of_pointers {data data' next next' : Option Addr}
    (hdata : SamePointer base base' data data') (hnext : SamePointer base base' next next')
    (len : Option Nat) : SameElement base base' ⟨data, len, next⟩ ⟨data', len, next'⟩ :=
  ⟨hdata, rfl, hnext⟩

theorem SameElement.link {e e' : QueueData} (he : SameElement base base' e e')
    {next next' : Option Addr} (hnext : SamePointer base base' next next') :
    SameElement base base' { e with next := next } { e' with next := next' } :=
  ⟨he.data, he.dataLength, hnext⟩

inductive SameBlock (base base' : Nat) : Block → Block → Prop where
  | node {e e' : QueueData} (he : SameElement base base' e e') :
      SameBlock base base' (.node e) (.node e')
  | bytes (data : List UInt8) : SameBlock base base' (.bytes data) (.bytes data)

/-- Two queues that behave alike. The pointers of an empty one do not matter. -/
structure Alike (base base' : Nat) (q q' : Queue) : Prop where
  heap : Beyond base base' (SameBlock base base') q.heap q'.heap
  packets : q'.header.packetsInQueue = q.header.packetsInQueue
  size : q'.header.dataBytesInQueue = q.header.dataBytesInQueue
  full : q'.header.full = q.header.full
  first : q.header.packetsInQueue ≠ 0 → SamePointer base base' q.header.first q'.header.first
  last : q.header.packetsInQueue ≠ 0 → SamePointer base base' q.header.last q'.header.last

theorem readNode_alike (hb : Beyond base base' (SameBlock base base') h h')
    (hp : SamePointer base base' p p') :
    Agrees (fun r r' => SamePlace base base' r.1 r'.1 ∧
        SameElement base base' r.2 r'.2)
      (readNode h p) (readNode h' p') := by
  cases hp with
  | none => rfl
  | some hp =>
    refine (hb.read _ _ hp).bind ?_
    rintro _ _ (he | data)
    · exact ⟨hp, he⟩
    · rfl

theorem release_alike (hb : Beyond base base' (SameBlock base base') h h')
    (hp : SamePointer base base' p p') :
    Agrees (Beyond base base' (SameBlock base base')) (release h p) (release h' p') := by
  cases hp with
  | none => exact hb
  | some hp => exact hb.free hp

theorem bytesAt_alike (hb : Beyond base base' (SameBlock base base') h h')
    (hp : SamePointer base base' p p') :
    Agrees (fun r r' => r = r') (bytesAt h p) (bytesAt h' p') := by
  cases hp with
  | none => rfl
  | some hp =>
    refine (hb.read _ _ hp).bind ?_
    rintro _ _ (he | data)
    · rfl
    · rfl

theorem written_alike {len len' : Option Nat} (hlen : len' = len) :
    Agrees (fun r r' => r = r') (written len) (written len') := by
  rw [hlen]
  cases len <;> rfl

/-- After the linking: the pointers are set if there is an element. -/
structure AlikeLinked (base base' : Nat) (r r' : Queue × Option Addr) : Prop where
  dest : SamePointer base base' r.2 r'.2
  alike : Alike base base' r.1 r'.1
  first : r.2 ≠ none → SamePointer base base' r.1.header.first r'.1.header.first
  last : r.2 ≠ none → SamePointer base base' r.1.header.last r'.1.header.last

theorem linkElement_alike (hq : Alike base base' q q') (elementAlloc : Bool) :
    Agrees (AlikeLinked base base') (linkElement q elementAlloc) (linkElement q' elementAlloc) := by
  obtain ⟨hdest, hheap⟩ := hq.heap.alloc (.node (.of_pointers .none .none none))
  rw [linkElement, linkElement, hq.packets]
  by_cases hempty : q.header.packetsInQueue = 0
  · have hskip : ∀ {P : Prop}, q.header.packetsInQueue ≠ 0 → P := fun hne => absurd hempty hne
    rw [if_pos hempty, if_pos hempty]
    cases elementAlloc with
    | true =>
      exact ⟨.some hdest, ⟨hheap, hq.packets, hq.size, hq.full, hskip, hskip⟩,
        fun _ => .some hdest, fun _ => .some hdest⟩
    | false =>
      exact ⟨.none, ⟨hq.heap, hq.packets, hq.size, hq.full, hskip, hskip⟩,
        fun hne => absurd rfl hne, fun hne => absurd rfl hne⟩
  · rw [if_neg hempty, if_neg hempty]
    refine (readNode_alike hq.heap (hq.last hempty)).bind ?_
    rintro ⟨p, e⟩ ⟨p', e'⟩ ⟨hp, he⟩
    cases elementAlloc with
    | true =>
      refine (hheap.write hp (.node (he.link (.some hdest)))).bind fun h h' hb => ?_
      exact ⟨.some hdest, ⟨hb, hq.packets, hq.size, hq.full, hq.first, fun _ => .some hdest⟩,
        fun _ => hq.first hempty, fun _ => .some hdest⟩
    | false =>
      refine (hq.heap.write hp (.node (he.link .none))).bind fun h h' hb => ?_
      exact ⟨.none, ⟨hb, hq.packets, hq.size, hq.full, hq.first, hq.last⟩,
        fun hne => absurd rfl hne, fun hne => absurd rfl hne⟩

/-- Both queues behave alike again, and the results are the same. -/
def AlikeResult {α : Type} (base base' : Nat) (r r' : Queue × α) : Prop :=
  Alike base base' r.1 r'.1 ∧ r.2 = r'.2

theorem addData_alike (hq : Alike base base' q q') (data : List UInt8)
    (elementAlloc bufferAlloc : Bool) :
    Agrees (AlikeResult base base') (unicastQueueAddData q data elementAlloc bufferAlloc)
      (unicastQueueAddData q' data elementAlloc bufferAlloc) := by
  refine (linkElement_alike hq elementAlloc).bind ?_
  rintro ⟨q, dest⟩ ⟨q', dest'⟩ ⟨hdest, hq, hfirst, hlast⟩
  cases hdest with
  | none => exact ⟨hq, rfl⟩
  | some hdest =>
    cases bufferAlloc with
    | true =>
      obtain ⟨hblock, hheap⟩ := hq.heap.alloc (.bytes data)
      refine (hheap.write hdest (.node (.of_pointers (.some hblock) .none _))).bind ?_
      intro h h' hb
      have hset : ∀ dest : Addr, some dest ≠ none := Option.some_ne_none
      refine ⟨⟨hb, ?_, ?_, hq.full, fun _ => hfirst (hset _), fun _ => hlast (hset _)⟩, rfl⟩
      · exact congrArg (· + 1) hq.packets
      · exact congrArg (· + (data.length : Int)) hq.size
    | false => exact ⟨hq, rfl⟩

theorem removeData_alike (hq : Alike base base' q q') :
    Agrees (AlikeResult base base') (unicastQueueRemoveData q) (unicastQueueRemoveData q') := by
  rw [unicastQueueRemoveData, unicastQueueRemoveData, hq.packets]
  split
  case isTrue => exact ⟨hq, rfl⟩
  case isFalse hne =>
    refine (readNode_alike hq.heap (hq.first hne)).bind ?_
    rintro ⟨p, e⟩ ⟨p', e'⟩ ⟨hp, he⟩
    refine (written_alike he.dataLength).bind ?_
    rintro len _ rfl
    refine (release_alike hq.heap he.data).bind fun h h' hb => ?_
    refine (hb.free hp).bind fun h h' hb => ?_
    refine ⟨⟨hb, rfl, ?_, rfl, fun _ => he.next, fun _ => hq.last hne⟩, rfl⟩
    exact congrArg (· - (len : Int)) hq.size

theorem clear_alike (fuel : Nat) (hq : Alike base base' q q') :
    Agrees (Alike base base') (unicastQueueClear fuel q) (unicastQueueClear fuel q') := by
  induction fuel generalizing q q' with
  | zero => rfl
  | succ fuel ih =>
    rw [unicastQueueClear, unicastQueueClear, hq.packets]
    split
    · refine (removeData_alike hq).bind ?_
      rintro ⟨q, _⟩ ⟨q', _⟩ ⟨hq, -⟩
      exact ih hq
    · exact hq

theorem requeue_alike (hq : Alike base base' q q') (data : List UInt8) (tempAlloc : Bool) :
    Agrees (AlikeResult base base') (unicastQueueRequeue q data tempAlloc)
      (unicastQueueRequeue q' data tempAlloc) := by
  rw [unicastQueueRequeue, unicastQueueRequeue, hq.packets]
  split
  case isTrue => exact ⟨hq, rfl⟩
  case isFalse hne =>
    cases tempAlloc with
    | true =>
      obtain ⟨htemp, hheap⟩ := hq.heap.alloc (.bytes data)
      refine (readNode_alike hheap (hq.first hne)).bind ?_
      rintro ⟨p, e⟩ ⟨p', e'⟩ ⟨hp, he⟩
      refine (written_alike he.dataLength).bind ?_
      rintro len _ rfl
      refine (release_alike hheap he.data).bind fun h h' hb => ?_
      refine (hb.write hp (.node (.of_pointers (.some htemp) he.next _))).bind fun h h' hb => ?_
      refine ⟨⟨hb, hq.packets, ?_, hq.full, hq.first, hq.last⟩, rfl⟩
      exact congrArg (fun n => n - (len : Int) + data.length) hq.size
    | false => exact ⟨hq, rfl⟩

theorem perform_alike (hq : Alike base base' q q') (op : Operation) :
    Agrees (AlikeResult base base') (perform q op) (perform q' op) := by
  cases op with
  | add data elementAlloc bufferAlloc =>
    refine (addData_alike hq data elementAlloc bufferAlloc).bind ?_
    rintro ⟨q, value⟩ ⟨q', _⟩ ⟨hq, rfl⟩
    exact ⟨hq, rfl⟩
  | get =>
    rw [perform, perform, unicastQueueGetData, unicastQueueGetData, hq.packets]
    split
    case isTrue => exact ⟨hq, rfl⟩
    case isFalse hne =>
      refine Agrees.bind (R := fun r r' => ∃ block block' len, r = some (block, len) ∧
        r' = some (block', len) ∧ SamePointer base base' block block') ?_ ?_
      · refine (readNode_alike hq.heap (hq.first hne)).bind ?_
        rintro ⟨p, e⟩ ⟨p', e'⟩ ⟨hp, he⟩
        refine ⟨e.data, e'.data, e.dataLength, rfl, ?_, he.data⟩
        rw [← he.dataLength]
      · rintro _ _ ⟨block, block', len, rfl, rfl, hblock⟩
        refine (bytesAt_alike hq.heap hblock).bind ?_
        rintro bytes _ rfl
        exact ⟨hq, rfl⟩
  | remove =>
    refine (removeData_alike hq).bind ?_
    rintro ⟨q, value⟩ ⟨q', _⟩ ⟨hq, rfl⟩
    exact ⟨hq, rfl⟩
  | clear =>
    rw [perform, perform, hq.packets]
    exact (clear_alike _ hq).bind fun q q' hq => ⟨hq, rfl⟩
  | requeue data tempAlloc =>
    refine (requeue_alike hq data tempAlloc).bind ?_
    rintro ⟨q, value⟩ ⟨q', _⟩ ⟨hq, rfl⟩
    exact ⟨hq, rfl⟩

theorem seen_alike (hq : Alike base base' q q') (answer : Answer) :
    seen q' answer = seen q answer := by
  rw [seen, seen, hq.packets, hq.size, hq.full]

/-- Nothing that is done with such queues tells them apart. -/
theorem observe_alike (hq : Alike base base' q q') (ops : List Operation) :
    observe q' ops = observe q ops := by
  induction ops generalizing q q' with
  | nil => rfl
  | cons op ops ih =>
    have hperform := perform_alike hq op
    rw [observe, observe]
    cases hr : perform q op <;> cases hr' : perform q' op <;> rw [hr, hr'] at hperform
    case error.error e e' =>
      cases (hperform : e = e')
      rfl
    case ok.ok r r' =>
      obtain ⟨q, answer⟩ := r
      obtain ⟨q', _⟩ := r'
      obtain ⟨hq, rfl⟩ := hperform
      dsimp only
      rw [ih hq, seen_alike hq]
    all_goals cases hperform

end alike

/-- The elements from the first one on; a queue with no packets has none, whatever its pointers
are. -/
def Chain (q : Queue) (es : List (Addr × QueueData)) : Prop :=
  if q.header.packetsInQueue = 0 then es = []
  else Segment Prod.fst (fun e next => q.heap.read e.1 = .ok (.node e.2) ∧ e.2.next = next)
    q.header.first es none

/-- The queue is as it was: its elements, the last one, the numbers, the buffers, and all that is
seen of it later. -/
structure Intact (q q' : Queue) : Prop where
  chain : ∀ es, Chain q' es ↔ Chain q es
  last : q.header.packetsInQueue ≠ 0 → q'.header.last = q.header.last
  packets : q'.header.packetsInQueue = q.header.packetsInQueue
  size : q'.header.dataBytesInQueue = q.header.dataBytesInQueue
  buffers : ∀ p data, q.heap.read p = .ok (.bytes data) → q'.heap.read p = .ok (.bytes data)
  later : ∀ ops, observe q' ops = observe q ops

/-- The last pointer of a queue with packets is that of the final element. -/
def Ended (q : Queue) : Prop :=
  ∃ p e, q.header.last = some p ∧ q.heap.read p = .ok (.node e) ∧ e.next = none

section ended

/-- The queues of the runs in which all allocations succeed. -/
def ofBlock : UnicastQueue.Block → Block
  | .node e => .node ⟨some e.data, some e.dataLength, e.next⟩
  | .bytes data => .bytes data

def ofHeap (h : Heap UnicastQueue.Block) : Heap Block := ⟨h.blocks.map (Option.map ofBlock)⟩

theorem read_ofHeap {h : Heap UnicastQueue.Block} {p : Addr} {b : UnicastQueue.Block}
    (hread : h.read p = .ok b) : (ofHeap h).read p = .ok (ofBlock b) := by
  rw [Heap.read_eq_ok] at hread ⊢
  rw [ofHeap, List.getElem?_map, hread]
  rfl

theorem ended_of_isQueue {h : Heap UnicastQueue.Block} {header : QueueHeader}
    {es : List UnicastQueue.Element} (hq : UnicastQueue.IsQueue h header es)
    (hne : header.packetsInQueue ≠ 0) : Ended ⟨ofHeap h, header⟩ := by
  rcases List.eq_nil_or_concat' es with rfl | ⟨front, l, rfl⟩
  · exact absurd hq.packets hne
  · obtain ⟨q, -, -, next, hin, hnext⟩ := segment_append.mp hq.linked
    have hread := read_ofHeap hin.node
    exact ⟨l.node, _, hq.last l List.getLast?_concat, hread, hnext⟩

end ended

section failed

variable {q q' : Queue} {data : List UInt8} {elementAlloc bufferAlloc : Bool}

theorem readNode_eq {h : Heap Block} {p : Addr} {e : QueueData}
    (hread : h.read p = .ok (.node e)) : readNode h (some p) = .ok (p, e) := by
  rw [readNode, hread]
  rfl

/-- An empty queue whose pointers and heap may have changed. -/
theorem intact_of_empty (hempty : q.header.packetsInQueue = 0)
    (hheader : q'.header.packetsInQueue = q.header.packetsInQueue ∧
      q'.header.dataBytesInQueue = q.header.dataBytesInQueue ∧ q'.header.full = q.header.full)
    (hbuffers : ∀ p data, q.heap.read p = .ok (.bytes data) →
      q'.heap.read p = .ok (.bytes data)) : Intact q q' := by
  obtain ⟨hpackets, hsize, hfull⟩ := hheader
  have hskip : ∀ {P : Prop}, q.header.packetsInQueue ≠ 0 → P := fun hne => absurd hempty hne
  refine ⟨fun es => ?_, hskip, hpackets, hsize, hbuffers, fun ops => ?_⟩
  · rw [Chain, Chain, hpackets, if_pos hempty, if_pos hempty]
  · exact observe_alike ⟨beyond_start _ _, hpackets, hsize, hfull, hskip, hskip⟩ ops

theorem intact_refl (q : Queue) : Intact q q :=
  ⟨fun _ => Iff.rfl, fun _ => rfl, rfl, rfl, fun _ _ hread => hread, fun _ => rfl⟩

/-- A block written as it is. -/
theorem write_self {h : Heap Block} {p : Addr} {b : Block} (hread : h.read p = .ok b) :
    h.write p b = .ok h := by
  have hsome := Heap.read_eq_ok.mp hread
  obtain ⟨hlt, hget⟩ := List.getElem?_eq_some_iff.mp hsome
  rw [Heap.write, hread, bind_ok, pure_ok, ← hget, List.set_getElem_self]

theorem linkElement_empty (hempty : q.header.packetsInQueue = 0) :
    linkElement q false = .ok (⟨q.heap, { q.header with first := none }⟩, none) ∧
    linkElement q true = .ok (⟨(q.heap.alloc (.node ⟨none, none, none⟩)).2,
      { q.header with
        first := some q.heap.blocks.length
        last := some q.heap.blocks.length }⟩, some q.heap.blocks.length) := by
  rw [linkElement, linkElement, if_pos hempty, if_pos hempty]
  exact ⟨rfl, rfl⟩

/-- Without memory for the element the last pointer is written as it was. -/
theorem linkElement_unlinked (hne : q.header.packetsInQueue ≠ 0) (hended : Ended q) :
    linkElement q false = .ok (q, none) := by
  obtain ⟨p, e, hlast, hread, hnext⟩ := hended
  have hsame : (⟨e.data, e.dataLength, none⟩ : QueueData) = e := by rw [← hnext]
  rw [linkElement, if_neg hne, hlast, readNode_eq hread, bind_ok]
  dsimp only
  rw [hsame, write_self hread]
  rfl

/-- With memory for it the element is the last one, whatever comes. -/
theorem linkElement_linked (hne : q.header.packetsInQueue ≠ 0) (hended : Ended q) :
    ∃ h, linkElement q true =
      .ok (⟨h, { q.header with last := some q.heap.blocks.length }⟩,
        some q.heap.blocks.length) := by
  obtain ⟨p, e, hlast, hread, hnext⟩ := hended
  obtain ⟨h, hwrite, -⟩ := Heap.write_ok (Heap.read_alloc_of_ok hread (.node ⟨none, none, none⟩))
    (.node { e with next := some q.heap.blocks.length })
  refine ⟨h, ?_⟩
  rw [linkElement, if_neg hne, hlast, readNode_eq hread, bind_ok]
  dsimp only
  have hdest : (q.heap.alloc (.node ⟨none, none, none⟩)).1 = q.heap.blocks.length := rfl
  rw [if_pos rfl, hdest, hwrite]
  rfl

theorem last_changed (hended : Ended q) : some q.heap.blocks.length ≠ q.header.last := by
  obtain ⟨p, e, hlast, hread, -⟩ := hended
  rw [hlast]
  intro heq
  have hlt := (List.getElem?_eq_some_iff.mp (Heap.read_eq_ok.mp hread)).1
  exact Nat.lt_irrefl _ (Option.some.inj heq ▸ hlt)

/-- A call that fails returns after the linking. -/
theorem linked_of_fails
    (hfails : unicastQueueAddData q data elementAlloc bufferAlloc = .ok (q', -1)) :
    ∃ dest, linkElement q elementAlloc = .ok (q', dest) := by
  rw [unicastQueueAddData] at hfails
  obtain ⟨⟨q₁, dest⟩, hlink, hfails⟩ := bind_eq_ok.mp hfails
  refine ⟨dest, ?_⟩
  cases dest with
  | none =>
    cases hfails
    exact hlink
  | some dest =>
    cases bufferAlloc with
    | false =>
      cases hfails
      exact hlink
    | true =>
      obtain ⟨h, -, hreturn⟩ := bind_eq_ok.mp hfails
      cases hreturn

theorem intact_of_link_empty {dest : Option Addr} (hempty : q.header.packetsInQueue = 0)
    (hlink : linkElement q elementAlloc = .ok (q', dest)) : Intact q q' := by
  obtain ⟨hunlinked, hlinked⟩ := linkElement_empty hempty
  cases elementAlloc with
  | false =>
    rw [hunlinked] at hlink
    cases hlink
    exact intact_of_empty hempty ⟨rfl, rfl, rfl⟩ fun _ _ hread => hread
  | true =>
    rw [hlinked] at hlink
    cases hlink
    exact intact_of_empty hempty ⟨rfl, rfl, rfl⟩ fun _ _ hread => Heap.read_alloc_of_ok hread _

/-- A call that fails leaves the queue as it was exactly if the queue is empty or the element was
not allocated. -/
theorem addData_intact_iff (hended : q.header.packetsInQueue ≠ 0 → Ended q)
    (hfails : unicastQueueAddData q data elementAlloc bufferAlloc = .ok (q', -1)) :
    Intact q q' ↔ q.header.packetsInQueue = 0 ∨ elementAlloc = false := by
  obtain ⟨dest, hlink⟩ := linked_of_fails hfails
  by_cases hempty : q.header.packetsInQueue = 0
  · exact ⟨fun _ => .inl hempty, fun _ => intact_of_link_empty hempty hlink⟩
  · cases elementAlloc with
    | false =>
      rw [linkElement_unlinked hempty (hended hempty)] at hlink
      cases hlink
      exact ⟨fun _ => .inr rfl, fun _ => intact_refl q⟩
    | true =>
      obtain ⟨h, hlinked⟩ := linkElement_linked hempty (hended hempty)
      rw [hlinked] at hlink
      cases hlink
      constructor
      · exact fun hintact => absurd (hintact.last hempty) (last_changed (hended hempty))
      · exact fun h => absurd h (by simp [hempty])

end failed

/-! One buffer is queued; there is memory for one more element, but not for its buffer. -/

def oneQueued : Queue where
  heap := ⟨[some (.node ⟨some 1, some 1, none⟩), some (.bytes [1])]⟩
  header := ⟨1, 1, false, some 0, some 0⟩

def halfLinked : Queue where
  heap := ⟨[some (.node ⟨some 1, some 1, some 2⟩), some (.bytes [1]),
    some (.node ⟨none, none, none⟩)]⟩
  header := ⟨1, 1, false, some 0, some 2⟩

theorem oneQueued_ended : Ended oneQueued := ⟨0, ⟨some 1, some 1, none⟩, rfl, rfl, rfl⟩

theorem addData_intact_halfLinked :
    Intact oneQueued halfLinked ↔ oneQueued.header.packetsInQueue = 0 ∨ true = false := by
  have hfails : unicastQueueAddData oneQueued [2] true false = .ok (halfLinked, -1) := rfl
  exact addData_intact_iff (fun _ => oneQueued_ended) hfails

/-- A third buffer is queued then and the first one removed: the next to be sent is a null pointer
with a length that was never written. -/
theorem not_intact_halfLinked :
    unicastQueueAddData oneQueued [2] true false = .ok (halfLinked, -1) ∧
    observe halfLinked [.add [3] true true, .remove, .get] =
      [.ok ⟨.code 0, 2, 2, false⟩, .ok ⟨.code 0, 1, 1, false⟩, .ok ⟨.data none none, 1, 1, false⟩] ∧
    observe oneQueued [.add [3] true true, .remove, .get] =
      [.ok ⟨.code 0, 2, 2, false⟩, .ok ⟨.code 0, 1, 1, false⟩,
        .ok ⟨.data (some [3]) (some 1), 1, 1, false⟩] ∧
    ¬Intact oneQueued halfLinked := by
  refine ⟨rfl, rfl, rfl, fun hintact => ?_⟩
  have hlater := hintact.later [.add [3] true true, .remove, .get]
  have hfound : some (.ok ⟨.data none none, 1, 1, false⟩ : Checked Seen) =
      some (.ok ⟨.data (some [3]) (some 1), 1, 1, false⟩) := congrArg (fun seen => seen[2]?) hlater
  cases hfound

end MuMuDVB.QueueFailure
