import MuMuDVB.CheckedHeap

/-!
# The queue of a unicast client

A singly linked list of allocated buffers with a header that counts packets and
bytes. What a pointer may be used for is decided by the heap: a released buffer
cannot be read. All allocations succeed.
-/
namespace MuMuDVB.UnicastQueue

open CheckedMemory CheckedHeap

/-- `unicast_queue_data_t`. -/
structure QueueData where
  data : Addr
  dataLength : Nat
  next : Option Addr

/-- What `malloc` is called for. -/
inductive Block where
  | node (element : QueueData)
  | bytes (data : List UInt8)

/-- `unicast_queue_header_t`. -/
structure QueueHeader where
  packetsInQueue : Nat
  dataBytesInQueue : Int
  full : Bool
  first : Option Addr
  last : Option Addr

/-- The header in a client allocated by `calloc`. -/
def emptyHeader : QueueHeader := ⟨0, 0, false, none, none⟩

def readNode (h : Heap Block) (p : Option Addr) : Checked (Addr × QueueData) :=
  match p with
  | none => .error .outOfBounds
  | some p => do
    match ← h.read p with
    | .node element => return (p, element)
    | .bytes _ => .error .outOfBounds

/-- The first `len` bytes at a pointer to a buffer. -/
def readBytes (h : Heap Block) (p : Addr) (len : Nat) : Checked (List UInt8) := do
  match ← h.read p with
  | .node _ => .error .outOfBounds
  | .bytes data => if len ≤ data.length then return data.take len else .error .outOfBounds

/-- `unicast_queue_add_data`. -/
def unicastQueueAddData (h : Heap Block) (header : QueueHeader) (data : List UInt8) :
    Checked (Heap Block × QueueHeader) := do
  let (block, h) := h.alloc (.bytes data)
  let (dest, h) := h.alloc (.node ⟨block, data.length, none⟩)
  let (h, header) ← (if header.packetsInQueue = 0 then
      .ok (h, { header with first := some dest, last := some dest })
    else do
      let (p, element) ← readNode h header.last
      let h ← h.write p (.node { element with next := some dest })
      return (h, { header with last := some dest }) : Checked (Heap Block × QueueHeader))
  return (h, { header with
    packetsInQueue := header.packetsInQueue + 1
    dataBytesInQueue := header.dataBytesInQueue + data.length })

/-- `unicast_queue_get_data`; the callers do not look for the null pointer of an empty queue. -/
def unicastQueueGetData (h : Heap Block) (header : QueueHeader) : Checked (Addr × Nat) :=
  if header.packetsInQueue = 0 then .error .outOfBounds
  else do
    let (_, element) ← readNode h header.first
    return (element.data, element.dataLength)

/-- `unicast_queue_remove_data`. -/
def unicastQueueRemoveData (h : Heap Block) (header : QueueHeader) :
    Checked (Heap Block × QueueHeader) :=
  if header.packetsInQueue = 0 then .ok (h, header)
  else do
    let (p, element) ← readNode h header.first
    let h ← h.free element.data
    let h ← h.free p
    return (h, { header with
      first := element.next
      packetsInQueue := header.packetsInQueue - 1
      full := false
      dataBytesInQueue := header.dataBytesInQueue - element.dataLength })

/-- `unicast_queue_clear`. -/
def unicastQueueClear (fuel : Nat) (h : Heap Block) (header : QueueHeader) :
    Checked (Heap Block × QueueHeader) :=
  match fuel with
  | 0 => .error .endless
  | fuel + 1 =>
    if 0 < header.packetsInQueue then do
      let (h, header) ← unicastQueueRemoveData h header
      unicastQueueClear fuel h header
    else .ok (h, header)

/-- `unicast_queue_requeue`, for the `len` bytes at offset `off` of the buffer at `data`. -/
def unicastQueueRequeue (h : Heap Block) (header : QueueHeader) (data : Addr) (off len : Nat) :
    Checked (Heap Block × QueueHeader) :=
  if header.packetsInQueue = 0 then .ok (h, header)
  else do
    let src ← readBytes h data (off + len)
    let (tempbuf, h) := h.alloc (.bytes (src.drop off))
    let (p, dest) ← readNode h header.first
    let h ← h.free dest.data
    let h ← h.write p (.node { dest with data := tempbuf, dataLength := len })
    return (h, { header with
      dataBytesInQueue := header.dataBytesInQueue - dest.dataLength + len })

/-- The buffers of the first `n` elements from a pointer on. -/
def buffersFrom (h : Heap Block) : Nat → Option Addr → Checked (List (List UInt8))
  | 0, _ => .ok []
  | n + 1, p => do
    let (_, element) ← readNode h p
    let data ← readBytes h element.data element.dataLength
    let later ← buffersFrom h n element.next
    return data :: later

/-- What is in the queue. -/
def buffers (h : Heap Block) (header : QueueHeader) : Checked (List (List UInt8)) :=
  buffersFrom h header.packetsInQueue header.first

/-- An element with its two blocks. -/
structure Element where
  node : Addr
  data : Addr
  bytes : List UInt8

def footprint (es : List Element) : List Addr := es.flatMap fun e => [e.node, e.data]

def contents (es : List Element) : List (List UInt8) := es.map Element.bytes

/-- The element is in the heap, linked to `next`. -/
structure InMemory (h : Heap Block) (e : Element) (next : Option Addr) : Prop where
  node : h.read e.node = .ok (.node ⟨e.data, e.bytes.length, next⟩)
  data : h.read e.data = .ok (.bytes e.bytes)

/-- The header describes a linked list of these elements. -/
structure IsQueue (h : Heap Block) (header : QueueHeader) (es : List Element) : Prop where
  linked : Segment Element.node (InMemory h) header.first es none
  last : ∀ e, es.getLast? = some e → header.last = some e.node
  packets : header.packetsInQueue = es.length
  size : header.dataBytesInQueue = (contents es).flatten.length
  apart : (footprint es).Nodup

variable {h h' : Heap Block} {header : QueueHeader} {e : Element} {es : List Element}
  {data : List UInt8}

@[simp] theorem footprint_cons (e : Element) (es : List Element) :
    footprint (e :: es) = e.node :: e.data :: footprint es := rfl

theorem footprint_append (es es' : List Element) :
    footprint (es ++ es') = footprint es ++ footprint es' := List.flatMap_append

theorem footprint_concat (es : List Element) (e : Element) :
    footprint (es ++ [e]) = footprint es ++ [e.node, e.data] := footprint_append es [e]

theorem mem_footprint_concat {a : Addr} :
    a ∈ footprint (es ++ [e]) ↔ a ∈ footprint es ∨ a = e.node ∨ a = e.data := by
  rw [footprint_concat, List.mem_append, List.mem_cons, List.mem_singleton]

theorem node_mem_footprint (he : e ∈ es) : e.node ∈ footprint es :=
  List.mem_flatMap.mpr ⟨e, he, by simp⟩

theorem data_mem_footprint (he : e ∈ es) : e.data ∈ footprint es :=
  List.mem_flatMap.mpr ⟨e, he, by simp⟩

@[simp] theorem contents_cons (e : Element) (es : List Element) :
    contents (e :: es) = e.bytes :: contents es := rfl

theorem contents_concat (es : List Element) (e : Element) :
    contents (es ++ [e]) = contents es ++ [e.bytes] := List.map_append

theorem InMemory.congr {next : Option Addr} (hin : InMemory h e next)
    (hnode : h'.read e.node = h.read e.node) (hdata : h'.read e.data = h.read e.data) :
    InMemory h' e next := ⟨hnode.trans hin.node, hdata.trans hin.data⟩

/-- Segments read nothing but their own blocks. -/
theorem segment_congr {p q : Option Addr} (hseg : Segment Element.node (InMemory h) p es q)
    (hsame : ∀ a ∈ footprint es, h'.read a = h.read a) :
    Segment Element.node (InMemory h') p es q :=
  hseg.imp fun _ he _ hin =>
    hin.congr (hsame _ (node_mem_footprint he)) (hsame _ (data_mem_footprint he))

theorem IsQueue.congr (hq : IsQueue h header es) (hsame : ∀ a ∈ footprint es, h'.read a = h.read a) :
    IsQueue h' header es :=
  { hq with linked := segment_congr hq.linked hsame }

theorem segment_allocated {p q : Option Addr} (hseg : Segment Element.node (InMemory h) p es q) :
    Allocated h (footprint es) := by
  induction es generalizing p with
  | nil => intro a ha; cases ha
  | cons e es ih =>
    obtain ⟨-, next, hin, hseg⟩ := hseg
    intro a ha
    rw [footprint_cons] at ha
    rcases List.mem_cons.mp ha with rfl | ha
    · exact ⟨_, hin.node⟩
    · rcases List.mem_cons.mp ha with rfl | ha
      · exact ⟨_, hin.data⟩
      · exact ih hseg a ha

theorem IsQueue.allocated (hq : IsQueue h header es) : Allocated h (footprint es) :=
  segment_allocated hq.linked

theorem isQueue_empty (h : Heap Block) : IsQueue h emptyHeader [] :=
  ⟨rfl, fun _ he => by (cases he), rfl, rfl, List.nodup_nil⟩

theorem readNode_eq {p : Addr} {element : QueueData} (hread : h.read p = .ok (.node element)) :
    readNode h (some p) = .ok (p, element) := by
  rw [readNode, hread]
  rfl

theorem readBytes_eq {p : Addr} (hread : h.read p = .ok (.bytes data)) :
    readBytes h p data.length = .ok data := by
  rw [readBytes, hread, bind_ok]
  dsimp only
  rw [if_pos (Nat.le_refl _), List.take_length]
  rfl

theorem buffersFrom_segment {p : Option Addr}
    (hseg : Segment Element.node (InMemory h) p es none) :
    buffersFrom h es.length p = .ok (contents es) := by
  induction es generalizing p with
  | nil => rfl
  | cons e es ih =>
    obtain ⟨rfl, next, hin, hseg⟩ := hseg
    rw [List.length_cons, buffersFrom, readNode_eq hin.node, bind_ok]
    dsimp only
    rw [readBytes_eq hin.data, bind_ok, ih hseg]
    rfl

/-- The header and the heap give the contents. -/
theorem IsQueue.buffers (hq : IsQueue h header es) : buffers h header = .ok (contents es) := by
  rw [UnicastQueue.buffers, hq.packets]
  exact buffersFrom_segment hq.linked

theorem IsQueue.getData (hq : IsQueue h header (e :: es)) :
    unicastQueueGetData h header = .ok (e.data, e.bytes.length) := by
  obtain ⟨hfirst, next, hin, -⟩ := hq.linked
  rw [unicastQueueGetData, hq.packets, if_neg (by simp), hfirst, readNode_eq hin.node]
  rfl

theorem IsQueue.head (hq : IsQueue h header (e :: es)) : h.read e.data = .ok (.bytes e.bytes) := by
  obtain ⟨-, next, hin, -⟩ := hq.linked
  exact hin.data

/-- The first element is removed and its blocks are released. -/
theorem IsQueue.removeData (hq : IsQueue h header (e :: es)) :
    ∃ h' header', unicastQueueRemoveData h header = .ok (h', header') ∧ IsQueue h' header' es ∧
      Transfers h (footprint (e :: es)) h' (footprint es) ∧
      h'.read e.data = .error .released := by
  obtain ⟨hfirst, next, hin, hseg⟩ := hq.linked
  obtain ⟨hne, hapart⟩ := List.nodup_cons.mp hq.apart
  obtain ⟨hne', hapart⟩ := List.nodup_cons.mp hapart
  have hnode : e.node ≠ e.data := fun heq => hne (heq ▸ List.mem_cons_self)
  obtain ⟨h₁, hfree₁, hreleased, hsame₁⟩ := Heap.free_ok hin.data
  obtain ⟨h₂, hfree₂, -, hsame₂⟩ := Heap.free_ok ((hsame₁ _ hnode).trans hin.node)
  have hsame : ∀ a, a ∉ [e.node, e.data] → h₂.read a = h.read a := by
    intro a ha
    simp only [List.mem_cons, List.not_mem_nil, or_false, not_or] at ha
    rw [hsame₂ a ha.1, hsame₁ a ha.2]
  refine ⟨h₂, { header with
    first := next
    packetsInQueue := (e :: es).length - 1
    full := false
    dataBytesInQueue := header.dataBytesInQueue - e.bytes.length }, ?_, ?_, ?_, ?_⟩
  · rw [unicastQueueRemoveData, hq.packets, if_neg (by simp), hfirst, readNode_eq hin.node, bind_ok]
    dsimp only
    rw [hfree₁, bind_ok, hfree₂, bind_ok, pure_ok]
  · refine ⟨segment_congr hseg fun a ha => hsame a ?_, fun e' he' => ?_, ?_, ?_, hapart⟩
    · intro hmem
      simp only [List.mem_cons, List.not_mem_nil, or_false] at hmem
      rcases hmem with rfl | rfl
      · exact hne (List.mem_cons_of_mem _ ha)
      · exact hne' ha
    · refine hq.last e' ?_
      rw [List.getLast?_cons, he']
      rfl
    · rfl
    · simp only [hq.size, contents_cons, List.flatten_cons, List.length_append]
      omega
  · refine Transfers.inside (fun a ha => hsame a ?_) fun a ha => ?_
    · intro hmem
      exact ha (by
        rw [footprint_cons]
        simp only [List.mem_cons, List.not_mem_nil, or_false] at hmem ⊢
        rcases hmem with rfl | rfl
        · exact .inl rfl
        · exact .inr (.inl rfl))
    · exact List.mem_cons_of_mem _ (List.mem_cons_of_mem _ ha)
  · rw [hsame₂ _ (Ne.symm hnode), hreleased]

/-- All elements are removed. -/
theorem IsQueue.clear {header : QueueHeader} (hq : IsQueue h header es) :
    ∃ h' header', unicastQueueClear (header.packetsInQueue + 1) h header = .ok (h', header') ∧
      IsQueue h' header' [] ∧ Transfers h (footprint es) h' [] := by
  induction es generalizing h header with
  | nil =>
    have hzero : header.packetsInQueue = 0 := hq.packets
    exact ⟨h, header, by rw [unicastQueueClear, hzero, if_neg (Nat.lt_irrefl 0)], hq,
      Transfers.refl h _⟩
  | cons e es ih =>
    obtain ⟨h₁, header₁, hremove, hq₁, htransfer, -⟩ := hq.removeData
    obtain ⟨h', header', hclear, hempty, hlater⟩ := ih hq₁
    have hpackets : header.packetsInQueue = header₁.packetsInQueue + 1 := by
      rw [hq.packets, hq₁.packets, List.length_cons]
    refine ⟨h', header', ?_, hempty, htransfer.trans hlater⟩
    rw [unicastQueueClear, if_pos (by omega), hremove, hpackets]
    exact hclear

/-- The pointer of the last element set to a new one. -/
theorem segment_relink {p next' : Option Addr} {l : Element}
    (hseg : Segment Element.node (InMemory h) p (es ++ [l]) none)
    (hapart : (footprint (es ++ [l])).Nodup)
    (hnode : h'.read l.node = .ok (.node ⟨l.data, l.bytes.length, next'⟩))
    (hsame : ∀ a ∈ footprint (es ++ [l]), a ≠ l.node → h'.read a = h.read a) :
    Segment Element.node (InMemory h') p (es ++ [l]) next' := by
  rw [footprint_append, footprint_cons] at hapart hsame
  obtain ⟨-, hlast, hdisjoint⟩ := List.nodup_append.mp hapart
  have hne : l.data ≠ l.node := fun heq =>
    (List.nodup_cons.mp hlast).1 (heq ▸ List.mem_cons_self)
  obtain ⟨q, hfront, hq, next, hin, -⟩ := segment_append.mp hseg
  refine segment_append.mpr ⟨q, segment_congr hfront fun a ha => ?_, hq, next', ⟨hnode, ?_⟩, rfl⟩
  · exact hsame a (List.mem_append_left _ ha) fun heq =>
      hdisjoint a ha l.node List.mem_cons_self heq
  · rw [hsame l.data (List.mem_append_right _ (by simp)) hne, hin.data]

/-- The block and the node of a new element are apart from all others. -/
theorem IsQueue.newElement (hq : IsQueue h header es) (data : List UInt8) :
    ∃ h₂ e, e.bytes = data ∧ (h.alloc (.bytes data)).2.alloc
        (.node ⟨(h.alloc (.bytes data)).1, data.length, none⟩) = (e.node, h₂) ∧
      InMemory h₂ e none ∧ (∀ a ∈ footprint es, h₂.read a = h.read a) ∧
      Transfers h (footprint es) h₂ (e.node :: e.data :: footprint es) ∧
      e.node ∉ footprint es ∧ e.data ∉ footprint es ∧ e.node ≠ e.data := by
  obtain ⟨block, h₁, halloc⟩ : ∃ block h₁, h.alloc (.bytes data) = (block, h₁) := ⟨_, _, rfl⟩
  obtain ⟨dest, h₂, halloc'⟩ : ∃ dest h₂,
      h₁.alloc (.node ⟨block, data.length, none⟩) = (dest, h₂) := ⟨_, _, rfl⟩
  have hblock : h₁.read block = .ok (.bytes data) := by
    have hread := h.read_alloc (.bytes data)
    rwa [halloc] at hread
  have hdest : h₂.read dest = .ok (.node ⟨block, data.length, none⟩) := by
    have hread := h₁.read_alloc (.node ⟨block, data.length, none⟩)
    rwa [halloc'] at hread
  have hkept : ∀ {a b}, h.read a = .ok b → h₁.read a = .ok b := fun hread => by
    have hkeeps := Heap.read_alloc_of_ok hread (.bytes data)
    rwa [halloc] at hkeeps
  have hkept' : ∀ {a b}, h₁.read a = .ok b → h₂.read a = .ok b := fun hread => by
    have hkeeps := Heap.read_alloc_of_ok hread (.node ⟨block, data.length, none⟩)
    rwa [halloc'] at hkeeps
  have hfresh : ∀ b, h.read block ≠ .ok b := fun b hread => by
    have hfresh := h.alloc_fresh (.bytes data) b
    rw [halloc] at hfresh
    exact hfresh hread
  have hfresh' : ∀ b, h₁.read dest ≠ .ok b := fun b hread => by
    have hfresh := h₁.alloc_fresh (.node ⟨block, data.length, none⟩) b
    rw [halloc'] at hfresh
    exact hfresh hread
  have htransfer : Transfers h (footprint es) h₂ (dest :: block :: footprint es) := by
    have hfirst := Transfers.alloc h (.bytes data) (footprint es)
    have hsecond := Transfers.alloc h₁ (.node ⟨block, data.length, none⟩) (block :: footprint es)
    rw [halloc] at hfirst
    rw [halloc'] at hsecond
    exact hfirst.trans hsecond
  refine ⟨h₂, ⟨dest, block, data⟩, rfl, by rw [halloc, halloc'], ⟨hdest, hkept' hblock⟩,
    fun a ha => ?_, htransfer, fun ha => ?_, fun ha => ?_, fun heq => ?_⟩
  · obtain ⟨b, hread⟩ := hq.allocated a ha
    rw [hread, hkept' (hkept hread)]
  · obtain ⟨b, hread⟩ := hq.allocated _ ha
    exact hfresh' b (hkept hread)
  · obtain ⟨b, hread⟩ := hq.allocated _ ha
    exact hfresh b hread
  · change dest = block at heq
    exact hfresh' (.bytes data) (heq ▸ hblock)

theorem footprint_concat_nodup {e : Element} (hapart : (footprint es).Nodup)
    (hnode : e.node ∉ footprint es) (hdata : e.data ∉ footprint es) (hne : e.node ≠ e.data) :
    (footprint (es ++ [e])).Nodup := by
  rw [footprint_concat, List.nodup_append]
  refine ⟨hapart, List.nodup_cons.mpr ⟨fun hd => hne (List.mem_singleton.mp hd), by simp⟩, ?_⟩
  rintro a ha b hb rfl
  rcases List.mem_cons.mp hb with rfl | hb
  · exact hnode ha
  · cases List.mem_singleton.mp hb
    exact hdata ha

/-- A new element at the end. -/
theorem IsQueue.addData (hq : IsQueue h header es) (data : List UInt8) :
    ∃ h' header' e, unicastQueueAddData h header data = .ok (h', header') ∧ e.bytes = data ∧
      IsQueue h' header' (es ++ [e]) ∧
      Transfers h (footprint es) h' (footprint (es ++ [e])) := by
  obtain ⟨h₂, e, rfl, halloc, hnew, hold, htransfer, hnode, hdata, hne⟩ := hq.newElement data
  have hapart := footprint_concat_nodup hq.apart hnode hdata hne
  have hsize : header.dataBytesInQueue + e.bytes.length =
      (contents (es ++ [e])).flatten.length := by
    rw [hq.size, contents_concat, List.flatten_append, List.length_append]
    simp
  have hpackets : header.packetsInQueue + 1 = (es ++ [e]).length := by
    rw [hq.packets, List.length_append]
    rfl
  have hmem : ∀ a, a ∈ footprint (es ++ [e]) → a ∈ e.node :: e.data :: footprint es := by
    intro a ha
    rcases mem_footprint_concat.mp ha with ha | rfl | rfl
    · exact List.mem_cons_of_mem _ (List.mem_cons_of_mem _ ha)
    · exact List.mem_cons_self
    · exact List.mem_cons_of_mem _ List.mem_cons_self
  rcases List.eq_nil_or_concat' es with rfl | ⟨front, l, rfl⟩
  · refine ⟨h₂, { header with
      first := some e.node
      last := some e.node
      packetsInQueue := header.packetsInQueue + 1
      dataBytesInQueue := header.dataBytesInQueue + e.bytes.length }, e, ?_, rfl,
      ⟨⟨rfl, none, hnew, rfl⟩, fun e' he' => ?_, hpackets, hsize, hapart⟩,
      ⟨htransfer.keeps, fun a ha => htransfer.new a (hmem a ha)⟩⟩
    · rw [unicastQueueAddData]
      dsimp only
      rw [halloc, if_pos (by rw [hq.packets]; rfl), bind_ok]
      rfl
    · cases he'
      rfl
  · have hlast : header.last = some l.node := hq.last l (List.getLast?_concat)
    have hnonzero : header.packetsInQueue ≠ 0 := by
      rw [hq.packets, List.length_append]
      exact Nat.succ_ne_zero _
    have hl : l.node ∈ footprint (front ++ [l]) := mem_footprint_concat.mpr (.inr (.inl rfl))
    obtain ⟨q, -, hq', next, hin, -⟩ := segment_append.mp hq.linked
    have hread : h₂.read l.node = .ok (.node ⟨l.data, l.bytes.length, next⟩) := by
      rw [hold _ hl, hin.node]
    obtain ⟨h₃, hwrite, hlink, hsame⟩ :=
      Heap.write_ok hread (.node ⟨l.data, l.bytes.length, some e.node⟩)
    have hnodeRead : h₃.read e.node = h₂.read e.node := hsame _ fun heq => hnode (heq ▸ hl)
    have hdataRead : h₃.read e.data = h₂.read e.data := hsame _ fun heq => hdata (heq ▸ hl)
    have hseg := segment_relink hq.linked hq.apart hlink fun a ha hne => by
      rw [hsame a hne, hold a ha]
    refine ⟨h₃, { header with
      last := some e.node
      packetsInQueue := header.packetsInQueue + 1
      dataBytesInQueue := header.dataBytesInQueue + e.bytes.length }, e, ?_, rfl,
      ⟨segment_append.mpr ⟨some e.node, hseg, rfl, none, hnew.congr hnodeRead hdataRead, rfl⟩,
        fun e' he' => ?_, hpackets, hsize, hapart⟩, ?_⟩
    · rw [unicastQueueAddData]
      dsimp only
      rw [halloc, if_neg hnonzero, hlast, readNode_eq hread, bind_ok]
      dsimp only
      rw [hwrite, bind_ok]
      rfl
    · rw [List.getLast?_concat] at he'
      cases he'
      rfl
    · refine htransfer.trans (Transfers.inside (fun a ha => hsame a fun heq => ha ?_) hmem)
      exact List.mem_cons_of_mem _ (List.mem_cons_of_mem _ (heq ▸ hl))

end MuMuDVB.UnicastQueue
