import MuMuDVB.CamdMessages
import MuMuDVB.JsonText

/-!
# Static keys beside the camd

The configuration gives the services with constant keys: a table is filled entry
by entry, each read by `sscanf`, which has written what comes before the point
where an entry turns out not to be valid. `scam_send_capmt` and the getcw thread
both search the table for the service of a channel.
-/
namespace MuMuDVB.StaticKeys

open CheckedMemory CString MuMuDVB.CamdSockets MuMuDVB.CamdMessages
open JsonText (isHex hexValue)

/-! ## scam_const_key -/

def skipSign : List UInt8 → List UInt8
  | [] => []
  | c :: s => if c = 45 ∨ c = 43 then s else c :: s

/-- `0x` in front of a hexadecimal number -/
def skipHexPrefix : List UInt8 → List UInt8
  | 48 :: c :: s => if c = 120 ∨ c = 88 then s else 48 :: c :: s
  | s => s

/-- `%d`: the number, and what is left of the text. -/
def scanInt (s : List UInt8) : Option (Int × List UInt8) :=
  let number := skipSign (s.dropWhile isSpace)
  if number.takeWhile isDigit = [] then none else some (atoi s, number.dropWhile isDigit)

/-- `%hhx` -/
def scanHex (s : List UInt8) : Option (UInt8 × List UInt8) :=
  let s := s.dropWhile isSpace
  let number := skipHexPrefix (skipSign s)
  let value := (number.takeWhile isHex).foldl (fun n c => 16 * n + hexValue c) 0
  let byte := UInt8.ofNat (min value (2 ^ 64 - 1))
  if number.takeWhile isHex = [] then none
  else some (if s.head? = some 45 then -byte else byte, number.dropWhile isHex)

/-- What stands in front of the bytes of the two keys. -/
def separators : List UInt8 := 44 :: List.replicate 7 58 ++ 44 :: List.replicate 7 58

/-- The bytes that are read before the text does not match any more. -/
def scanBytes : List UInt8 → List UInt8 → List UInt8
  | sep :: seps, c :: s =>
    if c = sep then
      match scanHex s with
      | some (byte, s) => byte :: scanBytes seps s
      | none => []
    else []
  | _, _ => []

/-- What `sscanf` assigns: the service and the first bytes of the keys. -/
def sscanf (token : List UInt8) : Option (Int × List UInt8) :=
  (scanInt token).map fun (sid, s) => (sid, scanBytes separators s)

/-- The entry of the table after that. -/
def assign (slot : StaticKey) (sid : Int) (bytes : List UInt8) : StaticKey where
  sid := sid
  odd := splice slot.odd 0 (bytes.take 8)
  even := splice slot.even 0 (bytes.drop 8)

/-- An entry of `scam_const_key`, while there is room. -/
def readConstKey (params : ScamParameters) (token : List UInt8) : Checked ScamParameters :=
  match sscanf token with
  | none => return params
  | some (sid, bytes) => do
    let slot ← params.constKeys.read params.constKeyCount
    let constKeys ← params.constKeys.write params.constKeyCount [assign slot sid bytes]
    return {
      constKeys
      constKeyCount := if bytes.length = 16 then params.constKeyCount + 1
        else params.constKeyCount }

/-- A line `scam_const_key`: its entries, up to the first one that there is no room for. -/
def readConstKeys (params : ScamParameters) : List (List UInt8) → Checked ScamParameters
  | [] => return params
  | token :: tokens =>
    if params.constKeyCount = maxStaticKeys then return params
    else do
      let params ← readConstKey params token
      readConstKeys params tokens

/-- The table at the start. -/
def noKeys : ScamParameters :=
  ⟨Buffer.fill maxStaticKeys ⟨0, List.replicate 8 0, List.replicate 8 0⟩, 0⟩

/-- The lines `scam_const_key` of the configuration. -/
def readScamConfiguration (lines : List (List (List UInt8))) : Checked ScamParameters :=
  lines.foldlM readConstKeys noKeys

/-- A valid entry. -/
def constKey (token : List UInt8) : Option StaticKey :=
  (sscanf token).bind fun (sid, bytes) =>
    if bytes.length = 16 then some ⟨sid, bytes.take 8, bytes.drop 8⟩ else none

/-- The table has the first valid ones of the entries. -/
structure Table (entries : List (List UInt8)) (params : ScamParameters) : Prop where
  count : params.constKeyCount = min maxStaticKeys (entries.filterMap constKey).length
  keys : params.constKeys.cells.take params.constKeyCount =
    (entries.filterMap constKey).take maxStaticKeys
  eight : ∀ key ∈ params.constKeys.cells, key.odd.length = 8 ∧ key.even.length = 8

section table

variable {params : ScamParameters} {entries more : List (List UInt8)} {token : List UInt8}

theorem table_noKeys : Table [] noKeys := by
  refine ⟨rfl, rfl, fun key hkey => ?_⟩
  rw [List.eq_of_mem_replicate hkey]
  exact ⟨List.length_replicate, List.length_replicate⟩

theorem length_scanBytes (seps s : List UInt8) : (scanBytes seps s).length ≤ seps.length := by
  induction seps generalizing s with
  | nil => simp [scanBytes]
  | cons sep seps ih =>
    cases s with
    | nil => simp [scanBytes]
    | cons c s =>
      rw [scanBytes]
      split
      · cases scanHex s with
        | none => exact Nat.zero_le _
        | some r => exact Nat.succ_le_succ (ih r.2)
      · exact Nat.zero_le _

theorem sscanf_length {sid : Int} {bytes : List UInt8} (h : sscanf token = some (sid, bytes)) :
    bytes.length ≤ 16 := by
  obtain ⟨⟨sid', s⟩, -, heq⟩ := Option.map_eq_some_iff.mp h
  cases heq
  exact length_scanBytes separators s

/-- Beyond the room of the table nothing changes. -/
theorem Table.full (h : Table entries params) (hfull : params.constKeyCount = maxStaticKeys)
    (more : List (List UInt8)) : Table (entries ++ more) params := by
  have hlength : maxStaticKeys ≤ (entries.filterMap constKey).length := by
    have := h.count
    omega
  refine ⟨?_, ?_, h.eight⟩
  · rw [List.filterMap_append, List.length_append, hfull]
    omega
  · rw [h.keys, List.filterMap_append, List.take_append_of_le_length hlength]

theorem constKey_some {sid : Int} {bytes : List UInt8} (h : sscanf token = some (sid, bytes)) :
    constKey token =
      if bytes.length = 16 then some ⟨sid, bytes.take 8, bytes.drop 8⟩ else none := by
  rw [constKey, h]
  rfl

theorem splice_whole {old new : List UInt8} (h : new.length = old.length) :
    splice old 0 new = new := by
  rw [splice, List.take_zero, List.nil_append, Nat.zero_add, h, List.drop_length, List.append_nil]

/-- An entry is read into the table inside of it, and counts if it is valid. -/
theorem Table.readConstKey (h : Table entries params)
    (hroom : params.constKeyCount ≠ maxStaticKeys) :
    ∃ params', StaticKeys.readConstKey params token = .ok params' ∧
      Table (entries ++ [token]) params' := by
  have hcount := h.count
  have hlt : params.constKeyCount < maxStaticKeys := by omega
  rw [StaticKeys.readConstKey]
  cases hscan : sscanf token with
  | none =>
    have hnone : (entries ++ [token]).filterMap constKey = entries.filterMap constKey := by
      rw [List.filterMap_append, List.filterMap_cons, constKey, hscan]
      exact List.append_nil _
    exact ⟨params, rfl, ⟨by rw [hnone]; exact h.count, by rw [hnone]; exact h.keys, h.eight⟩⟩
  | some assigned =>
    obtain ⟨sid, bytes⟩ := assigned
    obtain ⟨slot, hread, hslot⟩ := params.constKeys.read_lt hlt
    obtain ⟨hodd, heven⟩ := h.eight slot (List.mem_of_getElem? hslot)
    obtain ⟨constKeys, hwrite, hcells⟩ :=
      params.constKeys.write_ok params.constKeyCount [assign slot sid bytes] hlt
    have hbytes := sscanf_length hscan
    have height : ∀ key ∈ constKeys.cells, key.odd.length = 8 ∧ key.even.length = 8 := by
      intro key hkey
      rw [hcells, splice_singleton (by rwa [Buffer.length_cells])] at hkey
      rcases List.mem_or_eq_of_mem_set hkey with hold | rfl
      · exact h.eight key hold
      · constructor
        · exact (length_splice (by rw [hodd, List.length_take]; omega)).trans hodd
        · exact (length_splice (by rw [heven, List.length_drop]; omega)).trans heven
    have hshort : (entries.filterMap constKey).length = params.constKeyCount := by omega
    have hbefore : constKeys.cells.take params.constKeyCount = entries.filterMap constKey := by
      rw [hcells, take_splice_of_le (Nat.le_refl _) (by rw [Buffer.length_cells]; omega), h.keys,
        List.take_of_length_le (by omega)]
    have hentries : (entries ++ [token]).filterMap constKey = entries.filterMap constKey ++
        (constKey token).toList := by
      rw [List.filterMap_append, List.filterMap_cons]
      cases constKey token <;> rfl
    dsimp only
    rw [hread, bind_ok, hwrite, bind_ok]
    refine ⟨_, rfl, ?_⟩
    by_cases hvalid : bytes.length = 16
    · have hassign : assign slot sid bytes = ⟨sid, bytes.take 8, bytes.drop 8⟩ := by
        rw [assign, splice_whole (by rw [List.length_take]; omega),
          splice_whole (by rw [List.length_drop]; omega)]
      have hafter : constKeys.cells.take (params.constKeyCount + 1) =
          entries.filterMap constKey ++ [assign slot sid bytes] := by
        rw [← hbefore, hcells, take_splice_of_le (Nat.le_refl _)
          (by rw [params.constKeys.length_cells]; exact Nat.le_of_lt hlt)]
        exact take_splice (by rw [params.constKeys.length_cells]; exact Nat.le_of_lt hlt) rfl
      rw [constKey_some hscan, if_pos hvalid, Option.toList_some, ← hassign] at hentries
      rw [if_pos hvalid]
      have hlength :
          ((entries ++ [token]).filterMap constKey).length = params.constKeyCount + 1 := by
        rw [hentries, List.length_append, hshort]
        rfl
      refine ⟨?_, ?_, height⟩
      · rw [hlength]
        exact (Nat.min_eq_right hlt).symm
      · rw [List.take_of_length_le (hlength.trans_le hlt), hentries]
        exact hafter
    · rw [constKey_some hscan, if_neg hvalid, Option.toList_none, List.append_nil] at hentries
      rw [if_neg hvalid]
      refine ⟨by rw [hentries]; exact h.count, ?_, height⟩
      rw [hentries, List.take_of_length_le (hshort.trans_le (Nat.le_of_lt hlt))]
      exact hbefore

theorem Table.readConstKeys (h : Table entries params) (tokens : List (List UInt8)) :
    ∃ params', StaticKeys.readConstKeys params tokens = .ok params' ∧
      Table (entries ++ tokens) params' := by
  induction tokens generalizing entries params with
  | nil => exact ⟨params, rfl, by rwa [List.append_nil]⟩
  | cons token tokens ih =>
    rw [StaticKeys.readConstKeys]
    split
    case isTrue hfull => exact ⟨params, rfl, h.full hfull _⟩
    case isFalse hroom =>
      obtain ⟨params₁, hread, h₁⟩ := h.readConstKey hroom
      obtain ⟨params', hrest, h'⟩ := ih h₁
      rw [hread, bind_ok, hrest]
      exact ⟨params', rfl, by rwa [List.append_cons]⟩

/-- Reading the configuration writes inside the table, and leaves the first valid entries in it. -/
theorem readScamConfiguration_table (lines : List (List (List UInt8))) :
    ∃ params, readScamConfiguration lines = .ok params ∧ Table lines.flatten params := by
  have hlines : ∀ entries params, Table entries params →
      ∃ params', lines.foldlM StaticKeys.readConstKeys params = .ok params' ∧
        Table (entries ++ lines.flatten) params' := by
    induction lines with
    | nil => exact fun entries params h => ⟨params, rfl, by rwa [List.flatten_nil, List.append_nil]⟩
    | cons line lines ih =>
      intro entries params h
      obtain ⟨params₁, hline, h₁⟩ := h.readConstKeys line
      obtain ⟨params', hrest, h'⟩ := ih _ _ h₁
      refine ⟨params', ?_, ?_⟩
      · rw [List.foldlM_cons, hline, bind_ok, hrest]
      · rwa [List.flatten_cons, ← List.append_assoc]
  exact hlines [] noKeys table_noKeys

end table

/-! ## The two threads -/

/-- The static key at the first index below the count that has the service. -/
def firstKey (params : ScamParameters) (serviceId : Int) : Option StaticKey :=
  (params.constKeys.cells.take params.constKeyCount).find? fun key => serviceId = key.sid

/-- The static key becomes the key of the channel. -/
def useKey (key : StaticKey) (caPidIndex : Int) (chan : CamdChannel) : CamdChannel :=
  { chan with
    oddCw := key.odd
    gotKeyOdd := true
    evenCw := key.even
    gotKeyEven := true
    caIdx := caPidIndex + 1
    caIdxRefcnt := if chan.caIdxRefcnt = 0 then 1 else chan.caIdxRefcnt }

/-- The camd is asked, over a socket that may have to be opened first. -/
def askCamd (answers : Answers) (chan : CamdChannel) (fds : Descriptors) :
    CamdChannel × Descriptors :=
  let (ready, chan, fds) :=
    if chan.camdSocket < 0 then openSocket answers chan fds else (true, chan, fds)
  if ready = false then (chan, fds)
  else if answers.wrote = false then ({ chan with camdSocket := -1 }, fds.close chan.camdSocket)
  else (chan, fds)

/-- A static key is used if there is one, and else the camd is asked. -/
def keyOrCamd (answers : Answers) (caPidIndex : Int) (chan : CamdChannel) (fds : Descriptors) :
    Option StaticKey → CamdChannel × Descriptors
  | some key => (useKey key caPidIndex chan, fds)
  | none => askCamd answers chan fds

/-- What `getcwthread_func` does when socket `fd` is ready: the channel to which the event is given
reads `header` bytes of what is there, and `body` ones of the rest. -/
def getcwEvent (params : ScamParameters) (camd : List CamdChannel) (fd : Int)
    (buff : Buffer UInt8 dvbapiCaSetDescrLen) (pending : List UInt8) (header body : Nat) :
    Checked (List CamdChannel) :=
  match handler params camd fd with
  | none => return camd
  | some i =>
    match camd[i]? with
    | none => return camd
    | some chan => do
      let s ← Socket.ready ⟨buff, pending, chan, []⟩ header body
      return camd.set i s.chan

/-- The control word is stored for its parity. -/
def Stores (body : List UInt8) (chan : CamdChannel) : Prop :=
  let cw := (body.drop 8).take 8
  if littleEndian ((body.drop 4).take 4) ≠ 0 then chan.oddCw = cw ∧ chan.gotKeyOdd = true
  else chan.evenCw = cw ∧ chan.gotKeyEven = true

/-- Static keys and the key server work for a channel with the service: `scam_send_capmt` uses the
first static key of the service, or else asks the camd; and if there is no static key, each control
word that comes on the socket of the channel is stored. -/
structure Coexist (params : ScamParameters) (serviceId : Int) : Prop where
  capmt : ∀ answers caPidIndex chan fds,
    scamSendCapmt params answers caPidIndex serviceId chan fds =
      .ok (keyOrCamd answers caPidIndex chan fds (firstKey params serviceId))
  stores : firstKey params serviceId = none →
    ∀ (camd : List CamdChannel) (i : Nat) (chan : CamdChannel) (buff : Buffer UInt8 21)
      (m : CamdMessage) (more : List UInt8), camd[i]? = some chan →
      (∀ j other, camd[j]? = some other → other.camdSocket = chan.camdSocket → j = i) →
      request m.bytes = caSetDescr → littleEndian ((m.bytes.drop 5).take 4) ≠ 2 ^ 32 - 1 →
      ∃ camd' chan', getcwEvent params camd chan.camdSocket buff (m.bytes ++ more) 5 16 =
        .ok camd' ∧ camd'[i]? = some chan' ∧ Stores (m.bytes.drop 5) chan'

section coexist

variable {params : ScamParameters} {serviceId : Int} {key : StaticKey}

theorem scamSendCapmt_eq {key? : Option StaticKey} (h : staticKey params serviceId = .ok key?)
    (answers : Answers) (caPidIndex : Int) (chan : CamdChannel) (fds : Descriptors) :
    scamSendCapmt params answers caPidIndex serviceId chan fds =
      .ok (keyOrCamd answers caPidIndex chan fds key?) := by
  rw [scamSendCapmt, h, bind_ok]
  cases key? with
  | some key => rfl
  | none =>
    dsimp only [keyOrCamd, askCamd]
    split_ifs <;> rfl

/-- The key that the search comes to is the first one. -/
theorem staticKey_first (hkey : firstKey params serviceId = some key) :
    staticKey params serviceId = .ok (some key) := by
  have hsid : serviceId = key.sid := by
    have hfound := List.find?_some (p := fun key : StaticKey => serviceId = key.sid) hkey
    exact of_decide_eq_true hfound
  have hpos : 0 < params.constKeyCount := by
    refine Nat.pos_of_ne_zero fun hzero => ?_
    rw [firstKey, hzero, List.take_zero] at hkey
    cases hkey
  rw [firstKey, List.find?_eq_getElem?_findIdx] at hkey
  have hread : params.constKeys.cells[(params.constKeys.cells.take params.constKeyCount).findIdx
      fun key => serviceId = key.sid]? = some key := by
    rw [List.getElem?_take] at hkey
    split at hkey
    · exact hkey
    · cases hkey
  rw [staticKey, if_pos hpos, params.constKeys.read_ok hread, bind_ok, if_pos ⟨hsid, hpos⟩]
  rfl

theorem staticKey_noKeys (hzero : params.constKeyCount = 0) :
    staticKey params serviceId = .ok none := by
  have hnot : ¬ 0 < params.constKeyCount := by omega
  obtain ⟨key, hread, -⟩ := params.constKeys.read_lt (show 0 < maxStaticKeys by decide)
  rw [staticKey, if_neg hnot, hread, bind_ok, if_neg fun h => hnot h.2]
  rfl

/-- Without static keys the event is given to the channel of the socket. -/
theorem handler_noKeys (hzero : params.constKeyCount = 0) {camd : List CamdChannel} {i : Nat}
    {chan : CamdChannel} (hchan : camd[i]? = some chan)
    (honly : ∀ j other, camd[j]? = some other → other.camdSocket = chan.camdSocket → j = i) :
    handler params camd chan.camdSocket = some i := by
  obtain ⟨hlt, rfl⟩ := List.getElem?_eq_some_iff.mp hchan
  rw [handler, if_neg (by omega), List.findIdx?_eq_some_iff_getElem]
  refine ⟨hlt, decide_eq_true rfl, fun j hj heq => ?_⟩
  have hsame := honly j _ (List.getElem?_eq_getElem (hj.trans hlt)) (of_decide_eq_true heq)
  omega

theorem setDescr_stores {body : List UInt8} (hindex : littleEndian (body.take 4) ≠ 2 ^ 32 - 1)
    (chan : CamdChannel) : Stores body (setDescr body chan) := by
  rw [Stores, setDescr, if_pos hindex]
  split
  · exact ⟨rfl, rfl⟩
  · exact ⟨rfl, rfl⟩

theorem coexist_noKeys (hzero : params.constKeyCount = 0) : Coexist params serviceId := by
  have hnone : firstKey params serviceId = none := by
    rw [firstKey, hzero, List.take_zero]
    rfl
  refine ⟨fun answers caPidIndex chan fds => ?_, ?_⟩
  · rw [hnone]
    exact scamSendCapmt_eq (staticKey_noKeys hzero) answers caPidIndex chan fds
  · intro _ camd i chan buff m more hchan honly hrequest hindex
    obtain ⟨size, s, hsize, hready, heffect⟩ :=
      @ready_message ⟨buff, m.bytes ++ more, chan, []⟩ more m rfl
    have hsixteen : size = 16 := by
      rw [bodyLen, if_pos hrequest] at hsize
      exact (Option.some.inj hsize).symm
    subst hsixteen
    have hlt := (List.getElem?_eq_some_iff.mp hchan).1
    refine ⟨camd.set i s.chan, s.chan, ?_, List.getElem?_set_self hlt, ?_⟩
    · rw [getcwEvent, handler_noKeys hzero hchan honly]
      dsimp only
      rw [hchan]
      dsimp only
      rw [hready]
      rfl
    · have hbody : (m.bytes.drop 5).take 16 = m.bytes.drop 5 := by
        obtain ⟨size, hsize', hlength, -⟩ := m.length_eq
        cases hsize.symm.trans hsize'
        rw [List.take_of_length_le (by rw [List.length_drop]; omega)]
      rw [heffect, interpret, if_pos hrequest]
      change Stores _ (setDescr ((m.bytes.drop 5).take 16) chan)
      rw [hbody]
      exact setDescr_stores hindex chan

/-- A control word for the even parity. -/
def someKey : CamdMessage :=
  ⟨[0, 0x86, 0x6f, 0x10, 0x40] ++ List.replicate 16 0, by decide⟩

/-- With static keys the getcw thread gives the events to nobody. -/
theorem not_coexist (hpos : 0 < params.constKeyCount) (hnone : firstKey params serviceId = none) :
    ¬ Coexist params serviceId := by
  intro h
  have honly : ∀ j other, [unusedCamd][j]? = some other →
      other.camdSocket = unusedCamd.camdSocket → j = 0 := by
    intro j other hother _
    have hlt := (List.getElem?_eq_some_iff.mp hother).1
    rwa [List.length_singleton, Nat.lt_one_iff] at hlt
  obtain ⟨camd', chan', hevent, hchan', hstores⟩ := h.stores hnone [unusedCamd] 0 unusedCamd
    (Buffer.fill 21 0) someKey [] rfl honly (by decide) (by decide)
  rw [getcwEvent, handler, if_pos hpos] at hevent
  cases hevent
  cases hchan'
  exact absurd hstores.2 (by decide)

theorem coexist_iff_of_keys (hpos : 0 < params.constKeyCount) :
    Coexist params serviceId ↔ firstKey params serviceId ≠ none := by
  constructor
  · exact fun h hnone => not_coexist hpos hnone h
  · intro hsome
    obtain ⟨key, hkey⟩ := Option.ne_none_iff_exists'.mp hsome
    refine ⟨fun answers caPidIndex chan fds => ?_, fun hnone => absurd hnone hsome⟩
    rw [hkey]
    exact scamSendCapmt_eq (staticKey_first hkey) answers caPidIndex chan fds

/-- For every configuration, static keys and the key server work together for a channel exactly when
there is no valid entry, or one of those in the table is for the service. -/
theorem coexist_iff (lines : List (List (List UInt8))) (serviceId : Int) :
    ∃ params, readScamConfiguration lines = .ok params ∧
      (Coexist params serviceId ↔ lines.flatten.filterMap constKey = [] ∨
        ∃ key ∈ (lines.flatten.filterMap constKey).take maxStaticKeys, key.sid = serviceId) := by
  obtain ⟨params, hread, htable⟩ := readScamConfiguration_table lines
  refine ⟨params, hread, ?_⟩
  have hcount := htable.count
  by_cases hnone : lines.flatten.filterMap constKey = []
  · rw [hnone, List.length_nil, Nat.min_zero] at hcount
    exact iff_of_true (coexist_noKeys hcount) (.inl hnone)
  · have hlength := List.length_pos_of_ne_nil hnone
    rw [coexist_iff_of_keys (hcount ▸ Nat.lt_min.mpr ⟨by decide, hlength⟩), or_iff_right hnone,
      firstKey, htable.keys, Ne, List.find?_eq_none]
    constructor
    · intro hsome
      by_contra hno
      exact hsome fun key hkey heq => hno ⟨key, hkey, (of_decide_eq_true heq).symm⟩
    · rintro ⟨key, hkey, rfl⟩ hno
      exact hno key hkey (decide_eq_true rfl)

end coexist

/-! One static key, for service 1, keeps the control words from every other channel. -/

/-- `1,0:0:0:0:0:0:0:0,0:0:0:0:0:0:0:0` -/
def zeroKey : List UInt8 := 49 :: separators.flatMap fun sep => [sep, 48]

theorem coexist_not : ¬ ∀ (lines : List (List (List UInt8))) (params : ScamParameters)
    (serviceId : Int), readScamConfiguration lines = .ok params → Coexist params serviceId := by
  intro h
  have hview : (readScamConfiguration [[zeroKey]]).map
      (fun params => (params.constKeyCount, (firstKey params 2).isNone)) = .ok (1, true) := by
    decide +kernel
  obtain ⟨params, hread, hseen⟩ := map_eq_ok hview
  obtain ⟨hcount, hnone⟩ := Prod.mk.inj hseen
  exact not_coexist (by omega) (Option.isNone_iff_eq_none.mp hnone) (h [[zeroKey]] params 2 hread)

end MuMuDVB.StaticKeys
