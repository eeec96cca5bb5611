import MuMuDVB.RewriteSection

/-!
# SDT rewriting

`sdt_channel_rewrite` searches the stored SDT for the service of a channel and
copies its entry with the descriptors that are of use there. The inner loop
advances by an `unsigned char`: a descriptor of 254 bytes makes it stand still.
-/
namespace MuMuDVB.RewriteSdt

open CheckedMemory MuMuDVB.TsHeader MuMuDVB.Ts MuMuDVB.TsAssembler MuMuDVB.Channel
open MuMuDVB.RewriteSection

/-- Size of the SDT header. -/
@[simp] abbrev sdtLen : Nat := 11
/-- Size of the header of one service. -/
@[simp] abbrev sdtDescrLen : Nat := 5

section descr

variable (d : List UInt8)

def descrServiceId : Nat := hilo (byteAt d 0).toNat (byteAt d 1).toNat
def eitPresentFollowingFlag : Nat := (byteAt d 2).toNat % 2
def eitScheduleFlag : Nat := (byteAt d 2).toNat / 2 % 2
def descriptorsLoopLength : Nat := hilo ((byteAt d 3).toNat % 16) (byteAt d 4).toNat

/-- The two fields of `descriptors_loop_length`; the high one has four bits. -/
def setDescriptorsLoopLength (len : Nat) : List UInt8 :=
  (d.set 3 (UInt8.ofNat (len / 256 % 16) ||| (0xf0 &&& byteAt d 3))).set 4 (UInt8.ofNat len)

/-- `eit_present_following_flag=1; eit_schedule_flag=1;` -/
def forceEitFlags : List UInt8 := d.set 2 (byteAt d 2 ||| 0x03)

end descr

/-- `sdt_rewrite_copy_descriptor`. -/
def sdtRewriteCopyDescriptor (descriptorTag : UInt8) : Bool :=
  [0x47, 0x48, 0x50, 0x51, 0x53, 0x5d, 0x6e].contains descriptorTag

/-- `sdt_rewrite_all_sections_seen`. -/
def sdtRewriteAllSectionsSeen (vars : RewriteParameters) : Checked Bool :=
  (List.range (vars.sdtLastSectionNumber + 1)).foldlM (fun allSeen i => do
    let seen ← vars.sdtSectionNumbersSeen.read i
    return allSeen && seen) true

/-- The loop over the descriptors of a service, which start at `start`; `kept` are the bytes in
`t_buffer` after the header of the service. -/
def copyDescriptors (fuel : Nat) (data : Buffer UInt8 maxTsSize)
    (start descriptorsLength pos : Nat) (kept : List UInt8) : Checked (List UInt8) :=
  match fuel with
  | 0 => .error .endless
  | fuel + 1 =>
    if pos < descriptorsLength then do
      let descriptorTag ← data.read (start + pos)
      let len ← data.read (start + pos + 1)
      -- an unsigned char: 254 and 255 wrap around
      let descriptorLen := (len + 2).toNat
      let kept ← (if sdtRewriteCopyDescriptor descriptorTag then do
          let src ← data.slice (start + pos) descriptorLen
          if sdtDescrLen + kept.length + descriptorLen ≤ maxTsSize then return kept ++ src
          else .error .outOfBounds
        else .ok kept : Checked (List UInt8))
      copyDescriptors fuel data start descriptorsLength (pos + descriptorLen) kept
    else .ok kept

/-- How the loop over the services ends: at its end, with or without the service of the channel
copied to `buf_dest`, or by the `return` of its sanity check. -/
inductive SdtSearch where
  | ended (found : Bool) (dest : List UInt8)
  | bug

/-- The entry of a service in `t_buffer`, with the flags forced. -/
def sdtEntry (forceEit : OptionStatus) (descr kept : List UInt8) : List UInt8 :=
  let head := setDescriptorsLoopLength descr kept.length
  (if forceEit.toNat ≠ 0 then forceEitFlags head else head) ++ kept

/-- The loop over the services, from offset `pos` of the stored section. -/
def sdtServices (fuel : Nat) (forceEit : OptionStatus) (serviceId : Int)
    (data : Buffer UInt8 maxTsSize) (sectionLength pos : Nat) (dest : List UInt8) :
    Checked SdtSearch :=
  match fuel with
  | 0 => .error .endless
  | fuel + 1 =>
    if pos + sdtDescrLen < sectionLength then do
      let descr ← data.slice pos sdtDescrLen
      let descriptorsLength := descriptorsLoopLength descr
      let next := pos + (sdtDescrLen + descriptorsLength)
      if serviceId = descrServiceId descr then do
        let kept ← copyDescriptors (maxTsSize + 1) data (pos + sdtDescrLen) descriptorsLength 0 []
        if tsPacketSize < dest.length + sdtDescrLen + kept.length + 4 + 1 then
          sdtServices fuel forceEit serviceId data sectionLength next dest
        else if descriptorsLoopLength (setDescriptorsLoopLength descr kept.length) ≠ kept.length then
          return .bug
        else do
          let dest ← appendDest dest (sdtEntry forceEit descr kept)
          return .ended true dest
      else sdtServices fuel forceEit serviceId data sectionLength next dest
    else .ok (.ended false dest)

/-- The end of `sdt_channel_rewrite`, after the loop over the services. -/
def sdtFinish (st : RewriteState) (found : Bool) (dest : List UInt8) :
    Checked (Bool × RewriteState) := do
  let generated ← closeSection dest
  if found then
    return (true, { st with channel := { st.channel with
      generatedSdt := generated
      sdtRewriteSkip := false
      generatedSdtVersion := st.vars.sdtVersion } })
  else
    let allSeen ← sdtRewriteAllSectionsSeen st.vars
    if allSeen then
      return (true, { st with channel := { st.channel with
        sdtRewriteSkip := true
        generatedSdtVersion := st.vars.sdtVersion } })
    else return (false, { st with vars := { st.vars with sdtNeedOthers := true } })

/-- `sdt_channel_rewrite`. -/
def sdtChannelRewrite (vars : RewriteParameters) (channel : MumudvbChannel) (buf : Packet) :
    Checked (Bool × RewriteState) :=
  if channel.serviceId = 0 then
    .ok (false, ⟨vars, { channel with sdtRewriteSkip := true }, buf⟩)
  else do
    let sectionLength := sectionLength vars.fullSdt.dataFull.cells
    let buf := startHeader buf
    let dest ← appendDest [] (buf.cells.take tsHeaderLen)
    let data := onlySectionAt vars.fullSdt.dataFull 0
    let vars := { vars with fullSdt := { vars.fullSdt with dataFull := data } }
    let dest ← appendDest dest (data.cells.take sdtLen)
    if tableId data.cells ≠ 0x42 then
      return (false, ⟨{ vars with sdtNeedsUpdate := true }, channel, buf⟩)
    else
      let search ← sdtServices (maxTsSize + 1) vars.sdtForceEit channel.serviceId data sectionLength
        sdtLen dest
      match search with
      | .bug => return (false, ⟨vars, channel, buf⟩)
      | .ended found dest => sdtFinish ⟨vars, channel, buf⟩ found dest

/-- `sdt_need_update`. -/
def sdtNeedUpdate (vars : RewriteParameters) (mem : TableMemory) : Checked Bool := do
  match ← getTsBegin mem with
  | none => return false
  | some off =>
    let sdt ← mem.slice off 8
    if (versionNumber sdt : Int) ≠ vars.sdtVersion ∧ tableId sdt = 0x42 then
      if currentNextIndicator sdt = 0 then return false else return true
    else return false

/-- `update_sdt_version`. -/
def updateSdtVersion (vars : RewriteParameters) : RewriteParameters :=
  { vars with sdtVersion := versionNumber vars.fullSdt.dataFull.cells }

/-- The loop of `sdt_rewrite_new_global_packet`; the flag says that it returned 1. -/
def sdtGlobalLoop (fuel : Nat) (buf : Option Packet) (vars : RewriteParameters) :
    Checked (Bool × RewriteParameters) :=
  match fuel with
  | 0 => .error .endless
  | fuel + 1 => do
    let (avail, fullSdt) ← getTsPacket buf vars.fullSdt
    let vars := { vars with fullSdt := fullSdt }
    if avail then
      let sdt := vars.fullSdt.dataFull.cells
      -- not yet valid: the next section of the packet
      if currentNextIndicator sdt = 0 then sdtGlobalLoop fuel none vars
      else if tableId sdt ≠ 0x42 then return (false, { vars with sdtNeedsUpdate := true })
      else
        let seen ← vars.sdtSectionNumbersSeen.write (sectionNumber sdt) [true]
        let vars := updateSdtVersion { vars with
          sdtLastSectionNumber := lastSectionNumber sdt
          sdtSectionNumbersSeen := seen }
        let vars := { vars with sdtNeedsUpdate := false, fullSdtOk := true }
        if vars.sdtNeedOthers then return (false, { vars with sdtNeedOthers := false })
        else return (true, vars)
    else return (false, vars)

/-- `sdt_rewrite_new_global_packet`. -/
def sdtRewriteNewGlobalPacket (mem : TableMemory) (vars : RewriteParameters) :
    Checked (Bool × RewriteParameters) := do
  let vars ← (if vars.sdtNeedsUpdate then .ok vars
    else do
      let needsUpdate ← sdtNeedUpdate vars mem
      if needsUpdate then
        return { vars with sdtNeedsUpdate := true, sdtSectionNumbersSeen := Buffer.fill _ false }
      else return vars : Checked RewriteParameters)
  let (updated, vars) ← (if vars.sdtNeedsUpdate || vars.sdtNeedOthers then
      sdtGlobalLoop takeFuel (some mem.packet) vars
    else .ok (false, vars) : Checked (Bool × RewriteParameters))
  if updated then return (true, vars)
  else return (false, { vars with
    sdtContinuityCounter := (vars.sdtContinuityCounter + 1) % 16 })

/-- `sdt_rewrite_new_channel_packet`. -/
def sdtRewriteNewChannelPacket (vars : RewriteParameters) (channel : MumudvbChannel)
    (buf : Packet) : Checked (Bool × RewriteState) :=
  if vars.fullSdtOk then do
    let (rewritten, st) ← (if vars.sdtNeedsUpdate = false ∧ channel.channelReady.isReady = true ∧
        channel.generatedSdtVersion ≠ vars.sdtVersion then sdtChannelRewrite vars channel buf
      else .ok (true, ⟨vars, channel, buf⟩) : Checked (Bool × RewriteState))
    if rewritten then
      if st.channel.generatedSdtVersion = st.vars.sdtVersion then
        return (true, { st with
          buf := setCounter st.channel.generatedSdt st.vars.sdtContinuityCounter })
      else return (false, st)
    else return (false, st)
  else .ok (false, ⟨vars, channel, buf⟩)

/-- A descriptor is a tag, a length and as many bytes; the length leaves room for both in
an `unsigned char`. -/
structure IsDescriptor (d : List UInt8) : Prop where
  length : d.length = (byteAt d 1).toNat + 2
  atMost : (byteAt d 1).toNat ≤ 253

/-- The entry of a service: five bytes, then descriptors that fill the announced length. -/
structure SdtService where
  head : List UInt8
  descriptors : List (List UInt8)
  headLength : head.length = 5
  loopLength : descriptorsLoopLength head = descriptors.flatten.length
  isDescriptor : ∀ d ∈ descriptors, IsDescriptor d

def SdtService.bytes (v : SdtService) : List UInt8 := v.head ++ v.descriptors.flatten

def SdtService.serviceId (v : SdtService) : Nat := descrServiceId v.head

/-- The descriptors that the rewriter keeps. -/
def SdtService.kept (v : SdtService) : List UInt8 :=
  (v.descriptors.filter (fun d => sdtRewriteCopyDescriptor (byteAt d 0))).flatten

/-- A well-formed SDT section of the actual transport stream. -/
structure SdtSection where
  header : List UInt8
  services : List SdtService
  crc : List UInt8
  headerLength : header.length = 11
  crcLength : crc.length = 4
  actual : tableId header = 0x42
  size : (header ++ ((services.map SdtService.bytes).flatten ++ crc)).length = sectionSize header
  atMost : sectionSize header ≤ 4096
  crcValid : crc32 (header ++ ((services.map SdtService.bytes).flatten ++ crc)) = 0

def SdtSection.bytes (sdt : SdtSection) : List UInt8 :=
  sdt.header ++ ((sdt.services.map SdtService.bytes).flatten ++ sdt.crc)

theorem getElem?_of_byteAt {xs : List UInt8} {i : Nat} (h : i < xs.length) :
    xs[i]? = some (byteAt xs i) := by
  rw [byteAt, List.getD_eq_getElem?_getD, List.getElem?_eq_getElem h]
  rfl

/-- The length byte and its two companions, in an `unsigned char`. -/
theorem IsDescriptor.toNat_add_two {d : List UInt8} (h : IsDescriptor d) :
    (byteAt d 1 + 2).toNat = d.length := by
  have hmax := h.atMost
  rw [UInt8.toNat_add, h.length, show (2 : UInt8).toNat = 2 from rfl]
  omega

/-- Over well-formed descriptors the inner loop ends, stays inside its arrays and filters. -/
theorem copyDescriptors_spec {data : Buffer UInt8 maxTsSize} {start : Nat}
    {ds : List (List UInt8)} {ys : List UInt8} (hds : ∀ d ∈ ds, IsDescriptor d) (fuel pos : Nat)
    (xs kept : List UInt8) (hdata : data.cells = xs ++ (ds.flatten ++ ys))
    (hpos : xs.length = start + pos) (hfuel : ds.length ≤ fuel)
    (hroom : 5 + kept.length + ds.flatten.length ≤ 4096) :
    copyDescriptors (fuel + 1) data start (pos + ds.flatten.length) pos kept =
      .ok (kept ++ (ds.filter (fun d => sdtRewriteCopyDescriptor (byteAt d 0))).flatten) := by
  induction ds generalizing fuel pos xs kept with
  | nil => simp [copyDescriptors]
  | cons d ds ih =>
    have hd := hds d List.mem_cons_self
    have hlen := hd.length
    rw [List.flatten_cons, List.append_assoc] at hdata
    rw [List.flatten_cons, List.length_append] at hroom ⊢
    rw [List.length_cons] at hfuel
    have hbyte : ∀ i, i < d.length → (d ++ (ds.flatten ++ ys))[i]? = some (byteAt d i) := by
      intro i hi
      rw [List.getElem?_append_left hi, getElem?_of_byteAt hi]
    have htag : data.read (start + pos) = .ok (byteAt d 0) :=
      data.read_middle hdata (by omega) (hbyte 0 (by omega))
    have hlength : data.read (start + pos + 1) = .ok (byteAt d 1) :=
      data.read_middle hdata (by omega) (hbyte 1 (by omega))
    have hsrc : data.slice (start + pos) d.length = .ok d := data.slice_middle hdata hpos rfl
    obtain ⟨fuel, rfl⟩ : ∃ fuel', fuel = fuel' + 1 := ⟨fuel - 1, by omega⟩
    have hrec : ∀ kept', kept'.length ≤ kept.length + d.length →
        copyDescriptors (fuel + 1) data start (pos + (d.length + ds.flatten.length))
          (pos + d.length) kept' =
        .ok (kept' ++ (ds.filter (fun d => sdtRewriteCopyDescriptor (byteAt d 0))).flatten) := by
      intro kept' hkept
      have h := ih (fun e he => hds e (List.mem_cons_of_mem _ he)) fuel (pos + d.length) (xs ++ d)
        kept' (by rw [hdata, List.append_assoc]) (by rw [List.length_append]; omega) (by omega)
        (by omega)
      rwa [Nat.add_assoc] at h
    rw [copyDescriptors, if_pos (by omega), htag, bind_ok, hlength, bind_ok]
    simp only [hd.toNat_add_two]
    by_cases hcopy : sdtRewriteCopyDescriptor (byteAt d 0) = true
    · rw [if_pos hcopy, hsrc, bind_ok, if_pos (by simp only [sdtDescrLen, maxTsSize]; omega),
        pure_ok, bind_ok, hrec _ (Nat.le_of_eq List.length_append), List.filter_cons, if_pos hcopy,
        List.flatten_cons, List.append_assoc]
    · rw [if_neg hcopy, bind_ok, hrec _ (by omega), List.filter_cons, if_neg hcopy]

/-- What the loop over the services is for: the first service with the channel's identifier
whose entry fits. -/
def searchService (forceEit : OptionStatus) (serviceId : Int) (dest : List UInt8) :
    List SdtService → SdtSearch
  | [] => .ended false dest
  | v :: services =>
    if serviceId = v.serviceId ∧ dest.length + v.kept.length ≤ 178 then
      .ended true (dest ++ sdtEntry forceEit v.head v.kept)
    else searchService forceEit serviceId dest services

theorem length_flatten_filter_le (p : List UInt8 → Bool) (ds : List (List UInt8)) :
    (ds.filter p).flatten.length ≤ ds.flatten.length := by
  induction ds with
  | nil => exact Nat.le_refl _
  | cons d ds ih =>
    rw [List.filter_cons, List.flatten_cons, List.length_append]
    split
    · rw [List.flatten_cons, List.length_append]
      omega
    · omega

theorem length_descriptors_le {ds : List (List UInt8)} (h : ∀ d ∈ ds, IsDescriptor d) :
    ds.length ≤ ds.flatten.length := by
  induction ds with
  | nil => exact Nat.le_refl _
  | cons d ds ih =>
    have hd := (h d List.mem_cons_self).length
    have := ih (fun e he => h e (List.mem_cons_of_mem _ he))
    rw [List.flatten_cons, List.length_append, List.length_cons]
    omega

@[simp] theorem length_setDescriptorsLoopLength (d : List UInt8) (len : Nat) :
    (setDescriptorsLoopLength d len).length = d.length := by simp [setDescriptorsLoopLength]

@[simp] theorem length_forceEitFlags (d : List UInt8) : (forceEitFlags d).length = d.length := by
  simp [forceEitFlags]

theorem length_sdtEntry (forceEit : OptionStatus) (head kept : List UInt8) :
    (sdtEntry forceEit head kept).length = head.length + kept.length := by
  rw [sdtEntry, List.length_append]
  split <;> simp

/-- The sanity check of the rewriter never fails. -/
theorem descriptorsLoopLength_set {d : List UInt8} {len : Nat} (hd : d.length = 5)
    (hlen : len < 4096) : descriptorsLoopLength (setDescriptorsLoopLength d len) = len := by
  have h3 : byteAt (setDescriptorsLoopLength d len) 3 =
      UInt8.ofNat (len / 256 % 16) ||| (0xf0 &&& byteAt d 3) := by
    rw [setDescriptorsLoopLength, byteAt_set_ne (by decide), byteAt_set_self (by omega)]
  have h4 : byteAt (setDescriptorsLoopLength d len) 4 = UInt8.ofNat len := by
    rw [setDescriptorsLoopLength, byteAt_set_self (by rw [List.length_set]; omega)]
  rw [descriptorsLoopLength, h3, h4, low_nibble _ (Nat.mod_lt _ (by decide)), hilo,
    UInt8.toNat_ofNat']
  omega

/-- Over well-formed services the loop ends, stays inside its arrays and searches. -/
theorem sdtServices_spec {data : Buffer UInt8 maxTsSize} {forceEit : OptionStatus} {serviceId : Int}
    {services : List SdtService} {ys dest : List UInt8} (hdest : 13 ≤ dest.length)
    (fuel pos : Nat) (xs : List UInt8)
    (hdata : data.cells = xs ++ ((services.map SdtService.bytes).flatten ++ ys))
    (hpos : xs.length = pos) (hfuel : services.length ≤ fuel) :
    sdtServices (fuel + 1) forceEit serviceId data
        (pos + (services.map SdtService.bytes).flatten.length + 1) pos dest =
      .ok (searchService forceEit serviceId dest services) := by
  induction services generalizing fuel pos xs with
  | nil => simp [sdtServices, searchService]
  | cons v services ih =>
    have hsize := congrArg List.length hdata
    rw [data.length_cells] at hsize
    rw [List.map_cons, List.flatten_cons, List.append_assoc] at hdata
    rw [List.map_cons, List.flatten_cons, List.length_append] at hsize ⊢
    rw [List.length_cons] at hfuel
    have hbytes : v.bytes.length = 5 + v.descriptors.flatten.length := by
      rw [SdtService.bytes, List.length_append, v.headLength]
    simp only [List.length_append, maxTsSize] at hsize
    have hparts : data.cells = (xs ++ v.head) ++
        (v.descriptors.flatten ++ ((services.map SdtService.bytes).flatten ++ ys)) := by
      rw [hdata, SdtService.bytes]
      simp only [List.append_assoc]
    have hslice : data.slice pos 5 = .ok v.head := by
      rw [List.append_assoc] at hparts
      exact data.slice_middle hparts hpos v.headLength
    have hkept : copyDescriptors (maxTsSize + 1) data (pos + 5) v.descriptors.flatten.length 0 [] =
        .ok v.kept := by
      have hcount := length_descriptors_le v.isDescriptor
      have h := copyDescriptors_spec v.isDescriptor maxTsSize 0 (xs ++ v.head) [] hparts
        (by rw [List.length_append, v.headLength, hpos])
        (by simp only [maxTsSize]; omega) (by rw [List.length_nil]; omega)
      rw [Nat.zero_add, List.nil_append] at h
      exact h
    obtain ⟨fuel, rfl⟩ : ∃ fuel', fuel = fuel' + 1 := ⟨fuel - 1, by omega⟩
    have hnext : sdtServices (fuel + 1) forceEit serviceId data
        (pos + (v.bytes.length + (services.map SdtService.bytes).flatten.length) + 1)
        (pos + (5 + v.descriptors.flatten.length)) dest =
        .ok (searchService forceEit serviceId dest services) := by
      have h := ih fuel (pos + v.bytes.length) (xs ++ v.bytes)
        (by rw [hdata, List.append_assoc]) (by rw [List.length_append, hpos]) (by omega)
      rw [← hbytes, ← Nat.add_assoc pos]
      exact h
    have hkeptLen : v.kept.length ≤ v.descriptors.flatten.length := length_flatten_filter_le _ _
    rw [sdtServices, if_pos (by simp only [sdtDescrLen]; omega)]
    have hsid : descrServiceId v.head = v.serviceId := rfl
    simp only [sdtDescrLen, hslice, bind_ok, v.loopLength, hkept, hsid]
    rw [searchService]
    by_cases hid : serviceId = v.serviceId
    · rw [if_pos hid]
      by_cases hfit : dest.length + v.kept.length ≤ 178
      · rw [if_neg (by simp only [tsPacketSize]; omega),
          if_neg (by rw [descriptorsLoopLength_set v.headLength (by omega)]; simp),
          appendDest_ok (by rw [length_sdtEntry, v.headLength]; omega), if_pos ⟨hid, hfit⟩]
        rfl
      · rw [if_pos (by simp only [tsPacketSize]; omega), if_neg (fun hc => hfit hc.2)]
        exact hnext
    · rw [if_neg hid, if_neg (fun hc => hid hc.1)]
      exact hnext

theorem makeOnlySection_append {xs ys : List UInt8} (h : 8 ≤ xs.length) :
    makeOnlySection (xs ++ ys) = makeOnlySection xs ++ ys := by
  rw [makeOnlySection, byteAt_append_left (by omega), List.set_append_left _ _ (by omega),
    List.set_append_left _ _ (by rw [List.length_set]; omega),
    List.set_append_left _ _ (by rw [List.length_set, List.length_set]; omega), makeOnlySection]

theorem sdtServices_extends {data : Buffer UInt8 maxTsSize} {forceEit : OptionStatus}
    {serviceId : Int} {sectionLength fuel pos : Nat} {dest dest' : List UInt8} {found : Bool}
    (h : sdtServices fuel forceEit serviceId data sectionLength pos dest =
      .ok (.ended found dest')) : dest <+: dest' := by
  induction fuel generalizing pos with
  | zero => cases h
  | succ fuel ih =>
    rw [sdtServices] at h
    split at h
    · rw [bind_eq_ok] at h
      obtain ⟨descr, _, h⟩ := h
      simp only at h
      split at h
      · rw [bind_eq_ok] at h
        obtain ⟨kept, _, h⟩ := h
        split at h
        · exact ih h
        · split at h
          · cases h
          · rw [bind_eq_ok] at h
            obtain ⟨dest₁, happ, h⟩ := h
            cases h
            exact appendDest_extends happ
      · exact ih h
    · cases h
      exact List.prefix_refl _

/-- A packet that was generated is closed over the incoming header. -/
theorem sdtChannelRewrite_opened {vars : RewriteParameters} {channel : MumudvbChannel}
    {buf : Packet} {st : RewriteState} (h : sdtChannelRewrite vars channel buf = .ok (true, st))
    (hskip : st.channel.sdtRewriteSkip = false) :
    ∃ dest, Opened buf.cells dest ∧ closeSection dest = .ok st.channel.generatedSdt := by
  unfold sdtChannelRewrite at h
  split at h
  · cases h
  · simp only [bind_eq_ok] at h
    obtain ⟨dest₀, h₀, dest₁, h₁, h⟩ := h
    have hcells := vars.fullSdt.dataFull.length_cells
    simp only [maxTsSize] at hcells
    have hopen : Opened buf.cells dest₁ := by
      unfold appendDest at h₀ h₁
      split at h₀ <;> cases h₀
      split at h₁ <;> cases h₁
      rw [List.nil_append, onlySectionAt_zero]
      exact opened_header (by decide) (by omega) (by decide)
    split at h
    · cases h
    · rw [bind_eq_ok] at h
      obtain ⟨search, hsearch, h⟩ := h
      cases search with
      | bug => cases h
      | ended found dest =>
        simp only [sdtFinish, bind_eq_ok] at h
        obtain ⟨p, hclose, h⟩ := h
        cases found with
        | true =>
          cases h
          exact ⟨dest, hopen.of_prefix (sdtServices_extends hsearch), hclose⟩
        | false =>
          rw [if_neg Bool.false_ne_true, bind_eq_ok] at h
          obtain ⟨allSeen, _, h⟩ := h
          split at h <;> cases h
          cases hskip

section stored

variable {vars : RewriteParameters} {channel : MumudvbChannel} {buf : Packet} {sdt : SdtSection}

/-- Section `sdt` is the one in `full_sdt`. -/
def Stored (sdt : SdtSection) (vars : RewriteParameters) : Prop :=
  ∃ rest, vars.fullSdt.dataFull.cells = sdt.bytes ++ rest

/-- `buf_dest` before the loop over the services. -/
def sdtHeader (sdt : SdtSection) (buf : Packet) : List UInt8 :=
  (startHeader buf).cells.take 5 ++ makeOnlySection sdt.header

theorem length_sdtHeader : (sdtHeader sdt buf).length = 16 := by
  rw [sdtHeader, List.length_append, List.length_take, (startHeader buf).length_cells,
    length_makeOnlySection, sdt.headerLength]
  rfl

theorem take_header : (makeOnlySection sdt.header).take 11 = makeOnlySection sdt.header :=
  List.take_of_length_le (Nat.le_of_eq (by rw [length_makeOnlySection, sdt.headerLength]))

theorem opened_sdtHeader : Opened buf.cells (sdtHeader sdt buf) := by
  have hlen := sdt.headerLength
  have h := @opened_header _ buf sdt.header 11 (by decide) (by omega) (by decide)
  rwa [take_header] at h

/-- What the rewriter does before its last steps: it searches the services of the section. -/
theorem sdtChannelRewrite_spec (buf : Packet) (hstored : Stored sdt vars) (hid : channel.serviceId ≠ 0) :
    ∃ st, st.vars.sdtVersion = vars.sdtVersion ∧
      st.vars.sdtLastSectionNumber = vars.sdtLastSectionNumber ∧
      st.vars.sdtSectionNumbersSeen = vars.sdtSectionNumbersSeen ∧ st.channel = channel ∧
      sdtChannelRewrite vars channel buf =
        match searchService vars.sdtForceEit channel.serviceId (sdtHeader sdt buf) sdt.services with
        | .bug => .ok (false, st)
        | .ended found dest => sdtFinish st found dest := by
  obtain ⟨rest, hcells⟩ := hstored
  have hlen := sdt.headerLength
  have hsize := sdt.size
  have hatMost := sdt.atMost
  rw [SdtSection.bytes, List.append_assoc, List.append_assoc] at hcells
  have hdata : (onlySectionAt vars.fullSdt.dataFull 0).cells = makeOnlySection sdt.header ++
      ((sdt.services.map SdtService.bytes).flatten ++ (sdt.crc ++ rest)) := by
    rw [onlySectionAt_zero, hcells, makeOnlySection_append (by omega)]
  have hsection : sectionLength vars.fullSdt.dataFull.cells =
      11 + (sdt.services.map SdtService.bytes).flatten.length + 1 := by
    rw [hcells, sectionLength_append (by omega)]
    simp only [List.length_append, hlen, sdt.crcLength, sectionSize, bytesBfrSecLen] at hsize
    omega
  have htable : tableId (onlySectionAt vars.fullSdt.dataFull 0).cells = 0x42 := by
    rw [hdata, tableId, byteAt_append_left (by rw [length_makeOnlySection]; omega),
      byteAt_makeOnlySection (by decide) (by decide) (by decide)]
    exact sdt.actual
  have hheader : appendDest [] ((startHeader buf).cells.take 5) =
      .ok ((startHeader buf).cells.take 5) := appendDest_ok (by simp)
  have hdest : appendDest ((startHeader buf).cells.take 5)
      ((onlySectionAt vars.fullSdt.dataFull 0).cells.take 11) = .ok (sdtHeader sdt buf) := by
    rw [hdata, List.take_append_of_le_length (Nat.le_of_eq (by rw [length_makeOnlySection, hlen])),
      take_header]
    have hl := @length_sdtHeader buf sdt
    rw [sdtHeader, List.length_append] at hl
    exact appendDest_ok (by omega)
  have hcount : sdt.services.length ≤ 4096 := by
    have hmap : ∀ services : List SdtService,
        services.length ≤ (services.map SdtService.bytes).flatten.length := by
      intro services
      induction services with
      | nil => exact Nat.le_refl _
      | cons v services ih =>
        rw [List.map_cons, List.flatten_cons, List.length_append, List.length_cons,
          SdtService.bytes, List.length_append, v.headLength]
        omega
    have := hmap sdt.services
    simp only [List.length_append] at hsize
    omega
  have hsearch := @sdtServices_spec (onlySectionAt vars.fullSdt.dataFull 0) vars.sdtForceEit
    channel.serviceId sdt.services _ (sdtHeader sdt buf) (by rw [length_sdtHeader]; decide) 4096 11
    _ hdata (by rw [length_makeOnlySection, hlen]) hcount
  refine ⟨⟨{ vars with fullSdt :=
    { vars.fullSdt with dataFull := onlySectionAt vars.fullSdt.dataFull 0 } }, channel,
    startHeader buf⟩, rfl, rfl, rfl, rfl, ?_⟩
  rw [sdtChannelRewrite, if_neg hid]
  simp only [hheader, hdest, hsection, hsearch, bind_ok, htable, ne_eq, not_true, if_false]
  cases searchService vars.sdtForceEit channel.serviceId (sdtHeader sdt buf) sdt.services <;> rfl

/-- A section without its CRC, with the length it will have after it. -/
def withSectionLength (s : List UInt8) : List UInt8 :=
  (s.set 1 (UInt8.ofNat ((s.length + 1) / 256 % 16) ||| (0xf0 &&& byteAt s 1))).set 2
    (UInt8.ofNat (s.length + 1))

/-- The section with the header of `sdt` and one entry. -/
def sdtWith (sdt : SdtSection) (entry : List UInt8) : List UInt8 :=
  let s := withSectionLength (makeOnlySection sdt.header ++ entry)
  s ++ TableCrc.bytes (crc32Long s)

/-- The section that the rewriting is to produce: the entry of service `v` with its flags, which
are forced only if the user switched that on, and the descriptors that are kept. -/
def expectedSdt (forceEit : OptionStatus) (sdt : SdtSection) (v : SdtService) : List UInt8 :=
  let head := setDescriptorsLoopLength v.head v.kept.length
  sdtWith sdt ((if forceEit = .on then forceEitFlags head else head) ++ v.kept)

theorem openSection_sdtHeader (entry : List UInt8) :
    openSection (sdtHeader sdt buf ++ entry) =
      withSectionLength (makeOnlySection sdt.header ++ entry) := by
  have h5 : ((startHeader buf).cells.take 5).length = 5 := by
    rw [List.length_take, (startHeader buf).length_cells]
    rfl
  have hdrop : (sdtHeader sdt buf ++ entry).drop 5 = makeOnlySection sdt.header ++ entry := by
    rw [sdtHeader, List.append_assoc, List.drop_left' h5]
  have hlen : (sdtHeader sdt buf ++ entry).length - 5 =
      (makeOnlySection sdt.header ++ entry).length := by
    rw [← hdrop, List.length_drop]
  have hbyte : byteAt (sdtHeader sdt buf ++ entry) 6 =
      byteAt (makeOnlySection sdt.header ++ entry) 1 := by
    rw [← hdrop, byteAt_drop]
  rw [openSection_eq, hdrop, hlen, hbyte, withSectionLength]

/-- A search for a service that no entry has. -/
theorem searchService_append {forceEit : OptionStatus} {serviceId : Int} {dest : List UInt8}
    {before after : List SdtService} (h : ∀ w ∈ before, serviceId ≠ w.serviceId) :
    searchService forceEit serviceId dest (before ++ after) =
      searchService forceEit serviceId dest after := by
  induction before with
  | nil => rfl
  | cons w before ih =>
    rw [List.cons_append, searchService, if_neg (fun hc => h w List.mem_cons_self hc.1),
      ih (fun x hx => h x (List.mem_cons_of_mem _ hx))]

/-- Service `v` is the only one of the section with the channel's identifier. -/
structure OnlyService (sdt : SdtSection) (v : SdtService) (channel : MumudvbChannel) : Prop where
  serviceId : channel.serviceId = v.serviceId
  once : ∃ before after, sdt.services = before ++ v :: after ∧
    ∀ w ∈ before ++ after, channel.serviceId ≠ w.serviceId

variable {v : SdtService}

/-- An entry that the rewriter takes for small enough is written as `sdtEntry` says. -/
theorem sdtChannelRewrite_found (hstored : Stored sdt vars) (hservice : OnlyService sdt v channel)
    (hid : channel.serviceId ≠ 0) (hfit : v.kept.length ≤ 162) :
    ∃ st, sdtChannelRewrite vars channel buf = .ok (true, st) ∧ st.channel.sdtRewriteSkip = false ∧
      sectionOf st.channel.generatedSdt = sdtWith sdt (sdtEntry vars.sdtForceEit v.head v.kept) ∧
      OnlySection (sectionOf st.channel.generatedSdt) := by
  obtain ⟨st, _, _, _, _, hrun⟩ := sdtChannelRewrite_spec buf hstored hid
  obtain ⟨before, after, hsplit, honce⟩ := hservice.once
  have hhdr := @length_sdtHeader buf sdt
  have hsearch : searchService vars.sdtForceEit channel.serviceId (sdtHeader sdt buf) sdt.services =
      .ended true (sdtHeader sdt buf ++ sdtEntry vars.sdtForceEit v.head v.kept) := by
    rw [hsplit, searchService_append (fun w hw => honce w (List.mem_append_left _ hw)),
      searchService, if_pos ⟨hservice.serviceId, by omega⟩]
  have hopen := (@opened_sdtHeader buf sdt).append (sdtEntry vars.sdtForceEit v.head v.kept)
  obtain ⟨p, hclose, _⟩ := closeSection_ok
    (show (sdtHeader sdt buf ++ sdtEntry vars.sdtForceEit v.head v.kept).length ≤ 184 by
      rw [List.length_append, length_sdtEntry, v.headLength]
      omega)
  rw [hsearch] at hrun
  simp only [sdtFinish, hclose, bind_ok] at hrun
  refine ⟨_, hrun, rfl, ?_, (closeSection_opened hopen hclose).1⟩
  rw [sectionOf_closeSection hopen.atLeast hclose, openSection_sdtHeader]
  rfl

/-- An entry that the rewriter takes for too large is not written. -/
theorem sdtChannelRewrite_tooBig (hstored : Stored sdt vars) (hservice : OnlyService sdt v channel)
    (hid : channel.serviceId ≠ 0) (hfit : 162 < v.kept.length) {st : RewriteState}
    (hrun : sdtChannelRewrite vars channel buf = .ok (true, st)) :
    st.channel.sdtRewriteSkip = true := by
  obtain ⟨st₀, _, _, _, _, hspec⟩ := sdtChannelRewrite_spec buf hstored hid
  obtain ⟨before, after, hsplit, honce⟩ := hservice.once
  have hhdr := @length_sdtHeader buf sdt
  have hsearch : searchService vars.sdtForceEit channel.serviceId (sdtHeader sdt buf) sdt.services =
      .ended false (sdtHeader sdt buf) := by
    have hafter := @searchService_append vars.sdtForceEit channel.serviceId (sdtHeader sdt buf) after
      [] (fun w hw => honce w (List.mem_append_right _ hw))
    rw [List.append_nil] at hafter
    rw [hsplit, searchService_append (fun w hw => honce w (List.mem_append_left _ hw)),
      searchService, if_neg (fun hc => by omega), hafter, searchService]
  rw [hspec, hsearch] at hrun
  simp only [sdtFinish, bind_eq_ok, Bool.false_eq_true, if_false] at hrun
  obtain ⟨_, _, allSeen, _, hrun⟩ := hrun
  split at hrun <;> cases hrun
  rfl

/-- The flags that are forced without being asked for. -/
theorem or_three_eq_self (x : UInt8) :
    x ||| 0x03 = x ↔ x.toNat % 2 = 1 ∧ x.toNat / 2 % 2 = 1 := by
  have h : ∀ n < 256, (n ||| 3 = n ↔ n % 2 = 1 ∧ n / 2 % 2 = 1) := by decide +kernel
  rw [← UInt8.toNat_inj, UInt8.toNat_or]
  exact h x.toNat x.toNat_lt

theorem forceEitFlags_eq_self {d : List UInt8} (hd : d.length = 5) :
    forceEitFlags d = d ↔ eitPresentFollowingFlag d = 1 ∧ eitScheduleFlag d = 1 := by
  rw [eitPresentFollowingFlag, eitScheduleFlag, ← or_three_eq_self]
  constructor
  · intro h
    rw [← byteAt_set_self (b := byteAt d 2 ||| 0x03) (show 2 < d.length by omega)]
    conv_rhs => rw [← h]
    rfl
  · intro h
    have hlt : 2 < d.length := by omega
    have hget := getElem?_of_byteAt hlt
    rw [List.getElem?_eq_getElem hlt, Option.some.injEq] at hget
    rw [forceEitFlags, h, ← hget, List.set_getElem_self]

/-- `sdt_channel_rewrite` succeeds and the section in `generated_sdt` is the expected one. -/
def KeepsService (vars : RewriteParameters) (channel : MumudvbChannel) (buf : Packet)
    (sdt : SdtSection) (v : SdtService) : Prop :=
  ∃ st, sdtChannelRewrite vars channel buf = .ok (true, st) ∧ st.channel.sdtRewriteSkip = false ∧
    sectionOf st.channel.generatedSdt = expectedSdt vars.sdtForceEit sdt v ∧
    OnlySection (sectionOf st.channel.generatedSdt)

theorem byteAt_sdtWith {entry : List UInt8} (h : 2 < entry.length) :
    byteAt (sdtWith sdt entry) 13 = byteAt entry 2 := by
  have hlen : (makeOnlySection sdt.header).length = 11 := by
    rw [length_makeOnlySection, sdt.headerLength]
  have hadd := @byteAt_append_right (makeOnlySection sdt.header) entry 2
  rw [hlen] at hadd
  simp only [sdtWith]
  rw [byteAt_append_left (by simp [withSectionLength, sdt.headerLength]; omega), withSectionLength,
    byteAt_set_ne (by decide), byteAt_set_ne (by decide), hadd]

/-- The flags forced with the option off are those of a service that has both anyway. -/
theorem sdtEntry_eq_expected {forceEit : OptionStatus} :
    sdtWith sdt (sdtEntry forceEit v.head v.kept) = expectedSdt forceEit sdt v ↔
      (forceEit = .off → eitPresentFollowingFlag v.head = 1 ∧ eitScheduleFlag v.head = 1) := by
  have hlen : (setDescriptorsLoopLength v.head v.kept.length).length = 5 := by
    rw [length_setDescriptorsLoopLength, v.headLength]
  have hflags : byteAt (setDescriptorsLoopLength v.head v.kept.length) 2 = byteAt v.head 2 := by
    rw [setDescriptorsLoopLength, byteAt_set_ne (by decide), byteAt_set_ne (by decide)]
  have hself := forceEitFlags_eq_self hlen
  simp only [eitPresentFollowingFlag, eitScheduleFlag, hflags] at hself ⊢
  cases forceEit with
  | undefined => simp [expectedSdt, sdtEntry, OptionStatus.toNat]
  | on => simp [expectedSdt, sdtEntry, OptionStatus.toNat]
  | off =>
    simp only [expectedSdt, sdtEntry, OptionStatus.toNat, ne_eq, Nat.one_ne_zero, not_false_eq_true,
      if_true, reduceCtorEq, if_false, forall_const]
    rw [← hself]
    constructor
    · intro h
      have hbyte := congrArg (fun s => byteAt s 13) h
      rw [byteAt_sdtWith (by rw [List.length_append, length_forceEitFlags, hlen]; omega),
        byteAt_sdtWith (by rw [List.length_append, hlen]; omega),
        byteAt_append_left (by rw [length_forceEitFlags, hlen]; decide),
        byteAt_append_left (by rw [hlen]; decide), forceEitFlags,
        byteAt_set_self (by rw [hlen]; decide), or_three_eq_self, hflags] at hbyte
      rw [forceEitFlags_eq_self hlen, eitPresentFollowingFlag, eitScheduleFlag, hflags]
      exact hbyte
    · intro h
      rw [h]

/-- SDT rewriting keeps the channel's service exactly when the channel has an identifier, the
descriptors leave a byte of the packet free, and an option that is off finds both flags set. -/
theorem keepsService_iff (hstored : Stored sdt vars) (hservice : OnlyService sdt v channel) :
    KeepsService vars channel buf sdt v ↔
      channel.serviceId ≠ 0 ∧ v.kept.length ≤ 162 ∧
        (vars.sdtForceEit = .off →
          eitPresentFollowingFlag v.head = 1 ∧ eitScheduleFlag v.head = 1) := by
  constructor
  · rintro ⟨st, hrun, hskip, hsection, _⟩
    have hid : channel.serviceId ≠ 0 := by
      intro h0
      rw [sdtChannelRewrite, if_pos h0] at hrun
      cases hrun
    have hsmall : v.kept.length ≤ 162 := by
      by_contra hbig
      rw [sdtChannelRewrite_tooBig hstored hservice hid (by omega) hrun] at hskip
      cases hskip
    obtain ⟨st', hrun', _, hsection', _⟩ := sdtChannelRewrite_found hstored hservice hid hsmall
    rw [hrun'] at hrun
    cases hrun
    exact ⟨hid, hsmall, sdtEntry_eq_expected.mp (hsection'.symm.trans hsection)⟩
  · rintro ⟨hid, hsmall, hflags⟩
    obtain ⟨st, hrun, hskip, hsection, honly⟩ := sdtChannelRewrite_found hstored hservice hid hsmall
    exact ⟨st, hrun, hskip, hsection.trans (sdtEntry_eq_expected.mpr hflags), honly⟩

end stored

/-- A service without EIT, described by a `service_descriptor`. -/
def tvService : SdtService where
  head := [0x00, 0x01, 0xfc, 0x80, 0x07]
  descriptors := [[0x48, 0x05, 0x01, 0x01, 0x41, 0x01, 0x42]]
  headLength := rfl
  loopLength := by decide
  isDescriptor := by
    intro d hd
    rw [List.mem_singleton] at hd
    subst hd
    exact ⟨by decide, by decide⟩

/-- The SDT of a transport stream with that service only. -/
def tvSdt : SdtSection where
  header := [0x42, 0xf0, 0x18, 0x00, 0x01, 0xc1, 0x00, 0x00, 0x00, 0x01, 0xff]
  services := [tvService]
  crc := [0x7f, 0x45, 0x7a, 0x9c]
  headerLength := rfl
  crcLength := rfl
  actual := rfl
  size := by decide
  atMost := by decide
  crcValid := by decide +kernel

def tvVars (forceEit : OptionStatus) : RewriteParameters :=
  { initRewrV with
    sdtForceEit := forceEit
    fullSdt := { zeroed with dataFull := ⟨tvSdt.bytes ++ List.replicate 4069 0, by
      rw [List.length_append, List.length_replicate]
      rfl⟩ } }

def tvChannel : MumudvbChannel := { zeroedChannel with serviceId := 1 }

theorem tvSdt_stored (forceEit : OptionStatus) : Stored tvSdt (tvVars forceEit) := ⟨_, rfl⟩

theorem tvService_only : OnlyService tvSdt tvService tvChannel :=
  ⟨by decide, [], [], rfl, by simp⟩

/-- With the option on, the service is kept with both flags set. -/
theorem keepsService_tv : KeepsService (tvVars .on) tvChannel zeroPacket tvSdt tvService :=
  (keepsService_iff (tvSdt_stored .on) tvService_only).mpr
    ⟨by decide, by decide, fun h => by cases h⟩

/-- With the option off they are set as well, although the service has no EIT. -/
theorem not_keepsService_tv_off :
    Stored tvSdt (tvVars .off) ∧ OnlyService tvSdt tvService tvChannel ∧
      tsHeaderLen + sdtLen + sdtDescrLen + tvService.kept.length + 4 ≤ tsPacketSize ∧
      ¬ KeepsService (tvVars .off) tvChannel zeroPacket tvSdt tvService := by
  refine ⟨tvSdt_stored .off, tvService_only, by decide, ?_⟩
  rintro ⟨st, hrun, _, hsection, _⟩
  obtain ⟨st', hrun', _, hsection', _⟩ := @sdtChannelRewrite_found _ _ zeroPacket _ _
    (tvSdt_stored .off) tvService_only (by decide) (by decide)
  rw [hrun'] at hrun
  cases hrun
  have hflags := sdtEntry_eq_expected.mp (hsection'.symm.trans hsection) rfl
  exact absurd hflags (by decide)

end MuMuDVB.RewriteSdt
