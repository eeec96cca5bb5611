import MuMuDVB.RecordedRun
import MuMuDVB.RewritePat

/-!
# The stored PAT

`pat_rewrite_new_global_packet` keeps the PAT in the buffer that
`get_ts_packet` hands its sections out in, and goes on taking sections after
it has stored one. What the fields of the PAT memory are after a call is a
fold over the sections that the call takes.
-/
namespace MuMuDVB.PatStore

open CheckedMemory RecordedRun MuMuDVB.TsHeader MuMuDVB.Ts MuMuDVB.TsAssembler
open MuMuDVB.TsRefinement MuMuDVB.Channel MuMuDVB.RewriteSection MuMuDVB.RewritePat

/-- The fields that say which PAT is stored. -/
structure PatMemory where
  data : List UInt8
  len : Nat
  version : Int
  needsUpdate : Bool
  ok : Bool

def patMemory (vars : RewriteParameters) : PatMemory :=
  ⟨vars.fullPat.dataFull.cells, vars.fullPat.lenFull, vars.patVersion, vars.patNeedsUpdate,
    vars.fullPatOk⟩

/-- The section in `data_full`. -/
def PatMemory.section (m : PatMemory) : List UInt8 := m.data.take m.len

/-- A section is handed out: it is copied over the last one and, when the byte at its place says
that it is current, taken for the PAT. -/
def PatMemory.deliver (m : PatMemory) (s : List UInt8) : PatMemory :=
  let data := splice m.data 0 s
  if currentNextIndicator data = 0 then { m with data := data, len := s.length }
  else ⟨data, s.length, versionNumber data, false, true⟩

/-- What `data_full` holds after each of the sections. -/
def reads (data : List UInt8) : List (List UInt8) → List (List UInt8)
  | [] => []
  | s :: later => splice data 0 s :: reads (splice data 0 s) later

/-- The sections that the loop of `pat_rewrite_new_global_packet` takes. -/
def patSections (mem : TableMemory) (vars : RewriteParameters) : Checked (List (List UInt8)) := do
  let vars ← patCheckUpdate vars mem
  if vars.patNeedsUpdate then do
    let (sections, _) ← takeSections takeFuel (some mem.packet) vars.fullPat
    return sections
  else return []

inductive Event where
  | global (mem : TableMemory) (sections : List (List UInt8))
  | packet (channel : MumudvbChannel) (buf : Packet)

inductive Step : RewriteParameters → Event → RewriteParameters → Prop where
  | global {vars vars' : RewriteParameters} {mem : TableMemory} {sections : List (List UInt8)}
      (call : patRewriteNewGlobalPacket mem vars = .ok vars')
      (taken : patSections mem vars = .ok sections) : Step vars (.global mem sections) vars'
  | packet {vars : RewriteParameters} {channel : MumudvbChannel} {buf : Packet} {sent : Bool}
      {st : RewriteState} (call : patRewriteNewChannelPacket vars channel buf = .ok (sent, st)) :
      Step vars (.packet channel buf) st.vars

/-- The packets on PID 0, each for the whole and for any of the channels. -/
def patSystem : System RewriteParameters Event :=
  ⟨fun vars => vars = { initRewrV with rewritePat := .on }, Step⟩

/-- Section `s` was received whole. -/
def Broadcast (past : List Event) (s : List UInt8) : Prop :=
  ∃ mem sections, .global mem sections ∈ past ∧ s ∈ sections

/-- What is to hold of the stored PAT. -/
structure Applicable (past : List Event) (m : PatMemory) : Prop where
  broadcast : Broadcast past m.section
  accepted : Accepted m.section
  current : currentNextIndicator m.section = 1
  version : (versionNumber m.section : Int) = m.version

/-- A PAT is stored and no other one is awaited. -/
def Holds (past : List Event) (vars : RewriteParameters) : Prop :=
  vars.fullPatOk = true → vars.patNeedsUpdate = false → Applicable past (patMemory vars)

/-- A call of `pat_channel_rewrite` is made for the channel. -/
structure Rewrites (vars : RewriteParameters) (channel : MumudvbChannel) : Prop where
  stored : vars.fullPatOk = true
  current : vars.patNeedsUpdate = false
  ready : channel.channelReady.isReady = true
  outdated : channel.generatedPatVersion ≠ vars.patVersion

/-- The condition on a step. Of the sections that a call takes none is read as current, or the
last one is current. A PAT from which a channel's is made is a single section: the making writes
the section numbers 0 into it. -/
def Event.Keeps (vars : RewriteParameters) : Event → Prop
  | .global _ sections =>
    (∀ data ∈ reads vars.fullPat.dataFull.cells sections, currentNextIndicator data = 0) ∨
      ∃ s, sections.getLast? = some s ∧ currentNextIndicator s = 1
  | .packet channel _ => Rewrites vars channel →
      sectionNumber vars.fullPat.dataFull.cells = 0 ∧
        lastSectionNumber vars.fullPat.dataFull.cells = 0

def keepingSystem : System RewriteParameters Event := patSystem.restrict fun vars e => e.Keeps vars

variable {vars vars' : RewriteParameters} {m : PatMemory}

/-- The header of a section that is long enough is what `data_full` begins with. -/
theorem byteAt_splice {s data : List UInt8} {i : Nat} (hi : i < s.length) :
    byteAt (splice data 0 s) i = byteAt s i := by
  rw [splice, List.take_zero, List.nil_append, byteAt_append_left hi]

theorem length_of_current {s : List UInt8} (h : currentNextIndicator s = 1) : 5 < s.length := by
  by_contra hshort
  rw [currentNextIndicator, byteAt, List.getD_eq_getElem?_getD,
    List.getElem?_eq_none (by omega)] at h
  cases h

/-- A current section is read as what it is. -/
theorem reads_current {s data : List UInt8} (h : currentNextIndicator s = 1) :
    currentNextIndicator (splice data 0 s) = 1 ∧
      versionNumber (splice data 0 s) = versionNumber s := by
  have hlen := length_of_current h
  rw [currentNextIndicator, versionNumber, byteAt_splice hlen]
  exact ⟨h, rfl⟩

theorem deliver_section (s : List UInt8) : (m.deliver s).section = s := by
  rw [PatMemory.deliver, PatMemory.section]
  split <;> exact take_splice_zero _ _

theorem deliver_data (s : List UInt8) : (m.deliver s).data = splice m.data 0 s := by
  rw [PatMemory.deliver]
  split <;> rfl

/-- Sections that are not current leave the rest of the PAT memory. -/
theorem foldl_deliver_none {sections : List (List UInt8)}
    (h : ∀ data ∈ reads m.data sections, currentNextIndicator data = 0) :
    (sections.foldl PatMemory.deliver m).needsUpdate = m.needsUpdate ∧
      (sections.foldl PatMemory.deliver m).ok = m.ok := by
  induction sections generalizing m with
  | nil => exact ⟨rfl, rfl⟩
  | cons s later ih =>
    have hs : currentNextIndicator (splice m.data 0 s) = 0 := h _ List.mem_cons_self
    have hlater := @ih (m.deliver s) (by
      rw [deliver_data]
      exact fun data hdata => h data (List.mem_cons_of_mem _ hdata))
    rw [List.foldl_cons, hlater.1, hlater.2, PatMemory.deliver]
    simp only [hs, if_true, and_self]

/-- A stored PAT stays one, whatever is handed out after it. -/
theorem foldl_deliver_stored {sections : List (List UInt8)} (hneeds : m.needsUpdate = false)
    (hok : m.ok = true) :
    (sections.foldl PatMemory.deliver m).needsUpdate = false ∧
      (sections.foldl PatMemory.deliver m).ok = true := by
  induction sections generalizing m with
  | nil => exact ⟨hneeds, hok⟩
  | cons s later ih =>
    rw [List.foldl_cons]
    apply ih
    · rw [PatMemory.deliver]
      split
      · exact hneeds
      · rfl
    · rw [PatMemory.deliver]
      split
      · exact hok
      · rfl

theorem foldl_deliver_some {sections : List (List UInt8)}
    (h : ∃ data ∈ reads m.data sections, currentNextIndicator data ≠ 0) :
    (sections.foldl PatMemory.deliver m).needsUpdate = false ∧
      (sections.foldl PatMemory.deliver m).ok = true := by
  induction sections generalizing m with
  | nil =>
    obtain ⟨data, hdata, _⟩ := h
    cases hdata
  | cons s later ih =>
    obtain ⟨data, hdata, hcurrent⟩ := h
    rw [List.foldl_cons]
    rcases List.mem_cons.mp hdata with rfl | hdata
    · apply foldl_deliver_stored
      · simp only [PatMemory.deliver, if_neg hcurrent]
      · simp only [PatMemory.deliver, if_neg hcurrent]
    · exact ih ⟨data, by rw [deliver_data]; exact hdata, hcurrent⟩

/-- The last section handed out is the one in `data_full`. -/
theorem foldl_deliver_last {sections : List (List UInt8)} {s : List UInt8}
    (h : sections.getLast? = some s) : (sections.foldl PatMemory.deliver m).section = s ∧
      (currentNextIndicator s = 1 →
        (sections.foldl PatMemory.deliver m).version = versionNumber s) := by
  obtain ⟨before, rfl⟩ := List.getLast?_eq_some_iff.mp h
  rw [List.foldl_append, List.foldl_cons, List.foldl_nil]
  refine ⟨deliver_section s, fun hcurrent => ?_⟩
  obtain ⟨hread, hversion⟩ := @reads_current _ (before.foldl PatMemory.deliver m).data hcurrent
  simp only [PatMemory.deliver, hread, hversion, Nat.one_ne_zero, if_false]

theorem reads_nonempty {data d : List UInt8} {sections : List (List UInt8)}
    (h : d ∈ reads data sections) : ∃ s, sections.getLast? = some s := by
  cases sections with
  | nil => cases h
  | cons s later => exact ⟨_, List.getLast?_eq_some_getLast (List.cons_ne_nil s later)⟩

/-- A PAT that was awaited is applicable after the sections exactly when the condition holds. -/
theorem foldl_deliver_iff {past : List Event} {sections : List (List UInt8)}
    (hneeds : m.needsUpdate = true)
    (hsections : ∀ s ∈ sections, Broadcast past s ∧ Accepted s) :
    ((sections.foldl PatMemory.deliver m).ok = true →
        (sections.foldl PatMemory.deliver m).needsUpdate = false →
        Applicable past (sections.foldl PatMemory.deliver m)) ↔
      (∀ data ∈ reads m.data sections, currentNextIndicator data = 0) ∨
        ∃ s, sections.getLast? = some s ∧ currentNextIndicator s = 1 := by
  constructor
  · intro happlicable
    by_contra hnot
    rw [not_or] at hnot
    obtain ⟨hsome, hlast⟩ := hnot
    obtain ⟨data, hdata, hcurrent⟩ : ∃ data ∈ reads m.data sections,
        currentNextIndicator data ≠ 0 := by simpa using hsome
    obtain ⟨hneeds', hok⟩ := foldl_deliver_some ⟨data, hdata, hcurrent⟩
    obtain ⟨s, hs⟩ := reads_nonempty hdata
    refine hlast ⟨s, hs, ?_⟩
    rw [← (foldl_deliver_last (m := m) hs).1]
    exact (happlicable hok hneeds').current
  · rintro (hnone | ⟨s, hs, hcurrent⟩) hok hneeds'
    · rw [(foldl_deliver_none hnone).1, hneeds] at hneeds'
      cases hneeds'
    · obtain ⟨hsection, hversion⟩ := foldl_deliver_last (m := m) hs
      obtain ⟨hbroadcast, haccepted⟩ := hsections s (List.mem_of_getLast? hs)
      refine ⟨?_, ?_, ?_, ?_⟩ <;> rw [hsection]
      · exact hbroadcast
      · exact haccepted
      · exact hcurrent
      · exact (hversion hcurrent).symm

/-- What holds of the arrays at every call. -/
structure Ready (vars : RewriteParameters) : Prop where
  rep : RepInvariant vars.fullPat
  sound : Sound (view vars.fullPat)

/-- One turn of the loop on a section that is handed out. -/
theorem patGlobalLoop_turn (h : Ready vars) {fuel : Nat} {buf : Option Packet}
    {fullPat : MumudvbTsPacket} (hget : getTsPacket buf vars.fullPat = .ok (true, fullPat))
    {s : List UInt8} (hs : (view vars.fullPat).store.head? = some s) :
    ∃ vars₁, patGlobalLoop (fuel + 1) buf vars = patGlobalLoop fuel none vars₁ ∧
      vars₁.fullPat = fullPat ∧ patMemory vars₁ = (patMemory vars).deliver s := by
  obtain ⟨hdata, hlen⟩ := getTsPacket_dataFull h.rep hget hs
  rw [patGlobalLoop, hget, bind_ok]
  simp only [if_true]
  refine ⟨_, rfl, ?_, ?_⟩
  · split <;> rfl
  · by_cases hcurrent : currentNextIndicator (splice vars.fullPat.dataFull.cells 0 s) = 0
    · simp [patMemory, PatMemory.deliver, hdata, hlen, hcurrent]
    · simp [patMemory, PatMemory.deliver, updatePatVersion, hdata, hlen, hcurrent]

/-- The loop takes the whole store, and hands it to the PAT memory in order. -/
theorem patGlobalLoop_drain (h : Ready vars) (fuel : Nat)
    (hfuel : (view vars.fullPat).store.length < fuel) :
    ∃ vars', patGlobalLoop fuel none vars = .ok vars' ∧ Ready vars' ∧
      (∃ pkt, takeSections fuel none vars.fullPat = .ok ((view vars.fullPat).store, pkt)) ∧
      patMemory vars' = (view vars.fullPat).store.foldl PatMemory.deliver (patMemory vars) := by
  induction fuel generalizing vars with
  | zero => omega
  | succ fuel ih =>
    obtain ⟨fullPat, hget, hrep, hview, hs⟩ := getTsPacket_spec h.rep none
    have hsound : Sound (view fullPat) := by
      rw [hview]
      exact h.sound.call none
    cases hstore : (view vars.fullPat).store with
    | nil =>
      have hcall : ((view vars.fullPat).call none).1 = false := by simp [Assembler.call, hstore]
      rw [hcall] at hget
      have hsame : fullPat = vars.fullPat := by
        rw [getTsPacket, bind_eq_ok] at hget
        obtain ⟨⟨popped, pkt₁⟩, hpop, hget⟩ := hget
        cases hget
        rcases popFull_frame hpop with ⟨_, hsame⟩ | ⟨htrue, _⟩
        · exact hsame
        · cases htrue
      rw [patGlobalLoop, hget, bind_ok]
      refine ⟨_, rfl, ⟨hrep, hsound⟩, ⟨fullPat, ?_⟩, ?_⟩
      · rw [takeSections, hget]
        rfl
      · rw [hsame]
        rfl
    | cons s later =>
      have hcall : ((view vars.fullPat).call none).1 = true := by simp [Assembler.call, hstore]
      rw [hcall] at hget
      have hhead : (view vars.fullPat).store.head? = some s := by rw [hstore]; rfl
      obtain ⟨vars₁, hturn, hfull, hmemory⟩ := patGlobalLoop_turn h hget hhead
      have hpop : (view vars₁.fullPat).store = later := by
        rw [hfull, hview, Assembler.call, Assembler.pop, hstore, List.tail_cons]
      have hready₁ : Ready vars₁ := ⟨by rw [hfull]; exact hrep, by rw [hfull]; exact hsound⟩
      rw [hstore, List.length_cons] at hfuel
      obtain ⟨vars', hloop, hready, ⟨pkt, htake⟩, hfold⟩ := ih hready₁ (by rw [hpop]; omega)
      refine ⟨vars', by rw [hturn, hloop], hready, ⟨pkt, ?_⟩, ?_⟩
      · rw [hpop, hfull] at htake
        have hfirst : fullPat.dataFull.cells.take fullPat.lenFull = s := hs s hhead
        rw [takeSections, hget, bind_ok]
        simp only [if_true, htake, bind_ok, hfirst]
        rfl
      · rw [hfold, hpop, hmemory, List.foldl_cons]

/-- The call on a packet: nothing is taken, and the PAT that is awaited stays awaited, or the
sections that are taken go to the PAT memory. -/
theorem patGlobalLoop_packet (h : Ready vars) (p : Packet) :
    ∃ sections vars', patGlobalLoop takeFuel (some p) vars = .ok vars' ∧ Ready vars' ∧
      (∃ pkt, takeSections takeFuel (some p) vars.fullPat = .ok (sections, pkt)) ∧
      (∀ s ∈ sections, Accepted s) ∧
      (sections = [] ∧ vars'.patNeedsUpdate = vars.patNeedsUpdate ∨
        patMemory vars' = sections.foldl PatMemory.deliver (patMemory vars)) := by
  obtain ⟨fullPat, hget, hrep, hview, hs⟩ := getTsPacket_spec h.rep (some p)
  have hsound : Sound (view fullPat) := by
    rw [hview]
    exact h.sound.call (some p)
  cases hcall : ((view vars.fullPat).call (some p)).1 with
  | false =>
    rw [hcall] at hget
    refine ⟨[], { vars with fullPat := fullPat }, ?_, ⟨hrep, hsound⟩, ⟨fullPat, ?_⟩, by simp,
      Or.inl ⟨rfl, rfl⟩⟩
    · rw [takeFuel, patGlobalLoop, hget]
      rfl
    · rw [takeFuel, takeSections, hget]
      rfl
  | true =>
    rw [hcall] at hget
    obtain ⟨s, later, hstore⟩ := List.exists_cons_of_ne_nil (call_avail hcall)
    have hhead : (view vars.fullPat).store.head? = some s := by rw [hstore]; rfl
    obtain ⟨vars₁, hturn, hfull, hmemory⟩ := patGlobalLoop_turn h hget hhead
    have hready₁ : Ready vars₁ := ⟨by rw [hfull]; exact hrep, by rw [hfull]; exact hsound⟩
    have hmax := hready₁.rep.fullNumber
    obtain ⟨vars', hloop, hready, ⟨pkt, htake⟩, hfold⟩ := patGlobalLoop_drain hready₁ 16
      (by rw [length_store hready₁.rep.toStoreInvariant]; omega)
    refine ⟨s :: (view fullPat).store, vars', ?_, hready, ⟨pkt, ?_⟩, ?_, Or.inr ?_⟩
    · rw [takeFuel, hturn, hloop]
    · rw [hfull] at htake
      have hfirst : fullPat.dataFull.cells.take fullPat.lenFull = s := hs s hhead
      rw [takeFuel, takeSections, hget, bind_ok]
      simp only [if_true, htake, bind_ok, hfirst]
      rfl
    · intro t ht
      rcases List.mem_cons.mp ht with rfl | ht
      · exact (h.sound.stored t (by rw [hstore]; exact List.mem_cons_self)).1
      · exact (hsound.stored t ht).1
    · rw [hfold, hfull, hmemory, List.foldl_cons]

theorem Broadcast.later {past : List Event} {s : List UInt8} (h : Broadcast past s) (e : Event) :
    Broadcast (e :: past) s := by
  obtain ⟨mem, sections, hmem, hs⟩ := h
  exact ⟨mem, sections, List.mem_cons_of_mem _ hmem, hs⟩

theorem Applicable.later {past : List Event} (h : Applicable past m) (e : Event) :
    Applicable (e :: past) m :=
  ⟨h.broadcast.later e, h.accepted, h.current, h.version⟩

/-- What the check for an update changes. -/
theorem patCheckUpdate_eq {mem : TableMemory} (h : patCheckUpdate vars mem = .ok vars') :
    vars' = { vars with patNeedsUpdate := vars'.patNeedsUpdate } ∧
      (vars'.patNeedsUpdate = false → vars.patNeedsUpdate = false) := by
  rw [patCheckUpdate] at h
  split at h
  case isTrue => cases h; exact ⟨rfl, fun h => h⟩
  case isFalse hneeds =>
    rw [bind_eq_ok] at h
    obtain ⟨needsUpdate, _, h⟩ := h
    cases h
    exact ⟨rfl, fun _ => by simpa using hneeds⟩

/-- After a call on a packet the stored PAT is applicable exactly when the condition holds. -/
theorem global_iff {past : List Event} {mem : TableMemory} {sections : List (List UInt8)}
    (h : Ready vars) (hholds : Holds past vars)
    (hcall : patRewriteNewGlobalPacket mem vars = .ok vars')
    (htaken : patSections mem vars = .ok sections) :
    Ready vars' ∧ (Holds (.global mem sections :: past) vars' ↔
      (Event.global mem sections).Keeps vars) := by
  rw [patRewriteNewGlobalPacket, bind_eq_ok] at hcall
  obtain ⟨vars₁, hcheck, hcall⟩ := hcall
  rw [patSections, hcheck, bind_ok] at htaken
  obtain ⟨hsame, hneeds⟩ := patCheckUpdate_eq hcheck
  cases hawaited : vars₁.patNeedsUpdate with
  | false =>
    rw [hawaited] at hcall htaken hsame
    cases hcall
    cases htaken
    have hready : Ready vars₁ := by
      rw [hsame]
      exact ⟨h.rep, h.sound⟩
    refine ⟨⟨hready.rep, hready.sound⟩, fun _ => Or.inl (by simp [reads]), fun _ hok _ => ?_⟩
    have hmemory : patMemory vars₁ = patMemory vars := by
      rw [hsame, patMemory, patMemory, hneeds hawaited]
    have hok' : vars.fullPatOk = true := by
      rw [← hok, hsame]
    have happlicable := (hholds hok' (hneeds hawaited)).later (.global mem [])
    rw [← hmemory] at happlicable
    exact happlicable
  | true =>
    rw [hawaited] at hcall htaken
    have hready₁ : Ready vars₁ := by
      rw [hsame]
      exact ⟨h.rep, h.sound⟩
    have hfull : vars₁.fullPat = vars.fullPat := by rw [hsame]
    obtain ⟨sections', vars₂, hloop, hready₂, ⟨pkt, htake⟩, haccepted, hcase⟩ :=
      patGlobalLoop_packet hready₁ mem.packet
    simp only [if_true, hloop, bind_ok] at hcall
    simp only [if_true, htake, bind_ok] at htaken
    cases hcall
    cases htaken
    refine ⟨⟨hready₂.rep, hready₂.sound⟩, ?_⟩
    rcases hcase with ⟨rfl, hstill⟩ | hfold
    · have htrue : vars₂.patNeedsUpdate = true := by rw [hstill, hawaited]
      exact ⟨fun _ => Or.inl (by simp [reads]), fun _ _ hfalse => absurd (htrue.symm.trans hfalse)
        (by decide)⟩
    · have hiff := @foldl_deliver_iff (patMemory vars₁) (.global mem sections :: past) sections hawaited
        fun s hs => ⟨⟨mem, sections, List.mem_cons_self, hs⟩, haccepted s hs⟩
      rw [← hfold, patMemory, patMemory, hfull] at hiff
      exact hiff

/-- What a call for a channel does to the stored PAT. -/
theorem patRewriteNewChannelPacket_vars {channel : MumudvbChannel} {buf : Packet} {sent : Bool}
    {st : RewriteState} (h : patRewriteNewChannelPacket vars channel buf = .ok (sent, st)) :
    st.vars = vars ∨ Rewrites vars channel ∧ st.vars = { vars with fullPat :=
      { vars.fullPat with dataFull := onlySectionAt vars.fullPat.dataFull 0 } } := by
  rw [patRewriteNewChannelPacket] at h
  split at h
  case isTrue hok =>
    rw [bind_eq_ok] at h
    obtain ⟨⟨rewritten, st₁⟩, hfirst, h⟩ := h
    have hst : st.vars = st₁.vars := by
      dsimp only at h
      split at h
      · split at h <;> cases h <;> rfl
      · cases h
        rfl
    rw [hst]
    split at hfirst
    case isTrue hguard =>
      rw [bind_eq_ok] at hfirst
      obtain ⟨⟨r, st₂⟩, hrewrite, hfirst⟩ := hfirst
      rw [patChannelRewrite] at hrewrite
      simp only [bind_eq_ok, pure_ok, Except.ok.injEq, Prod.mk.injEq] at hrewrite
      obtain ⟨_, _, _, _, _, _, _, _, rfl, rfl⟩ := hrewrite
      cases hfirst
      exact Or.inr ⟨⟨hok, hguard.1, hguard.2.1, hguard.2.2⟩, rfl⟩
    case isFalse =>
      cases hfirst
      exact Or.inl rfl
  case isFalse =>
    cases h
    exact Or.inl rfl

theorem set_byteAt {xs : List UInt8} {i : Nat} {b : UInt8} (h : byteAt xs i = b)
    (hi : i < xs.length) : xs.set i b = xs := by
  have hget : xs[i] = b := by
    rw [← h, byteAt, List.getD_eq_getElem?_getD, List.getElem?_eq_getElem hi, Option.getD_some]
  rw [← hget, List.set_getElem_self]

theorem or_one_of_odd {x : UInt8} (h : x.toNat % 2 = 1) : x ||| 1 = x := by
  have hall : ∀ n < 256, n % 2 = 1 → n ||| 1 = n := by decide +kernel
  rw [← UInt8.toNat_inj, UInt8.toNat_or]
  exact hall x.toNat x.toNat_lt h

/-- A table header that is current, section 0 of 0, is not changed by the rewriting. -/
theorem makeOnlySection_of_single {data : List UInt8} (hlen : 8 ≤ data.length)
    (hcurrent : currentNextIndicator data = 1) (hnumber : sectionNumber data = 0)
    (hlast : lastSectionNumber data = 0) : makeOnlySection data = data := by
  have hzero : ∀ b : UInt8, b.toNat = 0 → b = 0 := fun b hb => UInt8.toNat_inj.mp hb
  rw [makeOnlySection, set_byteAt (or_one_of_odd hcurrent).symm (by omega),
    set_byteAt (hzero _ hnumber) (by omega), set_byteAt (hzero _ hlast) (by omega)]

/-- A call for a channel that meets the condition leaves the stored PAT. -/
theorem packet_keeps {past : List Event} {channel : MumudvbChannel} {buf : Packet} {sent : Bool}
    {st : RewriteState} (h : Ready vars) (hholds : Holds past vars)
    (hkeeps : (Event.packet channel buf).Keeps vars)
    (hcall : patRewriteNewChannelPacket vars channel buf = .ok (sent, st)) :
    Ready st.vars ∧ Holds (.packet channel buf :: past) st.vars := by
  rcases patRewriteNewChannelPacket_vars hcall with hsame | ⟨hrewrites, hvars⟩
  · rw [hsame]
    exact ⟨h, fun hok hneeds => (hholds hok hneeds).later _⟩
  · have happlicable := hholds hrewrites.stored hrewrites.current
    obtain ⟨hnumber, hlast⟩ := hkeeps hrewrites
    have hcurrent : currentNextIndicator vars.fullPat.dataFull.cells = 1 := by
      have hsection := happlicable.current
      have hlen := length_of_current hsection
      rw [PatMemory.section, patMemory, List.length_take] at hlen
      rw [currentNextIndicator, PatMemory.section, patMemory, byteAt_take (by omega)] at hsection
      exact hsection
    have hcells := vars.fullPat.dataFull.length_cells
    have honly : onlySectionAt vars.fullPat.dataFull 0 = vars.fullPat.dataFull := by
      ext1
      rw [onlySectionAt_zero]
      exact makeOnlySection_of_single (by rw [hcells]; decide) hcurrent hnumber hlast
    rw [hvars, honly]
    exact ⟨h, fun hok hneeds => (hholds hok hneeds).later _⟩

/-- What holds in every run whose steps meet the condition. -/
structure RunInv (past : List Event) (vars : RewriteParameters) : Prop where
  ready : Ready vars
  holds : Holds past vars

theorem runInv {past : List Event} (hrun : Run keepingSystem past vars) : RunInv past vars := by
  refine hrun.invariant (fun vars hinitial => ?_) fun past vars e vars' h hstep => ?_
  · rw [show vars = { initRewrV with rewritePat := .on } from hinitial]
    exact ⟨⟨zeroed_repInvariant, sound_empty⟩, fun hok _ => by cases hok⟩
  · obtain ⟨hkeeps, hstep⟩ := hstep
    cases hstep with
    | global call taken =>
      obtain ⟨hready, hiff⟩ := global_iff h.ready h.holds call taken
      exact ⟨hready, hiff.mpr hkeeps⟩
    | packet call =>
      obtain ⟨hready, hholds⟩ := packet_keeps h.ready h.holds hkeeps call
      exact ⟨hready, hholds⟩

/-- In every run whose steps meet the condition the stored PAT is applicable, and after one more
packet it is exactly when that packet meets the condition too. -/
theorem storedPat_applicable_iff {past : List Event} (hrun : Run keepingSystem past vars) :
    Holds past vars ∧
      ∀ mem sections vars', patRewriteNewGlobalPacket mem vars = .ok vars' →
        patSections mem vars = .ok sections →
        (Holds (.global mem sections :: past) vars' ↔ (Event.global mem sections).Keeps vars) :=
  ⟨(runInv hrun).holds, fun _ _ _ hcall htaken =>
    (global_iff (runInv hrun).ready (runInv hrun).holds hcall htaken).2⟩

/-- A PAT that is applicable, of version 0. -/
def currentPat : List UInt8 :=
  [0x00, 0xb0, 0x0d, 0x00, 0x01, 0xc1, 0x00, 0x00, 0x00, 0x01, 0xe1, 0x00, 0xe8, 0xf9, 0x5e, 0x7d]

/-- A PAT that is not yet applicable, of version 1. -/
def nextPat : List UInt8 :=
  [0x00, 0xb0, 0x0d, 0x00, 0x01, 0xc2, 0x00, 0x00, 0x00, 0x01, 0xe2, 0x00, 0x4b, 0xeb, 0xb9, 0x9d]

theorem length_patMem {sections : List UInt8} (h : sections.length ≤ 183) :
    ([0x47, 0x40, 0x00, 0x10, 0x00] ++ sections ++
      List.replicate (191 - sections.length) 0xff : List UInt8).length = 196 := by
  simp only [List.length_append, List.length_cons, List.length_nil, List.length_replicate]
  omega

/-- A packet on PID 0 that begins with these sections. -/
def patMem (sections : List UInt8) (h : sections.length ≤ 183) : TableMemory :=
  ⟨[0x47, 0x40, 0x00, 0x10, 0x00] ++ sections ++ List.replicate (191 - sections.length) 0xff,
    length_patMem h⟩

def currentMem : TableMemory := patMem currentPat (by decide)

def bothMem : TableMemory := patMem (currentPat ++ nextPat) (by decide)

def start : RewriteParameters := { initRewrV with rewritePat := .on }

/-- The same packet twice: its sections are taken by the second call. -/
def twice (mem : TableMemory) :
    Checked (List (List UInt8) × RewriteParameters × List (List UInt8) × RewriteParameters) := do
  let first ← patSections mem start
  let vars ← patRewriteNewGlobalPacket mem start
  let second ← patSections mem vars
  let vars' ← patRewriteNewGlobalPacket mem vars
  return (first, vars, second, vars')

/-- The second call finds the sections that the first one left in the store. -/
theorem twice_run {mem : TableMemory} {first second : List (List UInt8)} {vars vars' : RewriteParameters}
    (h : twice mem = .ok (first, vars, second, vars')) :
    Step start (.global mem first) vars ∧ patRewriteNewGlobalPacket mem vars = .ok vars' ∧
      patSections mem vars = .ok second := by
  simp only [twice, bind_eq_ok] at h
  obtain ⟨first', hfirst, vars₁, hcall, second', hsecond, vars₂, hcall', h⟩ := h
  cases h
  exact ⟨.global hcall hfirst, hcall', hsecond⟩

/-- A current PAT is stored when its second packet comes. -/
theorem storedPat_current : ∃ vars vars', Run keepingSystem [.global currentMem []] vars ∧
    patRewriteNewGlobalPacket currentMem vars = .ok vars' ∧
    patSections currentMem vars = .ok [currentPat, currentPat] ∧ vars'.fullPatOk = true ∧
    vars'.patNeedsUpdate = false ∧
    Holds [.global currentMem [currentPat, currentPat], .global currentMem []] vars' := by
  have h : (twice currentMem).map (fun r => (r.1, r.2.2.1, r.2.2.2.fullPatOk,
      r.2.2.2.patNeedsUpdate)) = .ok ([], [currentPat, currentPat], true, false) := by
    decide +kernel
  obtain ⟨⟨first, vars, second, vars'⟩, htwice, hvalues⟩ := map_eq_ok h
  simp only [Prod.mk.injEq] at hvalues
  obtain ⟨rfl, rfl, hok, hneeds⟩ := hvalues
  obtain ⟨hstep, hcall, htaken⟩ := twice_run htwice
  have hrun : Run keepingSystem [.global currentMem []] vars :=
    .next (.start rfl) ⟨Or.inl (by simp [reads]), hstep⟩
  refine ⟨vars, vars', hrun, hcall, htaken, hok, hneeds, ?_⟩
  exact ((storedPat_applicable_iff hrun).2 currentMem _ vars' hcall htaken).mpr
    (Or.inr ⟨currentPat, rfl, by decide⟩)

/-- The sections of the two packets in turn, the last of which is not yet applicable. -/
def bothTwice : List (List UInt8) := [currentPat, nextPat, currentPat, nextPat]

/-- A PAT that is not yet applicable comes in the same packet, behind the current one. -/
theorem not_applicable_both : ∃ vars, Run patSystem
    [.global bothMem bothTwice, .global bothMem []] vars ∧ vars.fullPatOk = true ∧
    vars.patNeedsUpdate = false ∧ (patMemory vars).section = nextPat ∧
    ¬ Holds [.global bothMem bothTwice, .global bothMem []] vars := by
  have h : (twice bothMem).map (fun r => ((r.1, r.2.2.1), r.2.2.2.fullPatOk,
      r.2.2.2.patNeedsUpdate, (patMemory r.2.2.2).section)) =
      .ok (([], bothTwice), true, false, nextPat) := by decide +kernel
  obtain ⟨⟨first, vars, second, vars'⟩, htwice, hvalues⟩ := map_eq_ok h
  simp only [Prod.mk.injEq] at hvalues
  obtain ⟨⟨rfl, rfl⟩, hok, hneeds, hsection⟩ := hvalues
  obtain ⟨hstep, hcall, htaken⟩ := twice_run htwice
  refine ⟨vars', .next (.next (.start rfl) hstep) (.global hcall htaken), hok, hneeds, hsection,
    fun hholds => ?_⟩
  have hcurrent := (hholds hok hneeds).current
  rw [hsection] at hcurrent
  exact absurd hcurrent (by decide)

end MuMuDVB.PatStore
