import MuMuDVB.CString
import MuMuDVB.RecordedRun

/-!
# The answers to the enquiries of the CAM

The CAM asks the user for a number of characters. Each key comes with a request
of its own and is put behind the ones before it, and the answer is sent when
there are as many as expected. The requests and what the CAM does come in any
order. The texts for the menu page are left out.
-/
namespace MuMuDVB.CamEnquiries

open CheckedMemory CString RecordedRun

/-- `MMI_STATE_CLOSED`, `MMI_STATE_OPEN`, `MMI_STATE_ENQ` and `MMI_STATE_MENU`. -/
inductive MmiState where
  | closed | opened | enq | menu
  deriving DecidableEq

/-- What is sent to the CAM. -/
inductive Message where
  | menuAnsw (choice : Nat)
  | entermenu
  | answer (bytes : List UInt8)
  | cancel
  deriving DecidableEq

@[simp] abbrev maxEnquiryAnswerLength : Nat := 20

@[simp] abbrev answerSize : Nat := 10

/-- The part of `cam_p_t` that has to do with the menus, and what the last step has sent. -/
structure CamState where
  caResourceConnected : Bool
  camMmiAutoresponse : Bool
  mmiState : MmiState
  mmiEnqBlind : UInt8
  mmiEnqLength : Nat
  mmiEnqEntered : Nat
  mmiEnqAnswer : Buffer UInt8 answerSize
  sent : List Message

/-- `init_cam_v` -/
def initial : CamState := ⟨false, true, .closed, 0, 0, 0, Buffer.fill answerSize 0, []⟩

section steps

variable (s : CamState)

def CamState.send (message : Message) : CamState :=
  { s with sent := s.sent ++ [message], mmiState := .opened }

/-- `mumudvb_cam_mmi_enq_callback` -/
def mmiEnqCallback (blindAnswer expectedAnswerLength : UInt8) : CamState :=
  let s := { s with
    mmiEnqBlind := blindAnswer
    mmiEnqLength := min expectedAnswerLength.toNat maxEnquiryAnswerLength
    mmiEnqEntered := 0 }
  if s.camMmiAutoresponse then s.send .cancel else { s with mmiState := .enq }

/-- What the callback for menus and lists does at its end. -/
def mmiMenuCallback : CamState :=
  if s.camMmiAutoresponse then s.send (.menuAnsw 0) else { s with mmiState := .menu }

/-- `mumudvb_cam_mmi_display_control_callback`, asked for the high level mode or for another. -/
def mmiDisplayControlCallback (highLevel : Bool) : CamState :=
  if highLevel then { s with mmiState := .opened } else s

/-- A number for a menu. -/
def menuKey (iKey : UInt8) : CamState :=
  if s.mmiState = .menu ∧ isDigit iKey then s.send (.menuAnsw (iKey.toNat - 48)) else s

/-- `'M'` -/
def entermenuKey (iKey : UInt8) : CamState := if iKey = 77 then s.send .entermenu else s

/-- A number for an enquiry. -/
def enquiryKey (iKey : UInt8) : Checked CamState :=
  if s.mmiState = .enq ∧ isDigit iKey then do
    let mmiEnqAnswer ← s.mmiEnqAnswer.write s.mmiEnqEntered [iKey]
    let s := { s with mmiEnqAnswer, mmiEnqEntered := s.mmiEnqEntered + 1 }
    if s.mmiEnqEntered = s.mmiEnqLength then do
      let bytes ← s.mmiEnqAnswer.slice 0 s.mmiEnqEntered
      return s.send (.answer bytes)
    else return s
  else return s

/-- `'C'` -/
def cancelKey (iKey : UInt8) : CamState :=
  if s.mmiState = .enq ∧ iKey = 67 then s.send .cancel else s

/-- `unicast_send_cam_action`, when there is memory for the reply. -/
def unicastSendCamAction (iKey : UInt8) : Checked CamState :=
  if isDigit iKey ∨ iKey = 77 ∨ iKey = 67 ∨ iKey = 79 then
    if s.caResourceConnected then do
      let s := { s with camMmiAutoresponse := false }
      let s ← enquiryKey (entermenuKey (menuKey s iKey) iKey) iKey
      return cancelKey s iKey
    else return s
  else return s

end steps

inductive Event where
  | enquiry (blindAnswer expectedAnswerLength : UInt8)
  | menu
  | displayControl (highLevel : Bool)
  | close
  /-- the delay behind the first message of the CAM is over -/
  | connected
  | key (iKey : UInt8)

def step (s : CamState) : Event → Checked CamState
  | .enquiry blind expected => return mmiEnqCallback { s with sent := [] } blind expected
  | .menu => return mmiMenuCallback { s with sent := [] }
  | .displayControl highLevel => return mmiDisplayControlCallback { s with sent := [] } highLevel
  | .close => return { s with sent := [], mmiState := .closed }
  | .connected => return { s with sent := [], caResourceConnected := true }
  | .key iKey => unicastSendCamAction { s with sent := [] } iKey

/-- After a write outside of the answer there are no more steps. -/
def camSystem : System (Checked CamState) Event where
  Initial s := s = .ok initial
  Step s e s' := s' = s >>= fun cam => step cam e

/-- The CAM can be asked. -/
def wasConnected : List Event → Bool
  | [] => false
  | .connected :: _ => true
  | _ :: past => wasConnected past

/-- The keys that were received since the last enquiry, the first one first. -/
def keysSince : List Event → List UInt8
  | [] => []
  | .enquiry _ _ :: _ => []
  | .key iKey :: past =>
    if isDigit iKey ∧ wasConnected past then keysSince past ++ [iKey] else keysSince past
  | _ :: past => keysSince past

/-- Every write was inside, and an answer that is sent is the keys since the last enquiry. -/
def Answers (past : List Event) (s : Checked CamState) : Prop :=
  ∃ cam, s = .ok cam ∧ ∀ bytes, .answer bytes ∈ cam.sent → bytes = keysSince past

/-- A key that is put into the answer is one of the first ten. -/
def HasRoom (s : Checked CamState) (e : Event) : Prop :=
  ∀ cam iKey, s = .ok cam → e = .key iKey → isDigit iKey → cam.caResourceConnected →
    cam.mmiState = .enq → cam.mmiEnqEntered < answerSize

/-- What an enquiry has so far. -/
structure Collected (past : List Event) (cam : CamState) : Prop where
  connected : cam.caResourceConnected = wasConnected past
  entered : cam.mmiState = .enq → cam.mmiEnqEntered = (keysSince past).length
  answer : cam.mmiState = .enq →
    cam.mmiEnqAnswer.cells.take cam.mmiEnqEntered = keysSince past

section action

variable {s s' : CamState} {iKey : UInt8} {past : List Event}

/-- A step that puts nothing into the answer. -/
structure Apart (s s' : CamState) : Prop where
  connected : s'.caResourceConnected = s.caResourceConnected
  enq : s'.mmiState = .enq → s.mmiState = .enq ∧ s'.mmiEnqEntered = s.mmiEnqEntered ∧
    s'.mmiEnqAnswer = s.mmiEnqAnswer
  sent : ∀ bytes, .answer bytes ∈ s'.sent → .answer bytes ∈ s.sent

theorem Apart.refl (s : CamState) : Apart s s := ⟨rfl, fun h => ⟨h, rfl, rfl⟩, fun _ h => h⟩

theorem Apart.trans {s₁ s₂ s₃ : CamState} (h : Apart s₁ s₂) (h' : Apart s₂ s₃) : Apart s₁ s₃ := by
  refine ⟨h'.connected.trans h.connected, fun henq => ?_, fun b hb => h.sent b (h'.sent b hb)⟩
  obtain ⟨henq₂, hentered, hanswer⟩ := h'.enq henq
  obtain ⟨henq₁, hentered', hanswer'⟩ := h.enq henq₂
  exact ⟨henq₁, hentered.trans hentered', hanswer.trans hanswer'⟩

theorem apart_send {message : Message} (h : ∀ bytes, message ≠ .answer bytes) :
    Apart s (s.send message) := by
  refine ⟨rfl, fun henq => by (cases henq), fun bytes hmem => ?_⟩
  rcases List.mem_append.mp hmem with hold | hnew
  · exact hold
  · exact absurd (List.mem_singleton.mp hnew).symm (h bytes)

theorem apart_menuKey : Apart s (menuKey s iKey) := by
  rw [menuKey]
  split
  · exact apart_send fun _ h => by cases h
  · exact .refl s

theorem apart_entermenuKey : Apart s (entermenuKey s iKey) := by
  rw [entermenuKey]
  split
  · exact apart_send fun _ h => by cases h
  · exact .refl s

theorem apart_cancelKey : Apart s (cancelKey s iKey) := by
  rw [cancelKey]
  split
  · exact apart_send fun _ h => by cases h
  · exact .refl s

theorem apart_autoresponse : Apart s { s with camMmiAutoresponse := false } :=
  ⟨rfl, fun h => ⟨h, rfl, rfl⟩, fun _ h => h⟩

/-- A key that is no number for an enquiry. -/
theorem unicastSendCamAction_apart
    (h : ¬ (isDigit iKey ∧ s.caResourceConnected ∧ s.mmiState = .enq)) :
    ∃ s', unicastSendCamAction s iKey = .ok s' ∧ Apart s s' := by
  rw [unicastSendCamAction]
  split
  case isFalse => exact ⟨s, rfl, .refl s⟩
  case isTrue =>
    split
    case isFalse => exact ⟨s, rfl, .refl s⟩
    case isTrue hconnected =>
      have hfirst : Apart s (entermenuKey (menuKey { s with camMmiAutoresponse := false } iKey)
          iKey) := (apart_autoresponse.trans apart_menuKey).trans apart_entermenuKey
      have hnot : ¬ ((entermenuKey (menuKey { s with camMmiAutoresponse := false } iKey)
          iKey).mmiState = .enq ∧ isDigit iKey) := fun hboth =>
        h ⟨hboth.2, hconnected, (hfirst.enq hboth.1).1⟩
      dsimp only
      rw [enquiryKey, if_neg hnot]
      exact ⟨_, rfl, hfirst.trans apart_cancelKey⟩

/-- A number for an enquiry. -/
theorem unicastSendCamAction_digit (hdigit : isDigit iKey) (hconnected : s.caResourceConnected)
    (henq : s.mmiState = .enq) :
    unicastSendCamAction s iKey = enquiryKey { s with camMmiAutoresponse := false } iKey := by
  have hmenu : ¬ (s.mmiState = .menu ∧ isDigit iKey) := by
    rw [henq]
    exact fun h => by cases h.1
  have hletters : iKey ≠ 77 ∧ iKey ≠ 67 := by
    constructor <;> rintro rfl <;> exact absurd hdigit (by decide)
  rw [unicastSendCamAction, if_pos (.inl hdigit), if_pos hconnected]
  dsimp only
  rw [menuKey, if_neg hmenu, entermenuKey, if_neg hletters.1]
  have hcancel : ∀ s, cancelKey s iKey = s := fun s => if_neg fun h => hletters.2 h.2
  simp only [hcancel]
  cases enquiryKey { s with camMmiAutoresponse := false } iKey <;> rfl

/-- A number that is put into the answer. -/
structure PutIn (iKey : UInt8) (s s' : CamState) : Prop where
  connected : s'.caResourceConnected = s.caResourceConnected
  entered : s'.mmiEnqEntered = s.mmiEnqEntered + 1
  answer : s'.mmiEnqAnswer.cells.take s'.mmiEnqEntered =
    s.mmiEnqAnswer.cells.take s.mmiEnqEntered ++ [iKey]
  sent : ∀ bytes, .answer bytes ∈ s'.sent →
    .answer bytes ∈ s.sent ∨ bytes = s.mmiEnqAnswer.cells.take s.mmiEnqEntered ++ [iKey]

theorem enquiryKey_digit (hdigit : isDigit iKey) (henq : s.mmiState = .enq)
    (hroom : s.mmiEnqEntered < answerSize) :
    ∃ s', enquiryKey s iKey = .ok s' ∧ PutIn iKey s s' := by
  obtain ⟨answer, hwrite, hcells⟩ := s.mmiEnqAnswer.write_ok s.mmiEnqEntered [iKey] hroom
  have htake : answer.cells.take (s.mmiEnqEntered + 1) =
      s.mmiEnqAnswer.cells.take s.mmiEnqEntered ++ [iKey] := by
    rw [hcells]
    exact take_splice (by rw [s.mmiEnqAnswer.length_cells]; exact Nat.le_of_lt hroom) rfl
  rw [enquiryKey, if_pos ⟨henq, hdigit⟩, hwrite, bind_ok]
  dsimp only
  split
  · rw [answer.slice_ok (by rw [Nat.zero_add]; exact hroom), bind_ok, List.drop_zero, htake]
    refine ⟨_, rfl, rfl, rfl, htake, fun bytes hmem => ?_⟩
    rcases List.mem_append.mp hmem with hold | hnew
    · exact .inl hold
    · exact .inr (Message.answer.inj (List.mem_singleton.mp hnew))
  · exact ⟨_, rfl, rfl, rfl, htake, fun bytes hmem => .inl hmem⟩

theorem enquiryKey_full (hdigit : isDigit iKey) (henq : s.mmiState = .enq)
    (hfull : ¬ s.mmiEnqEntered < answerSize) : enquiryKey s iKey = .error .outOfBounds := by
  have hwrite : s.mmiEnqAnswer.write s.mmiEnqEntered [iKey] = .error .outOfBounds := dif_neg hfull
  rw [enquiryKey, if_pos ⟨henq, hdigit⟩, hwrite]
  rfl

end action

/-! ## Runs -/

section runs

variable {past : List Event} {cam cam' : CamState} {e : Event}

theorem Collected.apart (h : Collected past cam) (hapart : Apart { cam with sent := [] } cam')
    (hconnected : wasConnected (e :: past) = wasConnected past)
    (hkeys : cam.mmiState = .enq → keysSince (e :: past) = keysSince past) :
    Collected (e :: past) cam' ∧ ∀ bytes, .answer bytes ∉ cam'.sent := by
  refine ⟨⟨?_, fun henq => ?_, fun henq => ?_⟩, fun bytes hmem =>
    absurd (hapart.sent bytes hmem) List.not_mem_nil⟩
  · rw [hapart.connected, hconnected]
    exact h.connected
  · obtain ⟨henq, hentered, -⟩ := hapart.enq henq
    rw [hkeys henq, hentered]
    exact h.entered henq
  · obtain ⟨henq, hentered, hanswer⟩ := hapart.enq henq
    rw [hkeys henq, hentered, hanswer]
    exact h.answer henq

theorem Collected.putIn {iKey : UInt8} (h : Collected past cam) (hdigit : isDigit iKey)
    (hconnected : cam.caResourceConnected) (henq : cam.mmiState = .enq)
    (hput : PutIn iKey { cam with sent := [] } cam') :
    Collected (.key iKey :: past) cam' ∧
      ∀ bytes, .answer bytes ∈ cam'.sent → bytes = keysSince (.key iKey :: past) := by
  have hkeys : keysSince (.key iKey :: past) = keysSince past ++ [iKey] :=
    if_pos ⟨hdigit, h.connected ▸ hconnected⟩
  refine ⟨⟨hput.connected.trans h.connected, fun _ => ?_, fun _ => ?_⟩, fun bytes hmem => ?_⟩
  · rw [hput.entered, hkeys, List.length_append]
    exact congrArg (· + 1) (h.entered henq)
  · rw [hput.answer, hkeys, ← h.answer henq]
  · rw [hkeys, ← h.answer henq]
    exact (hput.sent bytes hmem).resolve_left List.not_mem_nil

theorem hasRoom_of_ne (cam : CamState) (hne : ∀ iKey, e ≠ .key iKey) : HasRoom (.ok cam) e :=
  fun _ iKey _ heq => absurd heq (hne iKey)

/-- A step that leaves the enquiry as it is sends no answer. -/
theorem step_apart (h : Collected past cam) (hroom : HasRoom (.ok cam) e)
    (hstep : step cam e = .ok cam') (hapart : Apart { cam with sent := [] } cam')
    (hconnected : wasConnected (e :: past) = wasConnected past)
    (hkeys : cam.mmiState = .enq → keysSince (e :: past) = keysSince past) :
    HasRoom (.ok cam) e ∧ ∃ cam', step cam e = .ok cam' ∧ Collected (e :: past) cam' ∧
      ∀ bytes, .answer bytes ∈ cam'.sent → bytes = keysSince (e :: past) := by
  obtain ⟨hcollected, hnone⟩ := h.apart hapart hconnected hkeys
  exact ⟨hroom, cam', hstep, hcollected, fun bytes hmem => absurd hmem (hnone bytes)⟩

/-- A step goes wrong only for want of room, and else keeps what is collected. -/
theorem step_collected (h : Collected past cam) :
    (¬ HasRoom (.ok cam) e ∧ step cam e = .error .outOfBounds) ∨
      HasRoom (.ok cam) e ∧ ∃ cam', step cam e = .ok cam' ∧ Collected (e :: past) cam' ∧
        ∀ bytes, .answer bytes ∈ cam'.sent → bytes = keysSince (e :: past) := by
  cases e with
  | enquiry blind expected =>
    refine .inr ⟨hasRoom_of_ne cam fun _ h => (by cases h), _, rfl, ?_⟩
    rw [mmiEnqCallback]
    dsimp only
    split
    · refine ⟨⟨h.connected, fun henq => (by cases henq), fun henq => (by cases henq)⟩, ?_⟩
      intro bytes hmem
      cases List.mem_singleton.mp hmem
    · exact ⟨⟨h.connected, fun _ => rfl, fun _ => rfl⟩, fun _ hmem => absurd hmem List.not_mem_nil⟩
  | menu =>
    have hapart : Apart { cam with sent := [] } (mmiMenuCallback { cam with sent := [] }) := by
      rw [mmiMenuCallback]
      split
      · exact apart_send fun _ h => by cases h
      · exact ⟨rfl, fun h => (by cases h), fun _ h => h⟩
    have hroom : HasRoom (.ok cam) .menu := hasRoom_of_ne cam fun _ h => (by cases h)
    exact .inr (step_apart h hroom rfl hapart rfl fun _ => rfl)
  | displayControl highLevel =>
    have hapart : Apart { cam with sent := [] }
        (mmiDisplayControlCallback { cam with sent := [] } highLevel) := by
      rw [mmiDisplayControlCallback]
      split
      · exact ⟨rfl, fun h => (by cases h), fun _ h => h⟩
      · exact .refl _
    have hroom : HasRoom (.ok cam) (.displayControl highLevel) :=
      hasRoom_of_ne cam fun _ h => (by cases h)
    exact .inr (step_apart h hroom rfl hapart rfl fun _ => rfl)
  | close =>
    have hapart : Apart { cam with sent := [] } { cam with sent := [], mmiState := .closed } :=
      ⟨rfl, fun h => (by cases h), fun _ h => h⟩
    have hroom : HasRoom (.ok cam) .close := hasRoom_of_ne cam fun _ h => (by cases h)
    exact .inr (step_apart h hroom rfl hapart rfl fun _ => rfl)
  | connected =>
    exact .inr ⟨hasRoom_of_ne cam fun _ h => (by cases h), _, rfl, ⟨rfl, h.entered, h.answer⟩,
      fun _ hmem => absurd hmem List.not_mem_nil⟩
  | key iKey =>
    by_cases hput : isDigit iKey ∧ cam.caResourceConnected ∧ cam.mmiState = .enq
    · obtain ⟨hdigit, hconnected, henq⟩ := hput
      have hstep := unicastSendCamAction_digit (s := { cam with sent := [] }) hdigit hconnected henq
      by_cases hroom : cam.mmiEnqEntered < answerSize
      · obtain ⟨cam', hok, hputIn⟩ := enquiryKey_digit
          (s := { cam with sent := [], camMmiAutoresponse := false }) hdigit henq hroom
        have hcollected := h.putIn hdigit hconnected henq
          ⟨hputIn.connected, hputIn.entered, hputIn.answer, hputIn.sent⟩
        refine .inr ⟨?_, cam', hstep.trans hok, hcollected⟩
        rintro _ _ heq - - - -
        cases heq
        exact hroom
      · refine .inl ⟨fun h => hroom (h cam iKey rfl rfl hdigit hconnected henq), ?_⟩
        exact hstep.trans (enquiryKey_full hdigit henq hroom)
    · obtain ⟨cam', hok, hapart⟩ :=
        unicastSendCamAction_apart (s := { cam with sent := [] }) hput
      have hkeys : cam.mmiState = .enq → keysSince (.key iKey :: past) = keysSince past :=
        fun henq => if_neg fun hboth => hput ⟨hboth.1, h.connected.trans hboth.2, henq⟩
      refine .inr (step_apart h ?_ hok hapart rfl hkeys)
      rintro _ _ heq hkey hdigit hconnected henq
      cases heq
      cases hkey
      exact absurd ⟨hdigit, hconnected, henq⟩ hput

theorem collected_run {s : Checked CamState} (hrun : Run camSystem past s) :
    ∀ cam, s = .ok cam → Collected past cam := by
  refine hrun.invariant (P := fun past s => ∀ cam, s = .ok cam → Collected past cam) ?_ ?_
  · rintro _ rfl cam heq
    cases heq
    exact ⟨rfl, fun h => (by cases h), fun h => (by cases h)⟩
  · rintro past s e _ hcollected rfl cam' hstep
    obtain ⟨cam, rfl, hstep⟩ := bind_eq_ok.mp hstep
    rcases step_collected (e := e) (hcollected cam rfl) with ⟨-, hfault⟩ | ⟨-, cam₁, hok, h, -⟩
    · cases hstep.symm.trans hfault
    · cases hstep.symm.trans hok
      exact h

/-- In every run every key is written inside and every answer is the keys since the enquiry, if and
only if each key that is put into an answer is one of the first ten. -/
theorem answers_run_iff (past : List Event) (s : Checked CamState) :
    Run (camSystem.restrict HasRoom) past s ↔ Along camSystem Answers past s := by
  refine along_iff ?_ ?_ past s
  · rintro _ rfl
    exact ⟨initial, rfl, fun _ hmem => absurd hmem List.not_mem_nil⟩
  · rintro past _ e _ hrun ⟨cam, rfl, -⟩ rfl
    rw [bind_ok]
    rcases step_collected (e := e) (collected_run hrun cam rfl) with
      ⟨hnone, hfault⟩ | ⟨hroom, cam', hok, -, hanswer⟩
    · refine iff_of_false ?_ hnone
      rintro ⟨cam', hok, -⟩
      cases hfault.symm.trans hok
    · exact iff_of_true ⟨cam', hok, hanswer⟩ hroom

end runs

/-! The first key turns the automatic answer off, and an enquiry that expects no characters takes
eleven. -/

theorem run_events (events : List Event) :
    Run camSystem events.reverse
      (events.foldl (fun s e => s >>= fun cam => step cam e) (.ok initial)) := by
  induction events using List.reverseRecOn with
  | nil => exact .start rfl
  | append_singleton events e ih =>
    rw [List.reverse_append, List.foldl_append]
    exact .next ih rfl

def elevenKeys : List Event :=
  [.connected, .key 49, .enquiry 0 0] ++ List.replicate 11 (.key 50)

theorem answers_run_not : ¬ ∀ (past : List Event) (s : Checked CamState), Run camSystem past s →
    Answers past s := by
  intro h
  obtain ⟨cam, hok, -⟩ := h _ _ (run_events elevenKeys)
  have hfault : elevenKeys.foldl (fun s e => s >>= fun cam => step cam e) (.ok initial) =
      .error .outOfBounds := rfl
  cases hfault.symm.trans hok

end MuMuDVB.CamEnquiries
