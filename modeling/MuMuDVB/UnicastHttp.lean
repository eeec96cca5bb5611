import MuMuDVB.CString

/-!
# Messages of HTTP clients

`unicast_handle_message` collects what a client sends in a buffer that grows by
steps of 100 bytes, and answers when the end of a request is in it. The buffer
is a block of memory of exactly the size that was asked for; what `realloc`
adds to it has any contents.
-/
namespace MuMuDVB.UnicastHttp

open CheckedMemory CString

/-- `RECV_BUFFER_MULTIPLE` -/
@[simp] abbrev recvBufferMultiple : Nat := 100
/-- `MAX_NAME_LEN` -/
@[simp] abbrev maxNameLen : Nat := 512

/-- What a request can be answered from. -/
structure HttpChannel where
  serviceId : Int
  name : List UInt8

/-- The fields of `unicast_client_t` for its messages; `chan_ptr` is an index of the channels. -/
structure HttpClient where
  buffer : Option (List UInt8)
  buffersize : Nat
  bufferpos : Nat
  chanPtr : Option Nat
  askedChannel : Int

/-- What the system does in one call: whether `realloc` succeeds and what the memory that it adds
contains, and what `recv` returns, an error or at most as many bytes as it is asked for. -/
structure Arrival where
  granted : Bool
  fresh : Nat → UInt8
  recv : Option (List UInt8)

inductive Reply where
  | notFound
  | notImplemented
  | channelsList (host : Option (List UInt8))
  | playList (perport : Bool)
  | playListMulticast (vlc : Bool)
  | channelsListJs
  | jsonState
  | signalPower
  | channelTraffic
  | xmlState
  | eit
  | camMenu
  | camAction (key : List UInt8)
  | indexPage
  | prometheus
  deriving DecidableEq, Repr

/-- What a call does, with the value that it returns. -/
inductive Action where
  /-- nothing yet, 0 -/
  | wait
  /-- −1 -/
  | fail
  /-- the client has closed the connection, −2 -/
  | hangUp
  /-- a reply, then −2 -/
  | send (reply : Reply)
  /-- a method that is not implemented: a reply, then 0 -/
  | refuse
  /-- `channel_add_unicast_client(client,&channels[channel])` -/
  | attach (channel : Int)
  /-- a request that asks for nothing, 0 -/
  | done
  deriving DecidableEq, Repr

/-- Overwrite a part of a block. -/
def writeBlock (cells : List UInt8) (i : Nat) (src : List UInt8) : Checked (List UInt8) :=
  if i + src.length ≤ cells.length then .ok (splice cells i src) else .error .outOfBounds

def readBlock (cells : List UInt8) (i len : Nat) : Checked (List UInt8) :=
  if i + len ≤ cells.length then .ok ((cells.drop i).take len) else .error .outOfBounds

/-- `realloc`: the block keeps its contents as far as they fit. -/
def realloc (cells : List UInt8) (n : Nat) (fresh : Nat → UInt8) : List UInt8 :=
  (List.range n).map fun i => cells[i]?.getD (fresh i)

/-- The buffer with room for one more piece, if there is memory. -/
def growBuffer (client : HttpClient) (a : Arrival) : Checked (Option HttpClient) :=
  if client.buffersize - client.bufferpos < recvBufferMultiple then
    if a.granted then do
      let cells := realloc (client.buffer.getD []) (client.buffersize + recvBufferMultiple + 1)
        a.fresh
      let cells ← writeBlock cells client.buffersize (List.replicate recvBufferMultiple 0)
      return some { client with
        buffer := some cells
        buffersize := client.buffersize + recvBufferMultiple }
    else return none
  else return some client

/-- What came in: nothing to parse, or the string in the buffer. -/
inductive Received where
  | failed | closed
  | text (s : List UInt8)

/-- The first part of `unicast_handle_message`, up to the terminator of the buffer. -/
def receive (client : HttpClient) (a : Arrival) : Checked (Received × HttpClient) := do
  match ← growBuffer client a with
  | none => return (.failed, { client with buffer := none, buffersize := 0, bufferpos := 0 })
  | some client =>
    match a.recv with
    | none => return (.failed, client)
    | some [] => return (.closed, client)
    | some (c :: cs) => do
      let piece := (c :: cs).take recvBufferMultiple
      match client.buffer with
      | none => .error .outOfBounds
      | some cells =>
        let cells ← writeBlock cells client.bufferpos piece
        -- the log shows how the buffer begins
        let _ ← (if client.bufferpos = 0 then readBlock cells 0 6 else .ok [] : Checked (List UInt8))
        let cells ← writeBlock cells client.buffersize [0]
        let s ← cstring cells
        return (.text s, { client with
          buffer := some cells
          bufferpos := client.bufferpos + piece.length })

/-- The end of a request is in the string. -/
def complete (s : List UInt8) : Bool := decide (5 < s.length) && (strstr [10, 13, 10] s).isSome

/-- `process_channel_name`. -/
def processChannelName (str : List UInt8) : List UInt8 :=
  ((str.dropWhile isSpace).rdropWhile isSpace).map fun c => if isSpace c then 45 else c

/-- The loops over the channels that keep the last match, counted from 1. -/
def lastMatch (p : HttpChannel → Bool) (channels : List HttpChannel) : Nat :=
  (channels.zipIdx 1).foldl (fun requested c => if p c.1 then c.2 else requested) 0

/-- What the path of a request asks for. -/
inductive Asked where
  | channel (requested : Int)
  | notFound
  | reply (r : Reply)

/-- GET /bynumber/channelnumber -/
def channelByNumber (channels : List HttpChannel) (s : List UInt8) : Asked :=
  match strtok 32 s with
  | none => .notFound
  | some substring =>
    let requested := atoi substring
    if requested ≠ 0 ∧ requested ≤ channels.length then .channel requested else .notFound

/-- GET /bysid/sid -/
def channelBySid (channels : List HttpChannel) (s : List UInt8) : Asked :=
  match strtok 32 s with
  | none => .notFound
  | some substring =>
    let requestedSid := atoi substring
    let requested := lastMatch (fun c => decide (c.serviceId = requestedSid)) channels
    if requested ≠ 0 then .channel requested else .notFound

/-- GET /byname/channelname -/
def channelByName (channels : List HttpChannel) (s : List UInt8) : Asked :=
  if s = [] then .notFound
  else
    match strstr (bytes " HTTP") s with
    | none => .notFound
    | some e =>
      let name := processChannelName ((s.take e).take (maxNameLen - 1))
      let requested := lastMatch (fun c => sameIgnoringCase (processChannelName c.name) name) channels
      if requested ≠ 0 then .channel requested else .notFound

/-- A client that gets a channel already shall not ask for another one. -/
def unlessStreamed (client : HttpClient) (asked : Asked) : Asked :=
  if client.chanPtr.isSome then .reply .notImplemented else asked

/-- The paths that are answered with a page, in their order. -/
def askedPage (s path : List UInt8) : Option Reply :=
  if bytes "/channels_list.html " <+: path then
    some (.channelsList ((strstr (bytes "Host: ") s).bind fun i => strtok 13 (s.drop (i + 6))))
  else if bytes "/playlist.m3u " <+: path then some (.playList false)
  else if bytes "/playlist_port.m3u " <+: path then some (.playList true)
  else if bytes "/playlist_multicast.m3u " <+: path then some (.playListMulticast false)
  else if bytes "/playlist_multicast_vlc.m3u " <+: path then some (.playListMulticast true)
  else if bytes "/channels_list.json " <+: path then some .channelsListJs
  else if bytes "/monitor/state.json " <+: path then some .jsonState
  else if bytes "/monitor/signal_power.json " <+: path then some .signalPower
  else if bytes "/monitor/channels_traffic.json " <+: path then some .channelTraffic
  else if bytes "/monitor/state.xml " <+: path then some .xmlState
  else if bytes "/monitor/EIT.json " <+: path then some .eit
  else if bytes "/cam/menu.xml " <+: path then some .camMenu
  else if bytes "/cam/action.xml?key=" <+: path then some (.camAction (path.drop 20))
  else if bytes "/index.html" <+: path ∨ bytes "/index.htm" <+: path ∨ bytes "/ " <+: path then
    some .indexPage
  else if bytes "/metrics" <+: path then some .prometheus
  else none

/-- What a request with the method GET asks for; the channel of the socket comes first. -/
def getRequest (channels : List HttpChannel) (client : HttpClient) (s : List UInt8) : Asked :=
  let path := s.drop 4
  if client.askedChannel ≠ -1 then .channel (client.askedChannel + 1)
  else if bytes "/bynumber/" <+: path then
    unlessStreamed client (channelByNumber channels (path.drop 10))
  else if bytes "/bysid/" <+: path then
    unlessStreamed client (channelBySid channels (path.drop 7))
  else if bytes "/byname/" <+: path then
    unlessStreamed client (channelByName channels (path.drop 8))
  else
    match askedPage s path with
    | some r => .reply r
    | none => .notFound

/-- "We don't need the buffer anymore" -/
def HttpClient.freeBuffer (client : HttpClient) : HttpClient :=
  { client with buffer := none, bufferpos := 0, buffersize := 0 }

/-- The second part of `unicast_handle_message`. -/
def answer (channels : List HttpChannel) (client : HttpClient) (s : List UInt8) :
    Action × HttpClient :=
  if complete s then
    if bytes "GET " <+: s then
      let asked := getRequest channels client s
      let client := { client with askedChannel := -1 }
      match asked with
      | .notFound => (.send .notFound, client)
      | .reply r => (.send r, client)
      | .channel requested =>
        if requested ≠ 0 then (.attach (requested - 1), client.freeBuffer)
        else (.done, client.freeBuffer)
    else if client.chanPtr = none then (.send .notImplemented, client)
    else
      -- the end of the method is written into the buffer, which is kept
      let cells := match strtokEnd 32 s with
        | some e => client.buffer.map fun cells => cells.set e 0
        | none => client.buffer
      (.refuse, { client with buffer := cells })
  else (.wait, client)

/-- `unicast_handle_message`. -/
def handleMessage (channels : List HttpChannel) (client : HttpClient) (a : Arrival) :
    Checked (Action × HttpClient) := do
  let (received, client) ← receive client a
  match received with
  | .failed => return (.fail, client)
  | .closed => return (.hangUp, client)
  | .text s => return answer channels client s

/-- What came in, and the client with its buffer, leave the rest of the client. -/
theorem growBuffer_frame {client client' : HttpClient} {a : Arrival}
    (h : growBuffer client a = .ok (some client')) :
    client'.chanPtr = client.chanPtr ∧ client'.askedChannel = client.askedChannel := by
  rw [growBuffer] at h
  split at h
  · split at h
    · obtain ⟨cells, _, h⟩ := bind_eq_ok.mp h
      cases h
      exact ⟨rfl, rfl⟩
    · cases h
  · cases h
    exact ⟨rfl, rfl⟩

theorem receive_frame {client client' : HttpClient} {a : Arrival} {received : Received}
    (h : receive client a = .ok (received, client')) :
    client'.chanPtr = client.chanPtr ∧ client'.askedChannel = client.askedChannel := by
  obtain ⟨grown, hgrow, h⟩ := bind_eq_ok.mp h
  cases grown with
  | none =>
    cases h
    exact ⟨rfl, rfl⟩
  | some client₁ =>
    have hframe := growBuffer_frame hgrow
    dsimp only at h
    split at h
    · cases h
      exact hframe
    · cases h
      exact hframe
    · split at h
      · cases h
      · obtain ⟨cells₁, _, h⟩ := bind_eq_ok.mp h
        obtain ⟨_, _, h⟩ := bind_eq_ok.mp h
        obtain ⟨cells₂, _, h⟩ := bind_eq_ok.mp h
        obtain ⟨s', _, h⟩ := bind_eq_ok.mp h
        cases h
        exact hframe

/-! ## The channel of a request -/

theorem lastMatch_le (p : HttpChannel → Bool) (channels : List HttpChannel) :
    lastMatch p channels ≤ channels.length := by
  have hfold : ∀ (cs : List HttpChannel) (i requested n : Nat), requested ≤ n → i + cs.length ≤ n + 1 →
      (cs.zipIdx i).foldl (fun requested c => if p c.1 then c.2 else requested) requested ≤ n := by
    intro cs
    induction cs with
    | nil => exact fun _ _ _ h _ => h
    | cons c cs ih =>
      intro i requested n hrequested hi
      rw [List.length_cons] at hi
      rw [List.zipIdx_cons, List.foldl_cons]
      refine ih _ _ _ ?_ (by omega)
      split
      · show i ≤ n
        omega
      · exact hrequested
  exact hfold channels 1 0 channels.length (Nat.zero_le _) (by omega)

/-- The number of a request by number that is looked at. -/
def askedNumber (client : HttpClient) (s : List UInt8) : Option Int :=
  if client.askedChannel = -1 ∧ bytes "/bynumber/" <+: s.drop 4 ∧ client.chanPtr = none then
    (strtok 32 ((s.drop 4).drop 10)).map atoi
  else none

/-- The channel of the socket exists, and a number that is asked for is not negative. -/
def InRange (channels : List HttpChannel) (client : HttpClient) (s : List UInt8) : Prop :=
  (client.askedChannel ≠ -1 →
    0 ≤ client.askedChannel ∧ client.askedChannel < channels.length) ∧
  ∀ number, askedNumber client s = some number → 0 ≤ number

/-- The request is one for which the channel of the socket or a path counts. -/
def IsGet (s : List UInt8) : Prop := complete s = true ∧ bytes "GET " <+: s

variable {channels : List HttpChannel} {client : HttpClient} {s : List UInt8}

theorem answer_attach_iff (channel : Int) : (answer channels client s).1 = .attach channel ↔
    IsGet s ∧ ∃ requested, getRequest channels client s = .channel requested ∧ requested ≠ 0 ∧
      channel = requested - 1 := by
  rw [answer, IsGet]
  by_cases hcomplete : complete s = true
  · by_cases hget : bytes "GET " <+: s
    · rw [if_pos hcomplete, if_pos hget]
      cases hasked : getRequest channels client s with
      | notFound => simp
      | reply r => simp
      | channel requested =>
        by_cases hzero : requested = 0
        · simp [hzero]
        · simp [hzero, hcomplete, hget, eq_comm]
    · rw [if_pos hcomplete, if_neg hget]
      split <;> simp [hget]
  · rw [if_neg hcomplete]
    simp [hcomplete]

/-- A search by service id or by name finds one of the channels. -/
theorem channelBySid_range {path : List UInt8} {requested : Int}
    (h : channelBySid channels path = .channel requested) :
    0 < requested ∧ requested ≤ channels.length := by
  rw [channelBySid] at h
  split at h
  · cases h
  · dsimp only at h
    split at h
    · cases h
      exact ⟨by omega, by exact_mod_cast lastMatch_le _ channels⟩
    · cases h

theorem channelByName_range {path : List UInt8} {requested : Int}
    (h : channelByName channels path = .channel requested) :
    0 < requested ∧ requested ≤ channels.length := by
  rw [channelByName] at h
  split at h
  · cases h
  · split at h
    · cases h
    · dsimp only at h
      split at h
      · cases h
        exact ⟨by omega, by exact_mod_cast lastMatch_le _ channels⟩
      · cases h

/-- A request by number is for a channel from 1 on, or for one that its negative number names. -/
theorem channelByNumber_eq {path : List UInt8} {requested : Int} :
    channelByNumber channels path = .channel requested ↔
      (strtok 32 path).map atoi = some requested ∧ requested ≠ 0 ∧ requested ≤ channels.length := by
  rw [channelByNumber]
  cases strtok 32 path with
  | none => simp
  | some substring =>
    dsimp only
    split
    case isTrue h =>
      constructor
      · intro hasked
        cases hasked
        exact ⟨rfl, h⟩
      · rintro ⟨hnumber, _⟩
        rw [Option.map_some, Option.some.injEq] at hnumber
        rw [hnumber]
    case isFalse h =>
      refine ⟨fun hasked => (by cases hasked), ?_⟩
      rintro ⟨hnumber, hrange⟩
      rw [Option.map_some, Option.some.injEq] at hnumber
      rw [hnumber] at h
      exact absurd hrange h

theorem unlessStreamed_channel {asked : Asked} {requested : Int} :
    unlessStreamed client asked = .channel requested ↔
      client.chanPtr = none ∧ asked = .channel requested := by
  rw [unlessStreamed]
  cases client.chanPtr <;> simp

/-- A call leaves the channel of the client, and the one of its socket unless it has been used. -/
theorem answer_frame (channels : List HttpChannel) (client : HttpClient) (s : List UInt8) :
    (answer channels client s).2.chanPtr = client.chanPtr ∧
      ((answer channels client s).2.askedChannel = client.askedChannel ∨
        (answer channels client s).2.askedChannel = -1) := by
  rw [answer]
  split
  · split
    · dsimp only
      split
      · exact ⟨rfl, Or.inr rfl⟩
      · exact ⟨rfl, Or.inr rfl⟩
      · split
        · exact ⟨rfl, Or.inr rfl⟩
        · exact ⟨rfl, Or.inr rfl⟩
    · split
      · exact ⟨rfl, Or.inl rfl⟩
      · exact ⟨rfl, Or.inl rfl⟩
  · exact ⟨rfl, Or.inl rfl⟩

theorem handleMessage_frame {action : Action} {client' : HttpClient} {a : Arrival}
    (h : handleMessage channels client a = .ok (action, client')) :
    client'.chanPtr = client.chanPtr ∧
      (client'.askedChannel = client.askedChannel ∨ client'.askedChannel = -1) := by
  obtain ⟨⟨received, client₁⟩, hreceive, h⟩ := bind_eq_ok.mp h
  obtain ⟨hptr, hasked⟩ := receive_frame hreceive
  cases received with
  | failed =>
    cases h
    exact ⟨hptr, Or.inl hasked⟩
  | closed =>
    cases h
    exact ⟨hptr, Or.inl hasked⟩
  | text s =>
    have hanswer := answer_frame channels client₁ s
    rw [show answer channels client₁ s = (action, client') from Except.ok.inj h, hptr, hasked] at hanswer
    exact hanswer

/-- A client that gets a channel does not wait for one any more. -/
theorem answer_attach_asked {channel : Int} (h : (answer channels client s).1 = .attach channel) :
    (answer channels client s).2.askedChannel = -1 := by
  obtain ⟨⟨hcomplete, hget⟩, requested, hasked, hne, _⟩ := (answer_attach_iff channel).mp h
  rw [answer, if_pos hcomplete, if_pos hget, hasked]
  dsimp only
  rw [if_pos hne]
  rfl

/-- Only a client without a channel, or one that waits for the channel of its socket, gets one. -/
theorem handleMessage_attach {channel : Int} {client' : HttpClient} {a : Arrival}
    (h : handleMessage channels client a = .ok (.attach channel, client'))
    (hidle : client.askedChannel ≠ -1 → client.chanPtr = none) :
    client'.askedChannel = -1 ∧ client.chanPtr = none := by
  obtain ⟨⟨received, client₁⟩, hreceive, h⟩ := bind_eq_ok.mp h
  obtain ⟨hptr, hasked⟩ := receive_frame hreceive
  rw [← hptr]
  rw [← hptr, ← hasked] at hidle
  cases received with
  | failed => cases h
  | closed => cases h
  | text s =>
    have hanswer : answer channels client₁ s = (.attach channel, client') := Except.ok.inj h
    have hfst := congrArg Prod.fst hanswer
    have hwaits := answer_attach_asked hfst
    rw [hanswer] at hwaits
    refine ⟨hwaits, ?_⟩
    obtain ⟨_, requested, hrequested, _⟩ := (answer_attach_iff channel).mp hfst
    by_cases hsocket : client₁.askedChannel = -1
    · rw [getRequest, if_neg (not_not.mpr hsocket)] at hrequested
      split at hrequested
      · exact (unlessStreamed_channel.mp hrequested).1
      · split at hrequested
        · exact (unlessStreamed_channel.mp hrequested).1
        · split at hrequested
          · exact (unlessStreamed_channel.mp hrequested).1
          · split at hrequested <;> cases hrequested
    · exact hidle hsocket

/-- The channel that is asked for is one of the channels exactly when the condition holds. -/
theorem getRequest_inRange_iff :
    (∀ requested, getRequest channels client s = .channel requested → requested ≠ 0 →
      0 < requested ∧ requested ≤ channels.length) ↔ InRange channels client s := by
  rw [getRequest, InRange]
  by_cases hsocket : client.askedChannel = -1
  · rw [if_neg (not_not.mpr hsocket)]
    by_cases hnumber : bytes "/bynumber/" <+: s.drop 4
    · rw [if_pos hnumber]
      simp only [askedNumber, unlessStreamed_channel, channelByNumber_eq, hsocket, hnumber]
      by_cases hptr : client.chanPtr = none
      · simp only [hptr, true_and, and_self, if_true]
        refine ⟨fun h => ⟨fun hne => absurd rfl hne, fun number hnumber => ?_⟩,
          fun h requested hrequested hne => ?_⟩
        · by_contra hneg
          have := (h number ⟨hnumber, by omega, by omega⟩ (by omega)).1
          omega
        · have := h.2 requested hrequested.1
          omega
      · simp [hptr]
    · have hnone : askedNumber client s = none := if_neg fun h => hnumber h.2.1
      rw [if_neg hnumber, hnone]
      refine iff_of_true (fun requested hrequested _ => ?_)
        ⟨fun hne => absurd hsocket hne, fun number h => by cases h⟩
      by_cases hsid : bytes "/bysid/" <+: s.drop 4
      · rw [if_pos hsid] at hrequested
        exact channelBySid_range (unlessStreamed_channel.mp hrequested).2
      · rw [if_neg hsid] at hrequested
        by_cases hname : bytes "/byname/" <+: s.drop 4
        · rw [if_pos hname] at hrequested
          exact channelByName_range (unlessStreamed_channel.mp hrequested).2
        · rw [if_neg hname] at hrequested
          cases hpage : askedPage s (s.drop 4) <;> rw [hpage] at hrequested <;> cases hrequested
  · have hnone : askedNumber client s = none := if_neg fun h => hsocket h.1
    rw [if_pos hsocket, hnone]
    refine ⟨fun h => ⟨fun _ => ?_, fun number h => by cases h⟩, fun h requested hrequested hne => ?_⟩
    · have := h (client.askedChannel + 1) rfl (by omega)
      omega
    · cases hrequested
      have := h.1 hsocket
      omega

/-- The channel that a call attaches the client to is one of the channels exactly when, for the
string in the buffer, a request that counts is in range. -/
theorem attached_inRange_iff (channels : List HttpChannel) (client : HttpClient) (a : Arrival) :
    (∀ channel client', handleMessage channels client a = .ok (.attach channel, client') →
      0 ≤ channel ∧ channel < channels.length) ↔
    ∀ s client', receive client a = .ok (.text s, client') → IsGet s → InRange channels client s := by
  have hsame : ∀ s client', receive client a = .ok (.text s, client') →
      (InRange channels client' s ↔ InRange channels client s) := by
    intro s client' hreceive
    obtain ⟨hptr, hasked⟩ := receive_frame hreceive
    rw [InRange, InRange, askedNumber, askedNumber, hptr, hasked]
  have hattach : ∀ channel client'', handleMessage channels client a = .ok (.attach channel, client'') ↔
      ∃ s client', receive client a = .ok (.text s, client') ∧
        answer channels client' s = (.attach channel, client'') := by
    intro channel client''
    rw [handleMessage, bind_eq_ok]
    constructor
    · rintro ⟨⟨received, client'⟩, hreceive, h⟩
      cases received with
      | failed => cases h
      | closed => cases h
      | text s => exact ⟨s, client', hreceive, Except.ok.inj h⟩
    · rintro ⟨s, client', hreceive, h⟩
      exact ⟨(.text s, client'), hreceive, congrArg Except.ok h⟩
  constructor
  · intro h s client' hreceive hget
    rw [← hsame s client' hreceive, ← getRequest_inRange_iff]
    intro requested hrequested hne
    have hanswer : (answer channels client' s).1 = .attach (requested - 1) :=
      (answer_attach_iff _).mpr ⟨hget, requested, hrequested, hne, rfl⟩
    have := h (requested - 1) (answer channels client' s).2
      ((hattach _ _).mpr ⟨s, client', hreceive, Prod.ext hanswer rfl⟩)
    omega
  · intro h channel client'' hhandle
    obtain ⟨s, client', hreceive, hanswer⟩ := (hattach _ _).mp hhandle
    obtain ⟨hget, requested, hrequested, hne, rfl⟩ :=
      (answer_attach_iff channel).mp (congrArg Prod.fst hanswer)
    have := getRequest_inRange_iff.mpr ((hsame s client' hreceive).mpr (h s client' hreceive hget))
      requested hrequested hne
    omega

/-- A client that has just connected to the master socket. -/
def newClient : HttpClient := ⟨none, 0, 0, none, -1⟩

/-- Everything succeeds. -/
def arrive (s : String) : Arrival := ⟨true, fun _ => 0xff, some (bytes s)⟩

def oneChannel : List HttpChannel := [⟨1, bytes "TV"⟩]

/-- Channel −1 is asked for by its number. -/
theorem not_inRange_negative : ∃ client,
    handleMessage oneChannel newClient (arrive "GET /bynumber/-1 HTTP/1.0\r\n\r\n") =
      .ok (.attach (-2), client) ∧ ¬ ((0 : Int) ≤ -2 ∧ (-2 : Int) < oneChannel.length) := by
  have h : (handleMessage oneChannel newClient
      (arrive "GET /bynumber/-1 HTTP/1.0\r\n\r\n")).map Prod.fst = .ok (.attach (-2)) := by
    decide +kernel
  obtain ⟨⟨action, client⟩, hhandle, haction⟩ := map_eq_ok h
  dsimp only at haction
  subst haction
  exact ⟨client, hhandle, by decide⟩

end MuMuDVB.UnicastHttp
