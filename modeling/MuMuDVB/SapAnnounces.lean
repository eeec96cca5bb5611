import MuMuDVB.CamdSockets
import MuMuDVB.NameTemplate
import MuMuDVB.RemovedServices

/-!
# The SAP announces

A message for a channel is made when the channel is ready and something about it
has changed; it is kept in a table of its own and sent again and again. Whether
it is to be sent is only looked at when it is made, and for a channel that is
not ready any more it is not made.
-/
namespace MuMuDVB.SapAnnounces

open CString CheckedMemory RecordedRun MuMuDVB.TsHeader MuMuDVB.Channel MuMuDVB.Autoconf
open MuMuDVB.AutoconfTables MuMuDVB.NameTemplate
open MuMuDVB.UnicastClients (UnicastChannel UnicastVars)
open MuMuDVB.ChannelStatus (NetP)
open MuMuDVB.RemovedServices (server)
open MuMuDVB.CamdSockets (accepted firstSdt_accepted secondPat_accepted noVars)

/-- The messages and the sockets are there twice. -/
inductive IpVersion where
  | v4 | v6
  deriving DecidableEq, Repr

/-- What the announces use of a channel, but for its status. -/
structure SapChannel where
  name : List UInt8
  sapNeedUpdate : Bool
  socketOut : IpVersion → Int
  ipOut : IpVersion → List UInt8
  portOut : Nat
  sapGroup : List UInt8

/-- `mumudvb_sap_message_t`; the buffer up to `len`. -/
structure SapMessage where
  buf : List UInt8
  version : Nat
  toBeSent : Bool

/-- What does not change while the program runs: the parameters, what `inet_pton` makes of the
sending addresses, and the default group with the type of a service in the place of `%type`. -/
structure SapParameters where
  on : Bool
  multicast : Bool
  multicastIp : IpVersion → Bool
  rtpHeader : Bool
  ttl : Nat
  interval : Int
  serial : Nat
  organisation : List UInt8
  uri : List UInt8
  defaultGroup : Option (Nat → List UInt8)
  sendingIp : IpVersion → List UInt8
  sendingAddress : IpVersion → Option (List UInt8)
  muVersion : List UInt8

/-- The last bytes of `ip_struct6.sin6_addr` in `sap_update` and in `sap_add_program`, which nothing
has written. -/
structure Stack where
  source : Fin 8 → UInt8
  filter : Fin 8 → UInt8

/-- The variables of the announces, with those of the channels. -/
structure Sap where
  channels : Nat → SapChannel
  messages : IpVersion → Nat → SapMessage
  lastTimeSent : Int
  /-- the name of the channel at its last `sap_update`; nothing reads this -/
  updated : Nat → List UInt8

section message

variable (params : SapParameters)

/-- `inet_pton` writes the address at the start of a `sockaddr_in6`, whose `sin6_addr` is eight
bytes further on. -/
def sin6Addr (address : List UInt8) (stack : Fin 8 → UInt8) : List UInt8 :=
  address.drop 8 ++ List.ofFn stack

/-- What is read of a sending address. -/
def sendingAddress (ip : IpVersion) (stack : Fin 8 → UInt8) : Option (List UInt8) :=
  match ip with
  | .v4 => params.sendingAddress .v4
  | .v6 => (params.sendingAddress .v6).map fun address => sin6Addr address stack

def newline : List UInt8 := [13, 10]

/-- `IN IP4 `, `IN IP6 ` -/
def network : IpVersion → List UInt8
  | .v4 => bytes "IN IP4 "
  | .v6 => bytes "IN IP6 "

/-- The address of the connection, with the TTL of IPv4. -/
def connection (channel : SapChannel) : IpVersion → List UInt8
  | .v4 => channel.ipOut .v4 ++ bytes "/" ++ decimal params.ttl
  | .v6 => channel.ipOut .v6

/-- Only where the sending address is defined; for IPv6 there is no `IN`. -/
def sourceFilter (channel : SapChannel) (ip : IpVersion) (stack : Stack) : List UInt8 :=
  match sendingAddress params ip stack.filter with
  | none => []
  | some address =>
    if address.all (· = 0) then []
    else bytes "a=source-filter: incl " ++
      (match ip with
        | .v4 => bytes "IN IP4 "
        | .v6 => bytes "IP6 ") ++
      channel.ipOut ip ++ [32] ++ params.sendingIp ip ++ newline

/-- The payload that `sap_add_program` writes. -/
def sdp (channel : SapChannel) (ip : IpVersion) (version : Nat) (stack : Stack) : List UInt8 :=
  bytes "v=0" ++ newline ++
  bytes "o=" ++ params.organisation ++ [32] ++ decimal params.serial ++ [32] ++ decimal version ++
    [32] ++ network ip ++ channel.ipOut ip ++ newline ++
  bytes "s=" ++ channel.name ++ newline ++
  (if params.uri = [] then [] else bytes "u=" ++ params.uri ++ newline) ++
  bytes "c=" ++ network ip ++ connection params channel ip ++ newline ++
  bytes "t=0 0" ++ newline ++ bytes "a=tool:mumudvb-" ++ params.muVersion ++ newline ++
  bytes "a=type:broadcast" ++ newline ++
  sourceFilter params channel ip stack ++
  (if channel.sapGroup = [] ∧ params.defaultGroup.isNone then []
    else bytes "a=cat:" ++ channel.sapGroup ++ newline ++
      bytes "a=x-plgroup:" ++ channel.sapGroup ++ newline) ++
  bytes "m=video " ++ decimal channel.portOut ++
  (if params.rtpHeader then bytes " RTP/AVP 33" ++ newline ++ bytes "a=rtpmap:33 MP2T/90000"
    else bytes " udp 33") ++ newline

/-- The header, with the originating source. -/
def header (ip : IpVersion) (stack : Stack) : List UInt8 :=
  (match ip with
    | .v4 => [0x20, 0x00, 0, 0] ++
      (sendingAddress params .v4 stack.source).getD (List.replicate 4 0)
    | .v6 => [0x30, 0x00, 0, 0] ++
      (sendingAddress params .v6 stack.source).getD (List.replicate 16 0)) ++
    bytes "application/sdp" ++ [0]

/-- The CRC of all bytes but the last one, cut to sixteen bits. -/
def hashed (buf : List UInt8) : List UInt8 :=
  let crc := crc32Long buf.dropLast
  (buf.set 2 (UInt8.ofBitVec ((crc >>> 24).setWidth 8 + (crc >>> 16).setWidth 8))).set 3
    (UInt8.ofBitVec ((crc >>> 8).setWidth 8 + crc.setWidth 8))

/-- The message as `sap_update` leaves it: with its payload, or without one and not to be sent. -/
def message (ip : IpVersion) (version : Nat) (stack : Stack) (payload : Option (List UInt8)) :
    SapMessage where
  buf := hashed (header params ip stack ++ payload.getD [])
  version := version
  toBeSent := payload.isSome

/-- A channel without a group gets the default one. -/
def withGroup (serviceType : Nat) (channel : SapChannel) : SapChannel :=
  match params.defaultGroup with
  | none => channel
  | some group =>
    if channel.sapGroup = [] then { channel with sapGroup := group serviceType } else channel

/-- The payload of one message, when the program gets to it. For a channel that is not ready it
stops, and behind a message that is too long; IPv4 comes first. -/
def payload (ready : Bool) (channel : SapChannel) (version : IpVersion → Nat) (stack : Stack)
    (ip : IpVersion) : Option (List UInt8) :=
  let fits (ip : IpVersion) : Bool :=
    channel.socketOut ip = 0 ||
      (header params ip stack).length + (sdp params channel ip (version ip) stack).length ≤ 1024
  if ready && fits .v4 && (ip = .v4 || fits .v6) then
    some (sdp params channel ip (version ip) stack)
  else none

end message

section code

variable (params : SapParameters)

/-- `sap_update`, with `sap_add_program`, for channel `i`. -/
def sapUpdate (stack : Stack) (s : Sap) (i : Nat) (chan : UnicastChannel) : Sap :=
  let ready := chan.channelReady.isReady
  let channel := if ready then withGroup params chan.serviceType (s.channels i) else s.channels i
  let version (ip : IpVersion) : Nat := ((s.messages ip i).version + 1) % 16
  { s with
    channels := Function.update s.channels i { channel with sapNeedUpdate := false }
    messages := fun ip =>
      if channel.socketOut ip = 0 then s.messages ip
      else Function.update (s.messages ip) i
        (message params ip (version ip) stack (payload params ready channel version stack ip))
    updated := Function.update s.updated i channel.name }

/-- A turn of a loop of `sap_poll` over the channels. -/
def updateReady (which : SapChannel → Bool) (chans : List UnicastChannel) (stack : Nat → Stack)
    (s : Sap) (i : Nat) : Sap :=
  match chans[i]? with
  | none => s
  | some chan =>
    if which (s.channels i) = true ∧ chan.channelReady.isReady = true then
      sapUpdate params (stack i) s i chan
    else s

/-- A message that has been sent, for channel `i`. -/
structure Sent where
  i : Nat
  ip : IpVersion
  buf : List UInt8

/-- The messages of one version are allocated. -/
def allocated (ip : IpVersion) : Bool := params.on && params.multicastIp ip

/-- `sap_send` -/
def sapSend (s : Sap) (n : Nat) : List Sent :=
  (List.range n).flatMap fun i => [IpVersion.v4, .v6].filterMap fun ip =>
    if allocated params ip = true ∧ (s.messages ip i).toBeSent = true then
      some ⟨i, ip, (s.messages ip i).buf⟩
    else none

/-- The loops of `sap_poll`; in the first call all channels that are ready get a message. -/
def refresh (chans : List UnicastChannel) (now : Int) (stack : Nat → Stack) (s : Sap) : Sap :=
  let n := chans.length
  let s :=
    if s.lastTimeSent = 0 then
      { (List.range n).foldl (updateReady params (fun _ => true) chans stack) s with
        lastTimeSent := now - params.interval - 1 }
    else s
  (List.range n).foldl (updateReady params SapChannel.sapNeedUpdate chans stack) s

/-- `sap_poll` -/
def sapPoll (chans : List UnicastChannel) (now : Int) (stack : Nat → Stack) (s : Sap) :
    Sap × List Sent :=
  if allocated params .v4 = false ∧ allocated params .v6 = false then (s, [])
  else
    let s := refresh params chans now stack s
    if params.interval ≤ now - s.lastTimeSent then
      ({ s with lastTimeSent := now }, sapSend params s chans.length)
    else (s, [])

/-- What `update_chan_net` gives the channels: addresses and ports from its templates, and what
`makesocket` or `makeclientsocket` returns, which is not the descriptor 0. -/
structure Opened where
  ipOut : Nat → IpVersion → List UInt8
  portOut : Nat → Nat
  socket : Nat → IpVersion → Int
  standardInput : ∀ i ip, socket i ip ≠ 0

/-- The part of `update_chan_net` that is about the multicast of a channel. -/
def openMulticast (opened : Opened) (chans : List UnicastChannel) (s : Sap) : Sap :=
  { s with
    channels := fun i =>
      match chans[i]? with
      | none => s.channels i
      | some chan =>
        if chan.channelReady = .almostReady ∧ params.multicast = true then
          { s.channels i with
            ipOut := opened.ipOut i
            portOut := opened.portOut i
            socketOut := fun ip =>
              if params.multicastIp ip = true ∧ (s.channels i).socketOut ip ≤ 0 then
                opened.socket i ip
              else (s.channels i).socketOut ip }
        else s.channels i }

/-- `autoconf_update_chan_name`: a name for every channel, and whether it is to be announced now. -/
def nameChannels (names : Nat → List UInt8 × Bool) (chans : List UnicastChannel) (s : Sap) : Sap :=
  { s with
    channels := fun i =>
      if i < chans.length then
        { s.channels i with name := (names i).1, sapNeedUpdate := (names i).2 }
      else s.channels i }

end code

structure State where
  table : RemovedServices.State
  sap : Sap
  /-- what the last step has sent -/
  sent : List Sent

inductive Event where
  | table (e : RemovedServices.Event)
  | net (net : NetP) (vars : UnicastVars) (opened : Opened)
  | names (names : Nat → List UInt8 × Bool)
  | poll (now : Int) (stack : Nat → Stack)

/-- Tables are read, the status of the channels and their network are updated, channels are named
and the announces are polled. -/
inductive Step (params : SapParameters) (env : Surroundings) : State → Event → State → Prop where
  | table {s : State} {e : RemovedServices.Event} {t : RemovedServices.State}
      (other : ∀ net vars, e ≠ .net net vars) (step : RemovedServices.Step env s.table e t) :
      Step params env s (.table e) ⟨t, s.sap, []⟩
  | net {s : State} {net : NetP} {vars : UnicastVars} {opened : Opened} {t : RemovedServices.State}
      (step : RemovedServices.Step env s.table (.net net vars) t) :
      Step params env s (.net net vars opened)
        ⟨t, openMulticast params opened (server s.table.chanP) s.sap, []⟩
  | names {s : State} {names : Nat → List UInt8 × Bool} :
      Step params env s (.names names)
        { s with
          sap := nameChannels names (server s.table.chanP) s.sap
          sent := [] }
  | poll {s : State} {now : Int} {stack : Nat → Stack} :
      Step params env s (.poll now stack)
        { s with
          sap := (sapPoll params (server s.table.chanP) now stack s.sap).1
          sent := (sapPoll params (server s.table.chanP) now stack s.sap).2 }

/-- The messages have been cleared and nothing has been sent. -/
def system (params : SapParameters) (env : Surroundings) : System State Event where
  Initial s := (RemovedServices.system env).Initial s.table ∧
    (∀ ip i, (s.sap.messages ip i).toBeSent = false) ∧ s.sap.lastTimeSent = 0 ∧ s.sent = []
  Step := Step params env

/-- The message announces a channel of that name. -/
def Announces (params : SapParameters) (ip : IpVersion) (buf name : List UInt8) : Prop :=
  ∃ (version : Nat) (channel : SapChannel) (stack : Stack), channel.name = name ∧
    buf = hashed (header params ip stack ++ sdp params channel ip version stack)

/-- What has been sent belongs to channels that are ready, and has the names of their last
updates. -/
def Live (params : SapParameters) (_ : List Event) (s : State) : Prop :=
  ∀ m ∈ s.sent, (∃ chan, (server s.table.chanP)[m.i]? = some chan ∧
    chan.channelReady.isReady = true) ∧ Announces params m.ip m.buf (s.sap.updated m.i)

/-- The messages are sent now. -/
def Due (params : SapParameters) (s : Sap) (now : Int) : Prop :=
  ¬ (allocated params .v4 = false ∧ allocated params .v6 = false) ∧
    (s.lastTimeSent = 0 ∨ params.interval ≤ now - s.lastTimeSent)

/-- When the messages are sent, no channel that has one has gone down. -/
def NoneDown (params : SapParameters) (s : State) : Event → Prop
  | .poll now _ => Due params s.sap now → ∀ (i : Nat) (chan : UnicastChannel) (ip : IpVersion),
      (server s.table.chanP)[i]? = some chan → allocated params ip = true →
        (s.sap.messages ip i).toBeSent = true → chan.channelReady.isReady = true
  | _ => True

/-- A message that is to be sent is for a channel with a socket, and has the name of its last
update. -/
def Kept (params : SapParameters) (s : Sap) : Prop :=
  ∀ (ip : IpVersion) (i : Nat), (s.messages ip i).toBeSent = true →
    (s.channels i).socketOut ip ≠ 0 ∧ Announces params ip (s.messages ip i).buf (s.updated i)

section update

variable {params : SapParameters} {s : Sap} {chans : List UnicastChannel} {stack : Nat → Stack}

theorem withGroup_same (serviceType : Nat) (channel : SapChannel) :
    (withGroup params serviceType channel).name = channel.name ∧
      (withGroup params serviceType channel).socketOut = channel.socketOut := by
  rw [withGroup]
  split
  · exact ⟨rfl, rfl⟩
  · split <;> exact ⟨rfl, rfl⟩

/-- The other channels and their messages stay. -/
theorem sapUpdate_other (params : SapParameters) (s : Sap) {i j : Nat} (h : j ≠ i) (above : Stack)
    (chan : UnicastChannel) :
    (sapUpdate params above s i chan).channels j = s.channels j ∧
      (∀ ip, (sapUpdate params above s i chan).messages ip j = s.messages ip j) ∧
      (sapUpdate params above s i chan).updated j = s.updated j := by
  refine ⟨Function.update_of_ne h _ _, fun ip => ?_, Function.update_of_ne h _ _⟩
  simp only [sapUpdate]
  split
  · split
    · rfl
    · exact Function.update_of_ne h _ _
  · split
    · rfl
    · exact Function.update_of_ne h _ _

theorem message_announces {ip : IpVersion} {channel : SapChannel} {ready : Bool}
    {version : IpVersion → Nat} {above : Stack}
    (h : (message params ip (version ip) above
      (payload params ready channel version above ip)).toBeSent = true) :
    Announces params ip (message params ip (version ip) above
      (payload params ready channel version above ip)).buf channel.name := by
  rw [message, payload] at *
  dsimp only at h ⊢
  split at h
  · rename_i hsome
    rw [if_pos hsome]
    exact ⟨version ip, channel, above, rfl, rfl⟩
  · cases h

/-- The channel that is updated: its message stays when it has no socket, and is made anew when it
has one. -/
theorem sapUpdate_self (params : SapParameters) (above : Stack) (s : Sap) (i : Nat)
    (chan : UnicastChannel) (ip : IpVersion) :
    ((sapUpdate params above s i chan).channels i).socketOut = (s.channels i).socketOut ∧
      (sapUpdate params above s i chan).updated i = (s.channels i).name ∧
      ((s.channels i).socketOut ip = 0 →
        (sapUpdate params above s i chan).messages ip i = s.messages ip i) ∧
      ((s.channels i).socketOut ip ≠ 0 →
        ((sapUpdate params above s i chan).messages ip i).toBeSent = true →
          Announces params ip ((sapUpdate params above s i chan).messages ip i).buf
            (s.channels i).name) := by
  obtain ⟨channel, hchannel, hname, hsocket⟩ :
      ∃ channel, channel = (if chan.channelReady.isReady then
          withGroup params chan.serviceType (s.channels i) else s.channels i) ∧
        channel.name = (s.channels i).name ∧ channel.socketOut = (s.channels i).socketOut := by
    refine ⟨_, rfl, ?_⟩
    split
    · exact withGroup_same _ _
    · exact ⟨rfl, rfl⟩
  simp only [sapUpdate, ← hchannel, Function.update_self, ← hsocket, ← hname]
  refine ⟨trivial, trivial, fun hzero => ?_, fun hne => ?_⟩
  · rw [if_pos hzero]
  · rw [if_neg hne, Function.update_self]
    exact message_announces

theorem sapUpdate_kept (h : Kept params s) (above : Stack) (i : Nat) (chan : UnicastChannel) :
    Kept params (sapUpdate params above s i chan) := by
  intro ip j hmarked
  by_cases hj : j = i
  · subst hj
    obtain ⟨hsocket, hupdated, hold, hnew⟩ := sapUpdate_self params above s j chan ip
    rw [hsocket, hupdated]
    by_cases hzero : (s.channels j).socketOut ip = 0
    · rw [hold hzero] at hmarked
      exact absurd hzero (h ip j hmarked).1
    · exact ⟨hzero, hnew hzero hmarked⟩
  · obtain ⟨hchannel, hmessage, hupdated⟩ :=
      sapUpdate_other params s hj above chan
    rw [hmessage] at hmarked ⊢
    rw [hchannel, hupdated]
    exact h ip j hmarked

/-- A turn leaves everything as it is, or updates a channel that is ready. -/
theorem updateReady_cases (params : SapParameters) (which : SapChannel → Bool)
    (chans : List UnicastChannel) (stack : Nat → Stack) (s : Sap) (i : Nat) :
    updateReady params which chans stack s i = s ∨
      ∃ chan, chans[i]? = some chan ∧ chan.channelReady.isReady = true ∧
        updateReady params which chans stack s i = sapUpdate params (stack i) s i chan := by
  rw [updateReady]
  split
  · exact .inl rfl
  · rename_i chan hchan
    split
    · rename_i hready
      exact .inr ⟨chan, hchan, hready.2, rfl⟩
    · exact .inl rfl

/-- What the turns keep, the loops keep. -/
theorem refresh_keeps {P : Sap → Prop}
    (hturn : ∀ which s i, P s → P (updateReady params which chans stack s i))
    (htime : ∀ s (time : Int), P s → P { s with lastTimeSent := time }) (now : Int) (h : P s) :
    P (refresh params chans now stack s) := by
  have hloop : ∀ (which : SapChannel → Bool) (is : List Nat) (s : Sap), P s →
      P (is.foldl (updateReady params which chans stack) s) := by
    intro which is
    induction is with
    | nil => exact fun _ h => h
    | cons i is ih => exact fun s h => ih _ (hturn which s i h)
  rw [refresh]
  refine hloop _ _ _ ?_
  split
  · exact htime _ _ (hloop _ _ _ h)
  · exact h

theorem refresh_kept (h : Kept params s) (now : Int) :
    Kept params (refresh params chans now stack s) := by
  refine refresh_keeps (fun which s i h => ?_) (fun _ _ h => h) now h
  obtain hsame | ⟨chan, -, -, hupdate⟩ :=
    updateReady_cases params which chans stack s i
  · rw [hsame]
    exact h
  · rw [hupdate]
    exact sapUpdate_kept h (stack i) i chan

/-- The message of a channel that is not ready stays. -/
theorem refresh_down (params : SapParameters) (stack : Nat → Stack) {j : Nat}
    (hdown : ∀ chan, chans[j]? = some chan → chan.channelReady.isReady = false)
    (now : Int) (s : Sap) (ip : IpVersion) :
    (refresh params chans now stack s).messages ip j = s.messages ip j := by
  refine refresh_keeps (P := fun s' => s'.messages ip j = s.messages ip j)
    (fun which s' i h => ?_) (fun _ _ h => h) now rfl
  obtain hsame | ⟨chan, hchan, hready, hupdate⟩ :=
    updateReady_cases params which chans stack s' i
  · rw [hsame]
    exact h
  · have hne : j ≠ i := by
      rintro rfl
      rw [hdown chan hchan] at hready
      cases hready
    rw [hupdate, (sapUpdate_other params s' hne (stack i) chan).2.1 ip]
    exact h

theorem refresh_lastTimeSent (chans : List UnicastChannel) (now : Int) (stack : Nat → Stack)
    (s : Sap) : (refresh params chans now stack s).lastTimeSent =
      if s.lastTimeSent = 0 then now - params.interval - 1 else s.lastTimeSent := by
  have hloop : ∀ (which : SapChannel → Bool) (is : List Nat) (s : Sap),
      (is.foldl (updateReady params which chans stack) s).lastTimeSent = s.lastTimeSent := by
    intro which is
    induction is with
    | nil => exact fun _ => rfl
    | cons i is ih =>
      intro s
      rw [List.foldl_cons, ih]
      obtain hsame | ⟨chan, -, -, hupdate⟩ :=
        updateReady_cases params which chans stack s i
      · rw [hsame]
      · rw [hupdate]
        rfl
  rw [refresh, hloop]
  split <;> rfl

end update

section poll

variable {params : SapParameters} {s : Sap} {chans : List UnicastChannel} {stack : Nat → Stack}
  {now : Int}

theorem mem_sapSend {n : Nat} {m : Sent} : m ∈ sapSend params s n ↔
    m.i < n ∧ allocated params m.ip = true ∧ (s.messages m.ip m.i).toBeSent = true ∧
      m.buf = (s.messages m.ip m.i).buf := by
  simp only [sapSend, List.mem_flatMap, List.mem_range, List.mem_filterMap]
  constructor
  · rintro ⟨i, hi, ip, -, hsent⟩
    split at hsent
    · rename_i hmarked
      cases hsent
      exact ⟨hi, hmarked.1, hmarked.2, rfl⟩
    · cases hsent
  · rintro ⟨hi, hallocated, hmarked, hbuf⟩
    refine ⟨m.i, hi, m.ip, ?_, ?_⟩
    · cases m.ip <;> decide
    · rw [if_pos ⟨hallocated, hmarked⟩, ← hbuf]

/-- The first time the messages are sent at once. -/
theorem due_refresh (hallocated : ¬ (allocated params .v4 = false ∧ allocated params .v6 = false)) :
    Due params s now ↔
      params.interval ≤ now - (refresh params chans now stack s).lastTimeSent := by
  rw [Due, refresh_lastTimeSent, and_iff_right hallocated]
  split
  · rename_i hfirst
    exact iff_of_true (.inl hfirst) (by omega)
  · rename_i hlater
    exact or_iff_right hlater

theorem sapPoll_due (h : Due params s now) :
    (sapPoll params chans now stack s).2 =
      sapSend params (refresh params chans now stack s) chans.length := by
  rw [sapPoll, if_neg h.1]
  dsimp only
  rw [if_pos ((due_refresh h.1).mp h)]

theorem sapPoll_early (h : ¬ Due params s now) : (sapPoll params chans now stack s).2 = [] := by
  rw [sapPoll]
  split
  · rfl
  · rename_i hallocated
    dsimp only
    rw [if_neg (fun hdue => h ((due_refresh hallocated).mpr hdue))]

/-- Behind `sap_poll` the table is the refreshed one, but for the time. -/
theorem sapPoll_table (params : SapParameters) (chans : List UnicastChannel) (now : Int)
    (stack : Nat → Stack) (s : Sap) :
    (sapPoll params chans now stack s).1 = s ∨
      ∃ time, (sapPoll params chans now stack s).1 =
        { refresh params chans now stack s with lastTimeSent := time } := by
  rw [sapPoll]
  split
  · exact .inl rfl
  · dsimp only
    split
    · exact .inr ⟨now, rfl⟩
    · exact .inr ⟨_, rfl⟩

theorem sapPoll_due_updated (h : Due params s now) :
    (sapPoll params chans now stack s).1.updated =
      (refresh params chans now stack s).updated := by
  rw [sapPoll, if_neg h.1]
  dsimp only
  rw [if_pos ((due_refresh h.1).mp h)]

theorem sapPoll_kept (h : Kept params s) : Kept params (sapPoll params chans now stack s).1 := by
  obtain hsame | ⟨time, htable⟩ := sapPoll_table params chans now stack s
  · rw [hsame]
    exact h
  · rw [htable]
    exact refresh_kept h now

end poll

section run

variable {params : SapParameters} {env : Surroundings} {s s' : State} {e : Event}

theorem openMulticast_kept {sap : Sap} (opened : Opened) (chans : List UnicastChannel)
    (h : Kept params sap) :
    Kept params (openMulticast params opened chans sap) := by
  intro ip i hmarked
  obtain ⟨hsocket, hannounces⟩ := h ip i hmarked
  refine ⟨?_, hannounces⟩
  dsimp only [openMulticast]
  split
  · exact hsocket
  · split
    · dsimp only
      split
      · exact opened.standardInput i ip
      · exact hsocket
    · exact hsocket

theorem nameChannels_kept {sap : Sap} (names : Nat → List UInt8 × Bool)
    (chans : List UnicastChannel) (h : Kept params sap) :
    Kept params (nameChannels names chans sap) := by
  intro ip i hmarked
  obtain ⟨hsocket, hannounces⟩ := h ip i hmarked
  refine ⟨?_, hannounces⟩
  dsimp only [nameChannels]
  split <;> exact hsocket

theorem step_kept (hstep : Step params env s e s') (h : Kept params s.sap) :
    Kept params s'.sap := by
  cases hstep with
  | table => exact h
  | net => exact openMulticast_kept _ _ h
  | names => exact nameChannels_kept _ _ h
  | poll => exact sapPoll_kept h

theorem run_kept {past : List Event} (hrun : Run (system params env) past s) :
    Kept params s.sap :=
  Run.invariant (P := fun _ s => Kept params s.sap)
    (fun s hinitial ip i hmarked => by
      rw [hinitial.2.1 ip i] at hmarked
      cases hmarked)
    (fun _ _ _ _ h hstep => step_kept hstep h) hrun

/-- What is sent in one step. -/
theorem step_live (hkept : Kept params s.sap) (hstep : Step params env s e s') (past : List Event) :
    Live params past s' ↔ NoneDown params s e := by
  cases hstep with
  | table => exact iff_of_true (fun m hm => by cases hm) trivial
  | net => exact iff_of_true (fun m hm => by cases hm) trivial
  | names => exact iff_of_true (fun m hm => by cases hm) trivial
  | @poll now stack =>
    by_cases hdue : Due params s.sap now
    · simp only [Live, NoneDown, sapPoll_due hdue, sapPoll_due_updated hdue, mem_sapSend]
      constructor
      · intro hlive _ i chan ip hchan hallocated hmarked
        cases hready : chan.channelReady.isReady with
        | true => rfl
        | false =>
          have hdown : ∀ c, (server s.table.chanP)[i]? = some c →
              c.channelReady.isReady = false := by
            intro c hc
            rw [hchan] at hc
            cases hc
            exact hready
          have hsame := refresh_down params stack hdown now s.sap ip
          obtain ⟨⟨c, hc, hcready⟩, -⟩ := hlive
            ⟨i, ip, ((refresh params (server s.table.chanP) now stack s.sap).messages ip i).buf⟩
            ⟨(List.getElem?_eq_some_iff.mp hchan).1, hallocated, by rw [hsame]; exact hmarked, rfl⟩
          rw [hchan] at hc
          cases hc
          rw [hready] at hcready
          cases hcready
      · rintro hdown m ⟨hi, hallocated, hmarked, hbuf⟩
        have hchan := List.getElem?_eq_getElem hi
        refine ⟨⟨_, hchan, ?_⟩, ?_⟩
        · cases hready : (server s.table.chanP)[m.i].channelReady.isReady with
          | true => rfl
          | false =>
            rw [refresh_down params stack (fun c hc => by
              rw [hchan] at hc
              cases hc
              exact hready)] at hmarked
            rw [← hready]
            exact hdown hdue m.i _ m.ip hchan hallocated hmarked
        · rw [hbuf]
          exact (refresh_kept hkept now m.ip m.i hmarked).2
    · refine iff_of_true (fun m hm => ?_) (fun h => absurd h hdue)
      simp only [sapPoll_early hdue] at hm
      cases hm

/-- The runs in which no channel that has a message has gone down when the messages are sent are
those in which only channels that are ready are announced, with the names of their updates. -/
theorem live_run_iff (params : SapParameters) (env : Surroundings) (past : List Event) (s : State) :
    Run ((system params env).restrict (NoneDown params)) past s ↔
      Along (system params env) (Live params) past s := by
  refine along_iff (fun s hinitial m hm => ?_) (fun past s e s' hrun _ hstep => ?_) past s
  · rw [hinitial.2.2.2] at hm
    cases hm
  · exact step_live (run_kept hrun) hstep _

/-- What the program does in a step, behind the sections zeros. -/
def handle (params : SapParameters) (s : State) : Event → Checked State
  | .table (.net _ _) => .error .outOfBounds
  | .table e => do
    let t ← RemovedServices.handle s.table e
    return ⟨t, s.sap, []⟩
  | .net net vars opened => do
    let t ← RemovedServices.handle s.table (.net net vars)
    return ⟨t, openMulticast params opened (server s.table.chanP) s.sap, []⟩
  | .names names =>
    .ok { s with
      sap := nameChannels names (server s.table.chanP) s.sap
      sent := [] }
  | .poll now stack =>
    let (sap, sent) := sapPoll params (server s.table.chanP) now stack s.sap
    .ok { s with sap := sap, sent := sent }

theorem step_handle (h : handle params s e = .ok s') :
    (system params TableReads.plain).Step s e s' := by
  cases e with
  | table e =>
    have htable (hnet : ∀ net vars, e ≠ .net net vars)
        (h : (do
          let t ← RemovedServices.handle s.table e
          return ⟨t, s.sap, []⟩ : Checked State) = .ok s') :
        (system params TableReads.plain).Step s (.table e) s' := by
      obtain ⟨t, ht, h⟩ := bind_eq_ok.mp h
      cases h
      exact .table hnet (RemovedServices.step_handle ht)
    cases e with
    | pat => exact htable (fun _ _ h => by cases h) h
    | sdt => exact htable (fun _ _ h => by cases h) h
    | status => exact htable (fun _ _ h => by cases h) h
    | net => cases h
  | net net vars opened =>
    obtain ⟨t, ht, h⟩ := bind_eq_ok.mp h
    cases h
    exact .net (RemovedServices.step_handle ht)
  | names names =>
    cases h
    exact .names
  | poll now stack =>
    cases h
    exact .poll

end run

/-- Announces of version 4, every five seconds. -/
def everyFive : SapParameters where
  on := true
  multicast := true
  multicastIp ip := ip = .v4
  rtpHeader := false
  ttl := 2
  interval := 5
  serial := 1
  organisation := []
  uri := []
  defaultGroup := none
  sendingIp _ := []
  sendingAddress _ := none
  muVersion := []

/-- Nothing has been opened, named or made. -/
def silent : Sap where
  channels _ := ⟨[], false, fun _ => 0, fun _ => [], 0, []⟩
  messages _ _ := ⟨[], 0, false⟩
  lastTimeSent := 0
  updated _ := []

def cleared : Nat → Stack := fun _ => ⟨fun _ => 0, fun _ => 0⟩

theorem five_standardInput : (5 : Int) ≠ 0 := by decide

/-- Every socket has the descriptor 5. -/
def onFive : Opened := ⟨fun _ _ => [], fun _ => 1234, fun _ _ => 5, fun _ _ => five_standardInput⟩

/-- Service 1 comes up and is announced; then it leaves the table. -/
def announcedBefore : List Event :=
  [.table (.pat (accepted _ _ RemovedServices.currentPat_accepted)),
    .table (.sdt (accepted _ _ firstSdt_accepted)),
    .table .status,
    .net ⟨false, none, fun _ => 0⟩ noVars onFive,
    .poll 100 cleared,
    .table (.pat (accepted _ _ secondPat_accepted)),
    .poll 105 cleared]

/-- It is announced again five seconds later. -/
theorem not_live_announcedBefore : ¬ ∀ past s, Run (system everyFive TableReads.plain) past s →
    Live everyFive past s := by
  have h : (announcedBefore.foldlM (handle everyFive)
      ⟨⟨TableReads.started, TableReads.noChannels, []⟩, silent, []⟩).map (fun s =>
        (s.sent.map (·.i), (server s.table.chanP)[0]?.map (·.channelReady))) =
      .ok ([0], some .removed) := by decide +kernel
  obtain ⟨s, hplay, hvalues⟩ := map_eq_ok h
  simp only [Prod.mk.injEq, Option.map_eq_some_iff, List.map_eq_singleton_iff] at hvalues
  obtain ⟨⟨m, hsent, hi⟩, c, hfound, hremoved⟩ := hvalues
  have hrun := Run.foldlM id (fun _ _ _ => step_handle)
    (.start ⟨⟨⟨_, rfl⟩, rfl⟩, fun _ _ => rfl, rfl, rfl⟩) hplay
  intro hall
  have hm : m ∈ s.sent := hsent ▸ List.mem_singleton_self m
  obtain ⟨⟨chan, hchan, hready⟩, -⟩ := hall _ s hrun m hm
  rw [hi, hfound] at hchan
  cases hchan
  rw [hremoved] at hready
  cases hready

end MuMuDVB.SapAnnounces
