import MuMuDVB.UnicastClients

/-!
# The status of the channels

After new tables the autoconfiguration looks through all channels again:
`autoconf_update_chan_status` marks those that can be streamed, and
`update_chan_net` gives the marked ones their network. Both see channels that
have been streaming for long like new ones.
-/
namespace MuMuDVB.ChannelStatus

open MuMuDVB.Channel MuMuDVB.UnicastClients

/-- The part of `auto_p_t` that decides which services are streamed. -/
structure AutoP where
  autoconfScrambled : Bool
  autoconfRadios : Bool
  serviceIdList : List Int
  serviceIdListIgnore : List Int

/-- The part of the parameters that decides about listening sockets: the port that the string
`autoconf_unicast_port` gives for each channel, if there is one, and what `makeTCPclientsocket`
returns for the channel. -/
structure NetP where
  unicast : Bool
  autoconfUnicastPort : Option (Nat → Int)
  socket : Nat → Int

/-- The service types of television. -/
def televisionTypes : List Nat := [0x01, 0x11, 0x16, 0x19, 0x1f, 0x20, 0xc0]

/-- The service types of radio. -/
def radioTypes : List Nat := [0x02, 0x0a]

/-- The body of the loop of `autoconf_update_chan_status`. -/
def updateChanStatus (auto : AutoP) (channel : UnicastChannel) : UnicastChannel :=
  if channel.channelReady = .removed then channel
  -- "If channel user specified, it's always up"
  else if channel.serviceIdFrom ≠ .detected then channel
  else if auto.autoconfScrambled = false ∧ channel.freeCaMode = true then
    { channel with channelReady := .noStreaming }
  else if channel.pmtPid = 0 then { channel with channelReady := .noStreaming }
  else if auto.serviceIdList ≠ [] ∧ channel.http.serviceId ∉ auto.serviceIdList then
    { channel with channelReady := .noStreaming }
  else if channel.http.serviceId ∈ auto.serviceIdListIgnore then
    { channel with channelReady := .noStreaming }
  else if channel.serviceType ∈ televisionTypes ∨
      (channel.serviceType ∈ radioTypes ∧ auto.autoconfRadios = true) then
    { channel with channelReady := .almostReady }
  else channel

/-- Only the status of a channel changes. -/
theorem updateChanStatus_eq (auto : AutoP) (channel : UnicastChannel) :
    ∃ status, updateChanStatus auto channel = { channel with channelReady := status } := by
  rw [updateChanStatus]
  repeat' split
  all_goals exact ⟨_, rfl⟩

/-- The clients of a channel do not count. -/
theorem updateChanStatus_server (auto : AutoP) (channel : UnicastChannel) :
    (updateChanStatus auto channel).clients = channel.clients ∧
      (updateChanStatus auto channel).numClients = channel.numClients := by
  obtain ⟨status, hstatus⟩ := updateChanStatus_eq auto channel
  rw [hstatus]
  exact ⟨rfl, rfl⟩

/-- `autoconf_update_chan_status` -/
def autoconfUpdateChanStatus (auto : AutoP) (channels : List UnicastChannel) :
    List UnicastChannel :=
  channels.map (updateChanStatus auto)

/-- What `update_chan_net` does with a channel before the sockets. -/
def readyChannel (net : NetP) (i : Nat) (channel : UnicastChannel) : UnicastChannel :=
  { channel with
    channelReady := .ready
    unicastPort := match net.autoconfUnicastPort with
      | some port => if net.unicast = true ∧ channel.unicastPortFrom ≠ .user then port i
        else channel.unicastPort
      | none => channel.unicastPort
    -- "Set the number of unicast clients to zero"
    numClients := 0 }

/-- The body of the loop of `update_chan_net`. -/
def updateChannelNet (net : NetP) (s : UnicastVars) (i : Nat) : UnicastVars :=
  match s.channels[i]? with
  | none => s
  | some channel =>
    if channel.channelReady = .almostReady then
      let channel := readyChannel net i channel
      if channel.unicastPort ≠ 0 ∧ net.unicast = true ∧ channel.socketIn ≤ 0 then
        let s := unicastCreateListeningSocket s .listenChannel i (net.socket i)
        { s with channels := s.channels.set i { channel with socketIn := net.socket i } }
      else { s with channels := s.channels.set i channel }
    else s

/-- `update_chan_net` -/
def updateChanNet (net : NetP) (s : UnicastVars) : UnicastVars :=
  (List.range s.channels.length).foldl (updateChannelNet net) s

/-- The part of the autoconfiguration after new tables. -/
def updateChannels (auto : AutoP) (net : NetP) (s : UnicastVars) : UnicastVars :=
  updateChanNet net { s with channels := autoconfUpdateChanStatus auto s.channels }

end MuMuDVB.ChannelStatus
