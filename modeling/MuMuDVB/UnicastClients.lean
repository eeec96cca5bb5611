import MuMuDVB.Channel
import MuMuDVB.LinkedList
import MuMuDVB.UnicastHttp
import MuMuDVB.UnicastSend

/-!
# The clients of the HTTP server

A client is a block that is linked in the list of all clients and, when it gets
a channel, in the list of that channel. Beside the lists there are two parallel
arrays with an entry for every descriptor that is polled. Allocations succeed.
-/
namespace MuMuDVB.UnicastClients

open CheckedMemory CheckedHeap LinkedList MuMuDVB.Channel MuMuDVB.UnicastHttp
open MuMuDVB.UnicastQueue (Block unicastQueueClear)
open MuMuDVB.UnicastSend (UnicastClient)

/-- `unicast_client_t`: the socket, its messages, what is sent to it, and the links. -/
structure Client where
  socket : Int
  http : HttpClient
  sending : UnicastClient
  firstErrorTime : Int
  next : Option Addr
  prev : Option Addr
  chanNext : Option Addr
  chanPrev : Option Addr

def clientLinks : Links Client where
  next := Client.next
  prev := Client.prev
  setNext n p := { n with next := p }
  setPrev n p := { n with prev := p }
  next_setNext _ _ := rfl
  prev_setNext _ _ := rfl
  next_setPrev _ _ := rfl
  prev_setPrev _ _ := rfl

def channelLinks : Links Client where
  next := Client.chanNext
  prev := Client.chanPrev
  setNext n p := { n with chanNext := p }
  setPrev n p := { n with chanPrev := p }
  next_setNext _ _ := rfl
  prev_setNext _ _ := rfl
  next_setPrev _ _ := rfl
  prev_setPrev _ _ := rfl

/-- UNICAST_MASTER, UNICAST_LISTEN_CHANNEL, UNICAST_CLIENT -/
inductive FdType where
  | master | listenChannel | client
  deriving DecidableEq, Repr

/-- `unicast_fd_info_t` -/
structure FdInfo where
  type : FdType
  channel : Int
  client : Option Addr

/-- Where a value of a channel comes from. -/
inductive Origin where
  | undef | user | detected
  deriving DecidableEq, Repr

/-- The part of `mumudvb_channel_t` that the server and the autoconfiguration share. -/
structure UnicastChannel where
  http : HttpChannel
  clients : Option Addr
  numClients : Int
  channelReady : ChanStatus
  serviceIdFrom : Origin
  freeCaMode : Bool
  pmtPid : Nat
  serviceType : Nat
  unicastPort : Int
  unicastPortFrom : Origin
  socketIn : Int

/-- `unicast_parameters_t`, with the channels. `pfds` has one entry more than descriptors. -/
structure UnicastVars where
  heap : Heap Client
  blocks : Heap Block
  clients : Option Addr
  clientNumber : Int
  maxClients : Int
  pfds : List Int
  fdInfo : List FdInfo
  pfdsnum : Nat
  channels : List UnicastChannel

/-- A client after `calloc` and the assignments of `unicast_add_client`. -/
def newClient (socket : Int) : Client :=
  ⟨socket, UnicastHttp.newClient, UnicastSend.newClient, 0, none, none, none, none⟩

/-- `unicast_add_client` -/
def unicastAddClient (s : UnicastVars) (socket : Int) : Checked (Addr × UnicastVars) := do
  let (client, h) := s.heap.alloc (newClient socket)
  let (h, clients) ← append clientLinks h s.clients client
  return (client, { s with heap := h, clients := clients, clientNumber := s.clientNumber + 1 })

/-- `channel_add_unicast_client`; `written` says that the whole reply has been written. -/
def channelAddUnicastClient (s : UnicastVars) (client : Addr) (i : Nat) (written : Bool) :
    Checked (Bool × UnicastVars) :=
  match s.channels[i]? with
  | none => .error .outOfBounds
  | some channel =>
    if written then do
      let (h, clients) ← append channelLinks s.heap channel.clients client
      return (true, { s with
        heap := h
        channels := s.channels.set i { channel with
          clients := clients
          numClients := channel.numClients + 1 } })
    else return (false, s)

/-- "We delete the client in the channel" -/
def channelDelClient (s : UnicastVars) (n : Client) : Checked UnicastVars :=
  match n.http.chanPtr with
  | none => .ok s
  | some i =>
    match s.channels[i]? with
    | none => .error .outOfBounds
    | some channel => do
      let (h, clients) ← unlink channelLinks s.heap channel.clients n
      return { s with
        heap := h
        channels := s.channels.set i { channel with
          clients := clients
          numClients := channel.numClients - 1 } }

/-- `unicast_del_client` -/
def unicastDelClient (s : UnicastVars) (client : Addr) : Checked UnicastVars := do
  let n ← s.heap.read client
  let (h, clients) ← unlink clientLinks s.heap s.clients n
  let s ← channelDelClient { s with heap := h, clients := clients } n
  let (blocks, _) ← unicastQueueClear (n.sending.queue.packetsInQueue + 1) s.blocks n.sending.queue
  let h ← s.heap.free client
  return { s with heap := h, blocks := blocks, clientNumber := s.clientNumber - 1 }

/-- A descriptor more to poll, and the entry about it. -/
def UnicastVars.addFd (s : UnicastVars) (fd : Int) (info : FdInfo) : UnicastVars :=
  { s with
    pfdsnum := s.pfdsnum + 1
    pfds := s.pfds.set s.pfdsnum fd ++ [0]
    fdInfo := s.fdInfo ++ [info] }

/-- The last descriptor moves to place `i`, and the arrays shrink by one. -/
def moveLastFd (s : UnicastVars) (i : Nat) : Checked UnicastVars :=
  match s.pfds[s.pfdsnum - 1]?, s.fdInfo[s.pfdsnum - 1]? with
  | some fd, some info => .ok { s with
      pfdsnum := s.pfdsnum - 1
      pfds := ((s.pfds.set i fd).set (s.pfdsnum - 1) 0).take s.pfdsnum
      fdInfo := (s.fdInfo.set i info).take (s.pfdsnum - 1) }
  | _, _ => .error .outOfBounds

/-- `unicast_close_connection` -/
def unicastCloseConnection (s : UnicastVars) (socket : Int) : Checked UnicastVars :=
  match (s.pfds.take s.pfdsnum).findIdx? (· == socket) with
  -- "we did't find the file descriptor this should never happend"
  | none => .ok s
  | some i =>
    match (s.fdInfo[i]?).bind FdInfo.client with
    | none => .error .outOfBounds
    | some client => do
      let s ← unicastDelClient s client
      moveLastFd s i

/-- `unicast_create_listening_socket`, for the descriptor that `makeTCPclientsocket` returns. -/
def unicastCreateListeningSocket (s : UnicastVars) (type : FdType) (channel fd : Int) :
    UnicastVars :=
  if 0 < fd then s.addFd fd ⟨type, channel, none⟩ else s

/-- An event on a listening socket, for the descriptor that `accept` returns. -/
def unicastAcceptConnection (s : UnicastVars) (i : Nat) (fd : Int) : Checked UnicastVars :=
  match s.fdInfo[i]? with
  | none => .error .outOfBounds
  | some info =>
    -- "Too many clients connected"
    if 0 < s.maxClients ∧ s.maxClients ≤ s.clientNumber then .ok s
    else do
      let (client, s) ← unicastAddClient s fd
      let s := s.addFd fd ⟨.client, -1, some client⟩
      if info.type = .listenChannel then do
        let h ← modify s.heap client fun n =>
          { n with http := { n.http with askedChannel := info.channel } }
        return { s with heap := h }
      else return s

/-- `chan_ptr=&channels[i]`, when the client has been added to the channel; else it is closed. -/
def attachClient (s : UnicastVars) (fd : Int) (client : Addr) (channel : Int) (written : Bool) :
    Checked UnicastVars :=
  if channel < 0 then .error .outOfBounds
  else do
    let (added, s) ← channelAddUnicastClient s client channel.toNat written
    if added then do
      let h ← modify s.heap client fun n =>
        { n with http := { n.http with chanPtr := some channel.toNat } }
      return { s with heap := h }
    else unicastCloseConnection s fd

/-- An event on the socket of a client: `unicast_handle_message` and, for −2, the end of the
connection. -/
def unicastHandleClient (s : UnicastVars) (i : Nat) (a : Arrival) (written : Bool) :
    Checked UnicastVars :=
  match s.pfds[i]?, (s.fdInfo[i]?).bind FdInfo.client with
  | some fd, some client => do
    let n ← s.heap.read client
    let (action, http) ← handleMessage (s.channels.map UnicastChannel.http) n.http a
    let h ← s.heap.write client { n with http := http }
    let s := { s with heap := h }
    match action with
    | .attach channel => attachClient s fd client channel written
    | .send _ => unicastCloseConnection s fd
    | .hangUp => unicastCloseConnection s fd
    | .wait => return s
    | .fail => return s
    | .refuse => return s
    | .done => return s
  | _, _ => .error .outOfBounds

end MuMuDVB.UnicastClients
