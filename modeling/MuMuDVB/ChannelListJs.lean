import MuMuDVB.Channel
import MuMuDVB.HttpReply
import MuMuDVB.JsonText

/-!
# The list of the channels as JSON

Every element of a list is written with a comma behind it, and the last comma is
taken away again by stepping back over what was written. An empty list is
written as a list with one empty object.
-/
namespace MuMuDVB.ChannelListJs

open CheckedMemory CString JsonText MuMuDVB.HttpReply
open MuMuDVB.Channel (ChanStatus)

/-- What is listed of a `unicast_client_t`. -/
structure JsClient where
  socket : Int
  buffersize : Int
  consecutiveErrors : Int
  firstErrorTime : Int
  lastWriteError : Int

/-- An entry of the PID list. -/
structure JsPid where
  pid : Int
  type : Nat
  language : List UInt8

/-- What is listed of a `mumudvb_channel_t`; the ring buffer gives the packets in it. -/
structure JsChannel where
  channelReady : ChanStatus
  logicalChannelNumber : Int
  name : List UInt8
  sapGroup : List UInt8
  ip4Out : List UInt8
  portOut : Int
  numClients : Int
  ratioScrambled : Int
  hasTraffic : Int
  pcrPid : Int
  pmtVersion : Int
  unicastPort : Int
  serviceId : Int
  serviceType : Nat
  pids : List JsPid
  clients : List JsClient
  scamSupport : Int
  ringBuf : Option Nat
  ringBufferSize : Nat
  decsaDelay : Nat
  sendDelay : Nat

/-- Around the list: whether descrambling is built in and on, and what `socket_to_string_port` gives
for the socket of a client. -/
structure Around where
  scamSupport : Bool
  socketToStringPort : Int → List UInt8 × Nat

/-- `pid_type_to_str` -/
def pidTypeToStr (type : Nat) : List UInt8 :=
  match type with
  | 1 => bytes "PMT"
  | 2 => bytes "PCR"
  | 3 => bytes "Video (MPEG1)"
  | 4 => bytes "Video (MPEG2)"
  | 5 => bytes "Video (MPEG4-ASP)"
  | 6 => bytes "Video (MPEG4-AVC)"
  | 7 => bytes "Video (MPEG4-HVC)"
  | 8 => bytes "Audio (MPEG1)"
  | 9 => bytes "Audio (MPEG2)"
  | 10 => bytes "Audio (AAC-LATM)"
  | 11 => bytes "Audio (AAC-ADTS)"
  | 12 => bytes "Audio (ATSC A/53B)"
  | 13 => bytes "Audio (AC3)"
  | 14 => bytes "Audio (E-AC3)"
  | 15 => bytes "Audio (DTS)"
  | 16 => bytes "Audio (AAC)"
  | 17 => bytes "VBI Data"
  | 18 => bytes "VBI Teletext"
  | 19 => bytes "Teletext"
  | 20 => bytes "Subtitling"
  | 21 => bytes "Application Signalling"
  | 22 => bytes "CA information (ECM)"
  | 23 => bytes "CA information (EMM)"
  | _ => bytes "Unknown"

/-- `service_type_descr` -/
def serviceTypeDescr : List (Nat × List UInt8) :=
  [(0x01, bytes "Television"),
    (0x02, bytes "Radio"),
    (0x03, bytes "Teletext"),
    (0x04, bytes "NVOD Reference service"),
    (0x05, bytes "NVOD Time shifted service"),
    (0x06, bytes "Mosaic service"),
    (0x07, bytes "FM radio service"),
    (0x08, bytes "DVB SRM service"),
    (0x0a, bytes "Advanced codec Radio"),
    (0x0b, bytes "Advanced codec mosaic"),
    (0x0c, bytes "Data broadcast service"),
    (0x0d, bytes "Reserved for common interface usage"),
    (0x0e, bytes "RCS Map"),
    (0x0f, bytes "RCS FLS"),
    (0x10, bytes "DVB MHP (multimedia home platform)"),
    (0x11, bytes "Television MPEG2-HD"),
    (0x16, bytes "Advanced codec SD Television"),
    (0x17, bytes "Advanced codec SD NVOD Time shifted service"),
    (0x18, bytes "Advanced codec SD NVOD Reference service"),
    (0x19, bytes "Advanced codec HD Television"),
    (0x1a, bytes "Advanced codec HD NVOD Time shifted service"),
    (0x1b, bytes "Advanced codec HD NVOD Reference service"),
    (0x1c, bytes "advanced codec frame compatible 3D HD digital television service"),
    (0x1d, bytes "advanced codec frame compatible 3D HD NVOD time-shifted service"),
    (0x1e, bytes "advanced codec frame compatible 3D HD NVOD reference service"),
    (0x1f, bytes "HEVC digital television service"),
    (0x20, bytes "HEVC UHD digital television service with HDR and/or a frame rate of 100 Hz, " ++
      bytes "120 000/1 001 Hz, or 120 Hz")]

/-- `service_type_to_str` -/
def serviceTypeToStr (type : Nat) : List UInt8 :=
  if 0x80 ≤ type ∧ type ≤ 0xfe then bytes "User defined"
  else
    match serviceTypeDescr.find? (·.1 == type) with
    | some descr => descr.2
    | none => bytes "Please report : Unknown service type doc : EN 300 468 v1.13.1 table 87"

/-- A `long` as `%d` takes it: its low 32 bits. -/
def asInt (n : Int) : Int := (n + 2147483648) % 4294967296 - 2147483648

/-- What is printed behind a key: `%d`, or `"%s"`. -/
inductive Value where
  | num (n : Int)
  | str (s : List UInt8)

def Value.text : Value → List UInt8
  | .num n => integer n
  | .str s => 34 :: (s ++ [34])

/-- `"\t\"key\": value,\n"` -/
def field (f : String × Value) : List UInt8 :=
  bytes "\t\"" ++ bytes f.1 ++ bytes "\": " ++ f.2.text ++ bytes ",\n"

/-- The fields that are written first, one after the other. -/
def channelFields (ch : JsChannel) : List (String × Value) :=
  [("lcn", .num ch.logicalChannelNumber),
    ("name", .str ch.name),
    ("sap_group", .str ch.sapGroup),
    ("ip_multicast", .str (if ch.ip4Out = [] then bytes "0.0.0.0" else ch.ip4Out)),
    ("port_multicast", .num ch.portOut),
    ("num_clients", .num ch.numClients),
    ("ratio_scrambled", .num ch.ratioScrambled),
    ("is_up", .num ch.hasTraffic),
    ("pcr_pid", .num ch.pcrPid),
    ("pmt_version", .num ch.pmtVersion),
    ("unicast_port", .num ch.unicastPort),
    ("service_id", .num ch.serviceId),
    ("service_type", .str (serviceTypeToStr ch.serviceType)),
    ("pids_num", .num ch.pids.length)]

def scamTexts (ch : JsChannel) : List (List UInt8) :=
  [bytes "\t\"scam\": \x7b\n\t\t \"descrambled\": " ++ integer ch.scamSupport] ++
    (if ch.scamSupport ≠ 0 then
      [bytes ",\n",
        bytes "\t\t\"ring_buffer_size\": " ++ integer ch.ringBufferSize ++ bytes ",\n",
        bytes "\t\t\"decsa_delay\": " ++ integer ch.decsaDelay ++ bytes ",\n",
        bytes "\t\t\"send_delay\": " ++ integer ch.sendDelay ++ bytes ",\n",
        bytes "\t\t\"num_packets\": " ++ integer (ch.ringBuf.getD 0)]
    else []) ++ [bytes "\n\t\x7d,\n"]

def pidText (p : JsPid) : List UInt8 :=
  bytes "\t\t\x7b\n\t\t\t \"number\": " ++ integer p.pid ++ bytes ",\n\t\t\t \"type\": \"" ++
    pidTypeToStr p.type ++ bytes "\",\n\t\t\t \"language\": \"" ++ p.language ++
    bytes "\"\n\t\t\t \x7d,\n"

def clientText (around : Around) (client : Nat) (c : JsClient) : List UInt8 :=
  bytes "\x7b\t\t\"client_number\": " ++ integer client ++ bytes ", \"socket\": " ++
    integer c.socket ++ bytes ", \"remote_address\": \"" ++
    (around.socketToStringPort c.socket).1 ++ bytes "\", \"remote_port\": " ++
    integer (around.socketToStringPort c.socket).2 ++ bytes ", \"buffer_size\": " ++
    integer c.buffersize ++ bytes ", \"consecutive_errors\":" ++ integer c.consecutiveErrors ++
    bytes ", \"first_error_time\":" ++ integer (asInt c.firstErrorTime) ++
    bytes ", \"last_error_time\":" ++ integer c.lastWriteError ++ bytes " \x7d,\n"

/-- "dirty hack to erase the last comma" -/
def eraseLast (reply : UnicastReply) : Checked UnicastReply := do
  let used ← subtract reply.body.used 2
  return { reply with body := { reply.body with used := used } }

/-- The end of a list that has items if `c` holds. -/
def endList (c : Prop) [Decidable c] (empty : List UInt8) (reply : UnicastReply) :
    Checked UnicastReply :=
  if c then eraseLast reply else unicastReplyWrite reply empty

/-- `unicast_send_client_list_js`, from the client with number `client` on. -/
def unicastSendClientListJs (around : Around) (reply : UnicastReply) (client : Nat) :
    List JsClient → Checked UnicastReply
  | [] => .ok reply
  | c :: cs => do
    let reply ← unicastReplyWrite reply (clientText around client c)
    unicastSendClientListJs around reply (client + 1) cs

/-- One turn of the loop of `unicast_send_channel_list_js`. -/
def sendChannel (around : Around) (reply : UnicastReply) (currChannel : Nat) (ch : JsChannel) :
    Checked UnicastReply :=
  if ¬ch.channelReady.isReady then .ok reply
  else do
    let reply ← unicastReplyWrite reply
      (bytes "\n\t\x7b\n" ++ field ("number", .num (currChannel + 1)))
    let reply ← ((channelFields ch).map field).foldlM unicastReplyWrite reply
    let reply ← (if around.scamSupport then scamTexts ch else []).foldlM unicastReplyWrite reply
    let reply ← unicastReplyWrite reply (bytes "\t\"pids\":[\n")
    let reply ← (ch.pids.map pidText).foldlM unicastReplyWrite reply
    let reply ← endList (0 < ch.pids.length) (bytes "\x7b\x7d\n") reply
    let reply ← unicastReplyWrite reply (bytes "\n\t\t],\n\t\"clients\": [\n")
    let reply ← unicastSendClientListJs around reply 0 ch.clients
    let reply ← endList (ch.numClients ≠ 0) (bytes "\t\t\x7b\x7d\n") reply
    unicastReplyWrite reply (bytes "\t\t]\n\t\x7d,\n")

def sendChannels (around : Around) (reply : UnicastReply) (currChannel : Nat) :
    List JsChannel → Checked UnicastReply
  | [] => .ok reply
  | ch :: chs => do
    let reply ← sendChannel around reply currChannel ch
    sendChannels around reply (currChannel + 1) chs

/-- `unicast_send_channel_list_js` -/
def unicastSendChannelListJs (around : Around) (channels : List JsChannel)
    (reply : UnicastReply) : Checked UnicastReply := do
  let reply ← sendChannels around reply 0 channels
  endList (0 < channels.length) (bytes "\x7b\x7d\n") reply

/-- `unicast_send_streamed_channels_list_js` up to the send. -/
def buildList (around : Around) (channels : List JsChannel) : Checked UnicastReply := do
  let reply ← unicastReplyWrite unicastReplyInit (bytes "[\n")
  let reply ← unicastSendChannelListJs around channels reply
  unicastReplyWrite reply (bytes "]\n")

/-- The body of the reply. -/
def listBody (around : Around) (channels : List JsChannel) : Checked (List UInt8) := do
  let reply ← buildList around channels
  readCells reply.body.cells 0 reply.body.used

/-- The value that is printed. -/
def Value.json : Value → Json
  | .num n => .number (integer n)
  | .str s => .string s

/-- A text that can stand between quotes. -/
def Value.PlainText : Value → Prop
  | .num _ => True
  | .str s => Plain s

def pidValue (p : JsPid) : Json :=
  .object [(bytes "number", .number (integer p.pid)), (bytes "type", .string (pidTypeToStr p.type)),
    (bytes "language", .string p.language)]

def clientValue (around : Around) (client : Nat) (c : JsClient) : Json :=
  .object [(bytes "client_number", .number (integer client)),
    (bytes "socket", .number (integer c.socket)),
    (bytes "remote_address", .string (around.socketToStringPort c.socket).1),
    (bytes "remote_port", .number (integer (around.socketToStringPort c.socket).2)),
    (bytes "buffer_size", .number (integer c.buffersize)),
    (bytes "consecutive_errors", .number (integer c.consecutiveErrors)),
    (bytes "first_error_time", .number (integer (asInt c.firstErrorTime))),
    (bytes "last_error_time", .number (integer c.lastWriteError))]

/-- The clients with their numbers, from `client` on. -/
def clientValues (around : Around) (client : Nat) : List JsClient → List Json
  | [] => []
  | c :: cs => clientValue around client c :: clientValues around (client + 1) cs

def scamValue (ch : JsChannel) : Json :=
  .object ((bytes "descrambled", .number (integer ch.scamSupport)) ::
    (if ch.scamSupport ≠ 0 then
      [(bytes "ring_buffer_size", .number (integer ch.ringBufferSize)),
        (bytes "decsa_delay", .number (integer ch.decsaDelay)),
        (bytes "send_delay", .number (integer ch.sendDelay)),
        (bytes "num_packets", .number (integer (ch.ringBuf.getD 0 : Nat)))]
    else []))

/-- What stands for a list: the list, but one empty object for no items. -/
def listed : List Json → Json
  | [] => .array [.object []]
  | vs => .array vs

def channelValue (around : Around) (number : Nat) (ch : JsChannel) : Json :=
  .object ((("number", .num number) :: channelFields ch).map (fun f => (bytes f.1, f.2.json)) ++
    ((if around.scamSupport then [(bytes "scam", scamValue ch)] else []) ++
      [(bytes "pids", listed (ch.pids.map pidValue)),
        (bytes "clients", listed (clientValues around 0 ch.clients))]))

/-- The channels that are listed, in the order of the table, the first one with `number`. -/
def channelValues (around : Around) (number : Nat) : List JsChannel → List Json
  | [] => []
  | ch :: chs =>
    if ch.channelReady.isReady then
      channelValue around number ch :: channelValues around (number + 1) chs
    else channelValues around (number + 1) chs

/-- The texts that a channel brings along can stand between quotes. -/
structure PlainTexts (ch : JsChannel) : Prop where
  name : Plain ch.name
  sapGroup : Plain ch.sapGroup
  ip4Out : Plain ch.ip4Out
  language : ∀ p ∈ ch.pids, Plain p.language

section texts

variable {around : Around} {ch : JsChannel}

theorem plain_pidTypeToStr (type : Nat) : Plain (pidTypeToStr type) := by
  rw [pidTypeToStr.eq_def]
  split
  all_goals exact plain_bytes _ rfl

theorem plain_serviceTypeDescr : ∀ descr ∈ serviceTypeDescr, Plain descr.2 := by
  simp only [serviceTypeDescr, List.forall_mem_cons]
  and_intros
  all_goals first
    | exact plain_bytes _ rfl
    | exact plain_append (plain_bytes _ rfl) (plain_bytes _ rfl)
    | exact fun _ h => absurd h List.not_mem_nil

theorem plain_serviceTypeToStr (type : Nat) : Plain (serviceTypeToStr type) := by
  rw [serviceTypeToStr]
  split
  · exact plain_bytes _ rfl
  · split
    case h_1 descr hfind => exact plain_serviceTypeDescr descr (List.mem_of_find?_eq_some hfind)
    case h_2 => exact plain_bytes _ rfl

theorem textOf_pid {p : JsPid} (hplain : Plain p.language) :
    ∃ t, pidText p = t ++ bytes ",\n" ∧ TextOf t (pidValue p) := by
  have hopen : scan .between (bytes "\t\t\x7b\n\t\t\t \"number\": ") =
      some ([.openObject, .string (bytes "number"), .colon], .between) := rfl
  have htype : scan (.word (integer p.pid)) (bytes ",\n\t\t\t \"type\": \"") =
      some ([.number (integer p.pid), .comma, .string (bytes "type"), .colon], .string []) :=
    scan_delimiter (wordToken_integer _) rfl rfl
  have hlanguage : scan (.string (pidTypeToStr p.type)) (bytes "\",\n\t\t\t \"language\": \"") =
      some ([.string (pidTypeToStr p.type), .comma, .string (bytes "language"), .colon],
        .string []) :=
    scan_quote rfl
  have hend : scan (.string p.language) (bytes "\"\n\t\t\t \x7d") =
      some ([.string p.language, .closeObject], .between) :=
    scan_quote rfl
  have hlast : bytes "\"\n\t\t\t \x7d,\n" = bytes "\"\n\t\t\t \x7d" ++ bytes ",\n" := rfl
  refine ⟨_, ?_, textOf_of_scan (scan_append (scan_append (scan_append (scan_append (scan_append
    (scan_append hopen (scan_integer _)) htype) (scan_plain (plain_pidTypeToStr _))) hlanguage)
    (scan_plain hplain)) hend) ?_⟩
  · exact (congrArg (_ ++ ·) hlast).trans (List.append_assoc _ _ _).symm
  · intro fuel rest hfuel
    obtain ⟨f, rfl⟩ := Nat.exists_eq_add_of_le' hfuel
    rfl

/-- The PIDs, with a comma behind each of them. -/
theorem textOf_pids {pids : List JsPid} (hplain : ∀ p ∈ pids, Plain p.language) :
    ∃ ts, List.Forall₂ TextOf ts (pids.map pidValue) ∧
      (pids.map pidText).flatten = (ts.map (· ++ bytes ",\n")).flatten := by
  induction pids with
  | nil => exact ⟨[], .nil, rfl⟩
  | cons p pids ih =>
    obtain ⟨t, htext, ht⟩ := textOf_pid (hplain p List.mem_cons_self)
    obtain ⟨ts, hts, hall⟩ := ih fun q hq => hplain q (List.mem_cons_of_mem p hq)
    refine ⟨t :: ts, .cons ht hts, ?_⟩
    rw [List.map_cons, List.map_cons, List.flatten_cons, List.flatten_cons, htext, hall]

theorem textOf_client (client : Nat) {c : JsClient}
    (hplain : Plain (around.socketToStringPort c.socket).1) :
    ∃ t, clientText around client c = t ++ bytes ",\n" ∧
      TextOf t (clientValue around client c) := by
  have hopen : scan .between (bytes "\x7b\t\t\"client_number\": ") =
      some ([.openObject, .string (bytes "client_number"), .colon], .between) := rfl
  have hsocket : scan (.word (integer client)) (bytes ", \"socket\": ") =
      some ([.number (integer client), .comma, .string (bytes "socket"), .colon], .between) :=
    scan_delimiter (wordToken_integer _) rfl rfl
  have haddress : scan (.word (integer c.socket)) (bytes ", \"remote_address\": \"") =
      some ([.number (integer c.socket), .comma, .string (bytes "remote_address"), .colon],
        .string []) :=
    scan_delimiter (wordToken_integer _) rfl rfl
  have hport : scan (.string (around.socketToStringPort c.socket).1)
      (bytes "\", \"remote_port\": ") =
      some ([.string (around.socketToStringPort c.socket).1, .comma,
        .string (bytes "remote_port"), .colon], .between) :=
    scan_quote rfl
  have hsize : scan (.word (integer (around.socketToStringPort c.socket).2))
      (bytes ", \"buffer_size\": ") =
      some ([.number (integer (around.socketToStringPort c.socket).2), .comma,
        .string (bytes "buffer_size"), .colon], .between) :=
    scan_delimiter (wordToken_integer _) rfl rfl
  have herrors : scan (.word (integer c.buffersize)) (bytes ", \"consecutive_errors\":") =
      some ([.number (integer c.buffersize), .comma, .string (bytes "consecutive_errors"), .colon],
        .between) :=
    scan_delimiter (wordToken_integer _) rfl rfl
  have hfirst : scan (.word (integer c.consecutiveErrors)) (bytes ", \"first_error_time\":") =
      some ([.number (integer c.consecutiveErrors), .comma, .string (bytes "first_error_time"),
        .colon], .between) :=
    scan_delimiter (wordToken_integer _) rfl rfl
  have hwrite : scan (.word (integer (asInt c.firstErrorTime))) (bytes ", \"last_error_time\":") =
      some ([.number (integer (asInt c.firstErrorTime)), .comma, .string (bytes "last_error_time"),
        .colon], .between) :=
    scan_delimiter (wordToken_integer _) rfl rfl
  have hend : scan (.word (integer c.lastWriteError)) (bytes " \x7d") =
      some ([.number (integer c.lastWriteError), .closeObject], .between) :=
    scan_delimiter (wordToken_integer _) rfl rfl
  have hlast : bytes " \x7d,\n" = bytes " \x7d" ++ bytes ",\n" := rfl
  have hscan := scan_append (scan_append (scan_append (scan_append (scan_append (scan_append
    hopen (scan_integer _)) hsocket) (scan_integer _)) haddress) (scan_plain hplain)) hport
  have hnumbers := scan_append (scan_append (scan_append (scan_append (scan_append (scan_append
    hscan (scan_integer _)) hsize) (scan_integer _)) herrors) (scan_integer _)) hfirst
  have hclient := scan_append (scan_append (scan_append (scan_append hnumbers (scan_integer _))
    hwrite) (scan_integer _)) hend
  have hmeans : Means (_ :: (_ ++ _)) (clientValue around client c) :=
    ((means_number _).cons_member _ ((means_number _).cons_member _
      ((means_string _).cons_member _ ((means_number _).cons_member _
      ((means_number _).cons_member _ ((means_number _).cons_member _
      ((means_number _).cons_member _ ((means_number _).single_member _)))))))).object ⟨_, _, rfl⟩
  simp only [List.cons_append, List.nil_append, List.append_nil] at hclient hmeans
  refine ⟨_, ?_, textOf_of_scan hclient hmeans⟩
  exact (congrArg (_ ++ ·) hlast).trans (List.append_assoc _ _ _).symm

theorem textOf_scam (ch : JsChannel) :
    ∃ t, (scamTexts ch).flatten = bytes "\t\"scam\": " ++ (t ++ bytes ",\n") ∧
      TextOf t (scamValue ch) := by
  have hopen : scan .between (bytes "\x7b\n\t\t \"descrambled\": ") =
      some ([.openObject, .string (bytes "descrambled"), .colon], .between) := rfl
  have hfirst : bytes "\t\"scam\": \x7b\n\t\t \"descrambled\": " =
      bytes "\t\"scam\": " ++ bytes "\x7b\n\t\t \"descrambled\": " := rfl
  have hlast : bytes "\n\t\x7d,\n" = bytes "\n\t\x7d" ++ bytes ",\n" := rfl
  have hend : ∀ n, scan (.word (integer n)) (bytes "\n\t\x7d") =
      some ([.number (integer n), .closeObject], .between) := fun n =>
    scan_delimiter (wordToken_integer _) rfl rfl
  by_cases hscam : ch.scamSupport ≠ 0
  · have hsize : scan (.word (integer ch.scamSupport)) (bytes ",\n" ++
        bytes "\t\t\"ring_buffer_size\": ") = some ([.number (integer ch.scamSupport), .comma,
          .string (bytes "ring_buffer_size"), .colon], .between) :=
      scan_delimiter (wordToken_integer _) rfl rfl
    have hdecsa : scan (.word (integer ch.ringBufferSize)) (bytes ",\n" ++
        bytes "\t\t\"decsa_delay\": ") = some ([.number (integer ch.ringBufferSize), .comma,
          .string (bytes "decsa_delay"), .colon], .between) :=
      scan_delimiter (wordToken_integer _) rfl rfl
    have hsend : scan (.word (integer ch.decsaDelay)) (bytes ",\n" ++
        bytes "\t\t\"send_delay\": ") = some ([.number (integer ch.decsaDelay), .comma,
          .string (bytes "send_delay"), .colon], .between) :=
      scan_delimiter (wordToken_integer _) rfl rfl
    have hpackets : scan (.word (integer ch.sendDelay)) (bytes ",\n" ++
        bytes "\t\t\"num_packets\": ") = some ([.number (integer ch.sendDelay), .comma,
          .string (bytes "num_packets"), .colon], .between) :=
      scan_delimiter (wordToken_integer _) rfl rfl
    have hscan := scan_append (scan_append (scan_append (scan_append (scan_append (scan_append
      hopen (scan_integer _)) hsize) (scan_integer _)) hdecsa) (scan_integer _)) hsend
    have htext := scan_append (scan_append (scan_append (scan_append hscan (scan_integer _))
      hpackets) (scan_integer (ch.ringBuf.getD 0 : Nat))) (hend _)
    have hmeans := ((means_number (integer ch.scamSupport)).cons_member (bytes "descrambled")
      ((means_number (integer ch.ringBufferSize)).cons_member (bytes "ring_buffer_size")
      ((means_number (integer ch.decsaDelay)).cons_member (bytes "decsa_delay")
      ((means_number (integer ch.sendDelay)).cons_member (bytes "send_delay")
      ((means_number (integer (ch.ringBuf.getD 0 : Nat))).single_member
        (bytes "num_packets")))))).object ⟨_, _, rfl⟩
    simp only [List.cons_append, List.nil_append, List.append_nil] at htext hmeans
    rw [scamTexts, scamValue, if_pos hscam, if_pos hscam, hfirst, hlast]
    refine ⟨_, ?_, textOf_of_scan htext hmeans⟩
    simp
  · have htext := scan_append (scan_append hopen (scan_integer _)) (hend ch.scamSupport)
    have hmeans := ((means_number (integer ch.scamSupport)).single_member
      (bytes "descrambled")).object ⟨_, _, rfl⟩
    simp only [List.cons_append, List.nil_append, List.append_nil] at htext hmeans
    rw [scamTexts, scamValue, if_neg hscam, if_neg hscam, hfirst, hlast]
    refine ⟨_, ?_, textOf_of_scan htext hmeans⟩
    simp

theorem plain_key {key : String} (h : Plain (bytes key)) :
    IsKey (bytes "\t\"" ++ bytes key ++ bytes "\": ") (bytes key) := by
  have hblank : scan .between (bytes "\t") = some ([], .between) := rfl
  have hcolon : scan .between (bytes ": ") = some ([.colon], .between) := rfl
  have hkey := isKey_string h hblank hcolon
  rw [List.append_assoc]
  exact hkey

theorem Value.textOf {v : Value} (h : v.PlainText) : TextOf v.text v.json := by
  cases v with
  | num n => exact textOf_integer n
  | str s => exact textOf_string h

/-- The fields, each with its comma, before other members. -/
theorem textOf_fields {fields : List (String × Value)} {u : List UInt8}
    {ms : List (List UInt8 × Json)}
    (hfields : ∀ f ∈ fields, Plain (bytes f.1) ∧ f.2.PlainText)
    (hu : TextOfMembers u ms) :
    TextOfMembers ((fields.map field).flatten ++ u)
      (fields.map (fun f => (bytes f.1, f.2.json)) ++ ms) := by
  induction fields with
  | nil => exact hu
  | cons f fields ih =>
    have hcomma : Punctuates (bytes ",\n") .comma :=
      ⟨rfl, 44, [10], rfl, rfl⟩
    obtain ⟨hkey, hvalue⟩ := hfields f List.mem_cons_self
    have hrest := ih fun g hg => hfields g (List.mem_cons_of_mem f hg)
    have hcons := TextOfMembers.cons (plain_key hkey) (Value.textOf hvalue) hcomma hrest
    rw [List.map_cons, List.flatten_cons, field]
    simpa using hcons

theorem length_clientValues (clients : List JsClient) (client : Nat) :
    (clientValues around client clients).length = clients.length := by
  induction clients generalizing client with
  | nil => rfl
  | cons c cs ih => simp [clientValues, ih]

/-- The clients, with a comma behind each of them. -/
theorem textOf_clients (haddress : ∀ s, Plain (around.socketToStringPort s).1)
    (clients : List JsClient) (client : Nat) :
    ∃ ts, List.Forall₂ TextOf ts (clientValues around client clients) ∧
      ∀ reply head body, Collects reply .body head body →
        ∃ reply', unicastSendClientListJs around reply client clients = .ok reply' ∧
          Collects reply' .body head (body ++ (ts.map (· ++ bytes ",\n")).flatten) := by
  induction clients generalizing client with
  | nil =>
    refine ⟨[], .nil, fun reply head body hr => ⟨reply, rfl, ?_⟩⟩
    simpa using hr
  | cons c cs ih =>
    obtain ⟨t, htext, ht⟩ := textOf_client client (haddress c.socket)
    obtain ⟨ts, hts, hsend⟩ := ih (client + 1)
    refine ⟨t :: ts, .cons ht hts, fun reply head body hr => ?_⟩
    obtain ⟨reply₁, hwrite, hr₁⟩ := hr.write_body (clientText around client c)
    obtain ⟨reply', hrest, hr'⟩ := hsend reply₁ head _ hr₁
    refine ⟨reply', ?_, ?_⟩
    · rw [unicastSendClientListJs, hwrite, bind_ok, hrest]
    · rw [htext, List.append_assoc] at hr'
      exact hr'

theorem plain_fields (number : Nat) (hplain : PlainTexts ch) :
    ∀ f ∈ ("number", .num number) :: channelFields ch, Plain (bytes f.1) ∧ f.2.PlainText := by
  have hip : Plain (if ch.ip4Out = [] then bytes "0.0.0.0" else ch.ip4Out) := by
    split
    · exact plain_bytes _ rfl
    · exact hplain.ip4Out
  simp only [channelFields, List.forall_mem_cons]
  and_intros
  all_goals first
    | exact trivial
    | exact plain_bytes _ rfl
    | exact hplain.name
    | exact hplain.sapGroup
    | exact hip
    | exact plain_serviceTypeToStr _
    | exact fun _ h => absurd h List.not_mem_nil

/-- The channel as it is written, from its first field on. -/
theorem textOf_channel (number : Nat) (hplain : PlainTexts ch) {pids clients : List UInt8}
    (hpids : TextOf pids (listed (ch.pids.map pidValue)))
    (hclients : TextOf clients (listed (clientValues around 0 ch.clients))) :
    TextOf (bytes "\n\t\x7b\n" ++ ((((("number", .num number) :: channelFields ch).map
      field).flatten ++ ((if around.scamSupport then scamTexts ch else []).flatten ++
        (bytes "\t\"pids\":" ++ (pids ++ (bytes ",\n" ++ (bytes "\t\"clients\": " ++
          clients)))))) ++ bytes "\n\t\x7d")) (channelValue around number ch) := by
  have hcomma : Punctuates (bytes ",\n") .comma :=
    ⟨rfl, 44, [10], rfl, rfl⟩
  have hend : Punctuates (bytes "\n\t\x7d") .closeObject :=
    ⟨rfl, 10, [9, 125], rfl, rfl⟩
  have hkeyPids : IsKey (bytes "\t\"pids\":") (bytes "pids") :=
    show scan .between _ = _ from rfl
  have hkeyClients : IsKey (bytes "\t\"clients\": ") (bytes "clients") :=
    show scan .between _ = _ from rfl
  have hkeyScam : IsKey (bytes "\t\"scam\": ") (bytes "scam") :=
    show scan .between _ = _ from rfl
  have hlists := TextOfMembers.cons hkeyPids hpids hcomma (hclients.member hkeyClients)
  have hscam : TextOfMembers ((if around.scamSupport then scamTexts ch else []).flatten ++
      (bytes "\t\"pids\":" ++ (pids ++ (bytes ",\n" ++ (bytes "\t\"clients\": " ++ clients)))))
      ((if around.scamSupport then [(bytes "scam", scamValue ch)] else []) ++
        [(bytes "pids", listed (ch.pids.map pidValue)),
          (bytes "clients", listed (clientValues around 0 ch.clients))]) := by
    split
    · obtain ⟨t, htext, ht⟩ := textOf_scam ch
      have hcons := TextOfMembers.cons hkeyScam ht hcomma hlists
      rw [htext]
      simpa using hcons
    · exact hlists
  refine TextOfMembers.object (textOf_fields ?_ hscam) rfl hend
  exact plain_fields number hplain

end texts

section runs

variable {around : Around} {reply : UnicastReply} {head body : List UInt8} {ch : JsChannel}

theorem eraseLast_ok {last : List UInt8} (hr : Collects reply .body head (body ++ last))
    (hlast : last.length = 2) :
    ∃ reply', eraseLast reply = .ok reply' ∧ Collects reply' .body head body := by
  have hused := hr.body.used
  rw [List.length_append, hlast] at hused
  have hroom := hr.body.room
  have hcells := hr.body.cells
  refine ⟨{ reply with body := { reply.body with used := body.length } }, ?_, hr.type, hr.header,
    rfl, hr.body.length, ?_, ?_⟩
  · rw [eraseLast, hused, subtract_ok (by omega), bind_ok, Nat.add_sub_cancel]
    rfl
  · dsimp only
    omega
  · have hshort := congrArg (List.take body.length) hcells
    rw [List.take_take, hused, Nat.min_eq_left (by omega), List.map_append, ← List.length_map,
      List.take_left] at hshort
    rwa [List.length_map] at hshort

/-- The end of a list: the last comma goes, and one empty object stands for no items. -/
theorem endList_ok {ts : List (List UInt8)} {vs : List Json} {c : Prop} [Decidable c]
    {e : List UInt8} (hr : Collects reply .body head (body ++ (ts.map (· ++ bytes ",\n")).flatten))
    (hts : List.Forall₂ TextOf ts vs) (hc : c ↔ ts ≠ [])
    (he : scan .between e = some ([.openObject, .closeObject], .between)) :
    ∃ reply' u, endList c e reply = .ok reply' ∧ Collects reply' .body head (body ++ u) ∧
      ∀ o cl, scan .between o = some ([.openArray], .between) → Punctuates cl .closeArray →
        TextOf (o ++ (u ++ cl)) (listed vs) := by
  have hcomma : Punctuates (bytes ",\n") .comma :=
    ⟨rfl, 44, [10], rfl, rfl⟩
  by_cases hne : ts = []
  · subst hne
    cases hts
    rw [List.map_nil, List.flatten_nil, List.append_nil] at hr
    obtain ⟨reply', hwrite, hr'⟩ := hr.write_body e
    refine ⟨reply', e, ?_, hr', fun o cl ho hcl => ?_⟩
    · rw [endList, if_neg fun h => hc.mp h rfl, hwrite]
    · exact (textOf_of_scan he means_object_nil).item.array ho hcl
  · obtain ⟨u, hu, hitems⟩ := TextOfItems.of_followed hcomma hts hne
    rw [hu, ← List.append_assoc] at hr
    obtain ⟨reply', herase, hr'⟩ := eraseLast_ok hr rfl
    refine ⟨reply', u, ?_, hr', fun o cl ho hcl => ?_⟩
    · rw [endList, if_pos (hc.mpr hne), herase]
    · cases hts with
      | nil => exact absurd rfl hne
      | cons _ _ => exact hitems.array ho hcl

theorem sendChannel_ready (currChannel : Nat) (hr : Collects reply .body head body)
    (haddress : ∀ s, Plain (around.socketToStringPort s).1) (hplain : PlainTexts ch)
    (hclients : ch.numClients = ch.clients.length) (hready : ch.channelReady.isReady) :
    ∃ reply' t, sendChannel around reply currChannel ch = .ok reply' ∧
      Collects reply' .body head (body ++ (t ++ bytes ",\n")) ∧
      TextOf t (channelValue around (currChannel + 1) ch) := by
  have hopen : scan .between (bytes "[\n") = some ([.openArray], .between) := rfl
  have hendPids : Punctuates (bytes "\n\t\t]") .closeArray :=
    ⟨rfl, 10, [9, 9, 93], rfl, rfl⟩
  have hendClients : Punctuates (bytes "\t\t]") .closeArray :=
    ⟨rfl, 9, [9, 93], rfl, rfl⟩
  obtain ⟨ps, hps, hpids⟩ := textOf_pids hplain.language
  obtain ⟨cs, hcs, hsend⟩ := textOf_clients haddress ch.clients 0
  have hpsNe : 0 < ch.pids.length ↔ ps ≠ [] := by
    rw [← List.length_pos_iff_ne_nil, hps.length_eq, List.length_map]
  have hcsNe : ch.numClients ≠ 0 ↔ cs ≠ [] := by
    rw [← List.length_pos_iff_ne_nil, hcs.length_eq, length_clientValues, hclients]
    omega
  obtain ⟨r₁, h₁, hr₁⟩ := hr.write_body
    (bytes "\n\t\x7b\n" ++ field ("number", .num (currChannel + 1)))
  obtain ⟨r₂, h₂, hr₂⟩ := hr₁.writes_body ((channelFields ch).map field)
  obtain ⟨r₃, h₃, hr₃⟩ := hr₂.writes_body (if around.scamSupport then scamTexts ch else [])
  obtain ⟨r₄, h₄, hr₄⟩ := hr₃.write_body (bytes "\t\"pids\":[\n")
  obtain ⟨r₅, h₅, hr₅⟩ := hr₄.writes_body (ch.pids.map pidText)
  rw [hpids] at hr₅
  obtain ⟨r₆, u, h₆, hr₆, hu⟩ := endList_ok (e := bytes "\x7b\x7d\n") hr₅ hps hpsNe
    rfl
  obtain ⟨r₇, h₇, hr₇⟩ := hr₆.write_body (bytes "\n\t\t],\n\t\"clients\": [\n")
  obtain ⟨r₈, h₈, hr₈⟩ := hsend r₇ head _ hr₇
  obtain ⟨r₉, v, h₉, hr₉, hv⟩ := endList_ok (e := bytes "\t\t\x7b\x7d\n") hr₈ hcs hcsNe
    rfl
  obtain ⟨reply', h', hr'⟩ := hr₉.write_body (bytes "\t\t]\n\t\x7d,\n")
  refine ⟨reply', _, ?_, ?_, textOf_channel (currChannel + 1) hplain (hu _ _ hopen hendPids)
    (hv _ _ hopen hendClients)⟩
  · rw [sendChannel, if_neg (not_not_intro hready), h₁, bind_ok, h₂, bind_ok, h₃, bind_ok, h₄,
      bind_ok, h₅, bind_ok, h₆, bind_ok, h₇, bind_ok, h₈, bind_ok, h₉, bind_ok, h']
  · have hopenPids : bytes "\t\"pids\":[\n" = bytes "\t\"pids\":" ++ bytes "[\n" := rfl
    have hmiddle : bytes "\n\t\t],\n\t\"clients\": [\n" =
        bytes "\n\t\t]" ++ (bytes ",\n" ++ (bytes "\t\"clients\": " ++ bytes "[\n")) := rfl
    have hlast : bytes "\t\t]\n\t\x7d,\n" =
        bytes "\t\t]" ++ (bytes "\n\t\x7d" ++ bytes ",\n") := rfl
    rw [hopenPids, hmiddle, hlast] at hr'
    simpa using hr'

/-- The channels, with a comma behind each one that is listed. -/
theorem sendChannels_ok {channels : List JsChannel} (currChannel : Nat)
    (hr : Collects reply .body head body)
    (haddress : ∀ s, Plain (around.socketToStringPort s).1)
    (hplain : ∀ ch ∈ channels, PlainTexts ch)
    (hclients : ∀ ch ∈ channels, ch.numClients = ch.clients.length) :
    ∃ reply' ts, sendChannels around reply currChannel channels = .ok reply' ∧
      Collects reply' .body head (body ++ (ts.map (· ++ bytes ",\n")).flatten) ∧
      List.Forall₂ TextOf ts (channelValues around (currChannel + 1) channels) := by
  induction channels generalizing reply body currChannel with
  | nil =>
    refine ⟨reply, [], rfl, ?_, .nil⟩
    simpa using hr
  | cons ch chs ih =>
    have hplain' := fun c hc => hplain c (List.mem_cons_of_mem ch hc)
    have hclients' := fun c hc => hclients c (List.mem_cons_of_mem ch hc)
    rw [sendChannels, channelValues]
    by_cases hready : ch.channelReady.isReady
    · obtain ⟨r, t, hsend, hr', ht⟩ := sendChannel_ready currChannel hr haddress
        (hplain ch List.mem_cons_self) (hclients ch List.mem_cons_self) hready
      obtain ⟨reply', ts, hrest, hreply', hts⟩ := ih (currChannel + 1) hr' hplain' hclients'
      rw [hsend, bind_ok, hrest, if_pos hready]
      refine ⟨reply', t :: ts, rfl, ?_, .cons ht hts⟩
      simpa using hreply'
    · have hskip : sendChannel around reply currChannel ch = .ok reply := if_pos hready
      rw [hskip, bind_ok, if_neg hready]
      exact ih (currChannel + 1) hr hplain' hclients'

end runs

theorem channelValues_ne_nil {around : Around} {channels : List JsChannel}
    (h : ∃ ch ∈ channels, ch.channelReady.isReady) (number : Nat) :
    channelValues around number channels ≠ [] := by
  induction channels generalizing number with
  | nil =>
    obtain ⟨ch, hch, -⟩ := h
    cases hch
  | cons ch chs ih =>
    rw [channelValues]
    split
    · exact List.cons_ne_nil _ _
    case isFalse hnot =>
      obtain ⟨c, hc, hready⟩ := h
      rcases List.mem_cons.mp hc with rfl | hc
      · exact absurd hready hnot
      · exact ih ⟨c, hc, hready⟩ (number + 1)

/-- The body is one JSON text: an array of the channels that are ready, in the order of the table,
each with its PIDs and its clients, where one empty object stands for an empty list. -/
theorem listBody_json {around : Around} {channels : List JsChannel}
    (haddress : ∀ s, Plain (around.socketToStringPort s).1)
    (hplain : ∀ ch ∈ channels, PlainTexts ch)
    (hclients : ∀ ch ∈ channels, ch.numClients = ch.clients.length)
    (hready : channels = [] ∨ ∃ ch ∈ channels, ch.channelReady.isReady) :
    ∃ text, listBody around channels = .ok text ∧
      parse text = some (listed (channelValues around 1 channels)) := by
  have hopen : scan .between (bytes "[\n") = some ([.openArray], .between) := rfl
  have hend : Punctuates (bytes "]") .closeArray :=
    ⟨rfl, 93, [], rfl, rfl⟩
  have hlast : bytes "]\n" = bytes "]" ++ bytes "\n" := rfl
  obtain ⟨r₁, h₁, hr₁⟩ := collects_init.write_body (bytes "[\n")
  obtain ⟨r₂, ts, h₂, hr₂, hts⟩ := sendChannels_ok 0 hr₁ haddress hplain hclients
  have hne : 0 < channels.length ↔ ts ≠ [] := by
    rw [← List.length_pos_iff_ne_nil, hts.length_eq]
    rcases hready with rfl | hready
    · exact Iff.rfl
    · have hvalues : channelValues around (0 + 1) channels ≠ [] := channelValues_ne_nil hready _
      obtain ⟨ch, hch, -⟩ := hready
      exact iff_of_true (List.length_pos_of_mem hch) (List.length_pos_iff_ne_nil.mpr hvalues)
  obtain ⟨r₃, u, h₃, hr₃, hu⟩ := endList_ok (e := bytes "\x7b\x7d\n") hr₂ hts hne
    rfl
  obtain ⟨r₄, h₄, hr₄⟩ := hr₃.write_body (bytes "]\n")
  refine ⟨_, ?_, (hu _ _ hopen hend).parse (b := bytes "\n") rfl ?_⟩
  · rw [hlast] at hr₄
    have hread := hr₄.body.readCells
    rw [listBody, buildList, h₁, bind_ok, unicastSendChannelListJs, h₂, bind_ok, h₃, bind_ok, h₄,
      bind_ok, hread]
    simp
  · exact ⟨10, [], rfl, rfl⟩

/-! A channel that is listed without PIDs and clients, and one with a client and a PID. -/

def quietAround : Around := ⟨false, fun _ => (bytes "::1", 80)⟩

def idleChannel : JsChannel where
  channelReady := .ready
  logicalChannelNumber := 0
  name := bytes "One"
  sapGroup := []
  ip4Out := []
  portOut := 0
  numClients := 0
  ratioScrambled := 0
  hasTraffic := 1
  pcrPid := 256
  pmtVersion := 0
  unicastPort := 0
  serviceId := 1
  serviceType := 1
  pids := []
  clients := []
  scamSupport := 0
  ringBuf := none
  ringBufferSize := 0
  decsaDelay := 0
  sendDelay := 0

def watchedChannel : JsChannel :=
  { idleChannel with
    numClients := 1
    pids := [⟨256, 3, bytes "eng"⟩]
    clients := [⟨5, 0, 0, 0, 0⟩] }

theorem plainTexts_watchedChannel : PlainTexts watchedChannel := by
  constructor
  · exact plain_bytes _ rfl
  · exact fun _ h => absurd h List.not_mem_nil
  · exact fun _ h => absurd h List.not_mem_nil
  · intro p hp
    rcases List.mem_singleton.mp hp with rfl
    exact plain_bytes _ rfl

theorem listBody_json_watchedChannel :
    ∃ text, listBody quietAround [watchedChannel] = .ok text ∧
      parse text = some (.array [channelValue quietAround 1 watchedChannel]) := by
  refine listBody_json (fun s => plain_bytes _ rfl) ?_ ?_
    (.inr ⟨watchedChannel, List.mem_singleton_self _, rfl⟩)
  · intro ch hch
    rcases List.mem_singleton.mp hch with rfl
    exact plainTexts_watchedChannel
  · intro ch hch
    rcases List.mem_singleton.mp hch with rfl
    rfl

/-- What the document lists under a key of its first channel. -/
def listedUnder (key : List UInt8) (text : List UInt8) : Option (List Json) := do
  let document ← parse text
  let ch ← document.items.head?
  let list ← ch.member key
  return list.items

def quotedLanguage : JsChannel :=
  { idleChannel with pids := [⟨256, 3, [101, 34, 103]⟩] }

/-- A channel without clients is listed with one, and a quote in the language of a PID spoils the
document. -/
theorem listBody_not_exact :
    ((listBody quietAround [idleChannel]).toOption.bind
        (listedUnder (bytes "clients"))).map (·.length) = some 1 ∧
      idleChannel.clients.length = 0 ∧
      (listBody quietAround [quotedLanguage]).isOk ∧
      ((listBody quietAround [quotedLanguage]).toOption.bind parse).isNone := by
  decide +kernel

end MuMuDVB.ChannelListJs
