import MuMuDVB.M3uText
import MuMuDVB.JsonText
import MuMuDVB.StringComput
import MuMuDVB.Channel
import MuMuDVB.HttpReply
import MuMuDVB.UnicastHttp

/-!
# The playlists

`unicast_send_play_list_unicast` and `unicast_send_play_list_multicast` write an
entry for each channel that is streamed. A player reads the entries back, and
the server answers its request for an address with the channel of the entry.
-/
namespace MuMuDVB.Playlists

open CheckedMemory CString M3uText MuMuDVB.HttpReply MuMuDVB.UnicastHttp
open JsonText (integer digits_repr)
open StringComput (Factor)
open MuMuDVB.Channel (ChanStatus)

/-- What the playlists are written from. -/
structure PlaylistChannel extends HttpChannel where
  channelReady : ChanStatus
  hasTraffic : Int
  ratioScrambled : Int
  unicastPort : Int
  rtp : Bool
  ip4Out : List UInt8
  portOut : Int

structure PlaylistParameters where
  playlistIgnoreDead : Int
  playlistIgnoreScrambledRatio : Int

/-- `IPV6_CHAR_LEN` -/
@[simp] abbrev ipv6CharLen : Nat := 64

/-- The address of the socket; that of an IPv6 socket stands in brackets. -/
def httpBuf (inet6 : Bool) (addrBuf : List UInt8) : List UInt8 :=
  (if inet6 then bytes "[" ++ addrBuf ++ bytes "]" else addrBuf).take (ipv6CharLen - 1)

/-- The channel is streamed, and not left out as dead. -/
def IsAlive (p : PlaylistParameters) (ch : PlaylistChannel) : Prop :=
  ch.channelReady.isReady = true ∧ (ch.hasTraffic = 1 ∨ p.playlistIgnoreDead = 0)

instance (p : PlaylistParameters) (ch : PlaylistChannel) : Decidable (IsAlive p ch) :=
  inferInstanceAs (Decidable (_ ∧ _))

/-- Nor as scrambled. -/
def IsClear (p : PlaylistParameters) (ch : PlaylistChannel) : Prop :=
  ch.ratioScrambled < p.playlistIgnoreScrambledRatio ∨ p.playlistIgnoreScrambledRatio = 0

instance (p : PlaylistParameters) (ch : PlaylistChannel) : Decidable (IsClear p ch) :=
  inferInstanceAs (Decidable (_ ∨ _))

/-- `http://%s:%d/bysid/%d` -/
def addressBySid (host : List UInt8) (portOut : Int) (ch : PlaylistChannel) : List UInt8 :=
  bytes "http://" ++ host ++ bytes ":" ++ integer portOut ++ bytes "/bysid/" ++ integer ch.serviceId

/-- `http://%s:%d/` -/
def addressByPort (host : List UInt8) (ch : PlaylistChannel) : List UInt8 :=
  bytes "http://" ++ host ++ bytes ":" ++ integer ch.unicastPort ++ bytes "/"

/-- `%s://%s%s:%d` -/
def addressMulticast (vlc : Bool) (ch : PlaylistChannel) : List UInt8 :=
  bytes (if ch.rtp then "rtp" else "udp") ++ bytes "://" ++ bytes (if vlc then "@" else "") ++
    ch.ip4Out ++ bytes ":" ++ integer ch.portOut

/-- `#EXTINF:0,%s\r\n%s\r\n` -/
def extinf (name address : List UInt8) : List UInt8 :=
  bytes "#EXTINF:0," ++ name ++ bytes "\r\n" ++ address ++ bytes "\r\n"

/-- The address of a channel in the unicast playlist, if it has an entry. -/
def unicastAddress (p : PlaylistParameters) (perport : Bool) (host : List UInt8) (portOut : Int)
    (ch : PlaylistChannel) : Option (List UInt8) :=
  if IsAlive p ch ∧ IsClear p ch then
    if perport = false then some (addressBySid host portOut ch)
    else if ch.unicastPort ≠ 0 then some (addressByPort host ch)
    else none
  else none

def multicastAddress (p : PlaylistParameters) (vlc : Bool) (ch : PlaylistChannel) :
    Option (List UInt8) :=
  if IsAlive p ch then some (addressMulticast vlc ch) else none

/-- The loop over the channels. -/
def writeEntries (address : PlaylistChannel → Option (List UInt8)) (reply : UnicastReply) :
    List PlaylistChannel → Checked UnicastReply
  | [] => .ok reply
  | ch :: chs =>
    match address ch with
    | some url => do
      let reply ← unicastReplyWrite reply (extinf ch.name url)
      writeEntries address reply chs
    | none => writeEntries address reply chs

/-- A playlist up to the send. -/
def playList (address : PlaylistChannel → Option (List UInt8)) (channels : List PlaylistChannel) :
    Checked UnicastReply := do
  let reply ← unicastReplyWrite unicastReplyInit (bytes "#EXTM3U\r\n")
  writeEntries address reply channels

/-- `unicast_send_play_list_unicast`, when `getsockname` succeeds. -/
def unicastSendPlayListUnicast (p : PlaylistParameters) (perport inet6 : Bool)
    (addrBuf : List UInt8) (portOut : Int) (channels : List PlaylistChannel) :
    Checked UnicastReply :=
  playList (unicastAddress p perport (httpBuf inet6 addrBuf) portOut) channels

def unicastSendPlayListMulticast (p : PlaylistParameters) (vlc : Bool)
    (channels : List PlaylistChannel) : Checked UnicastReply :=
  playList (multicastAddress p vlc) channels

/-- The body of the reply. -/
def playListBody (reply : Checked UnicastReply) : Checked (List UInt8) := do
  let reply ← reply
  readCells reply.body.cells 0 reply.body.used

section written

variable {address : PlaylistChannel → Option (List UInt8)} {channels : List PlaylistChannel}

/-- The entries of the channels that have an address, in their order. -/
def entries (address : PlaylistChannel → Option (List UInt8)) (channels : List PlaylistChannel) :
    List Entry :=
  channels.filterMap fun ch => (address ch).map fun url => ⟨ch.name, url⟩

theorem extinf_eq (e : Entry) : extinf e.title e.address = entryText [48] e := by
  have hinfo : bytes "#EXTINF:0," = infoMark ++ [48] ++ [44] := by decide
  have hcrlf : bytes "\r\n" = crlf := by decide
  rw [extinf, entryText, hinfo, hcrlf, List.append_assoc _ e.address]

theorem writeEntries_collects {reply : UnicastReply} {head body : List UInt8}
    (hr : Collects reply .body head body) : ∃ reply',
    writeEntries address reply channels = .ok reply' ∧
      Collects reply' .body head
        (body ++ ((entries address channels).map (entryText [48])).flatten) := by
  induction channels generalizing reply body with
  | nil => exact ⟨reply, rfl, by rwa [entries, List.filterMap_nil, List.map_nil, List.flatten_nil,
      List.append_nil]⟩
  | cons ch chs ih =>
    rw [writeEntries, entries, List.filterMap_cons]
    cases address ch with
    | none => exact ih hr
    | some url =>
      obtain ⟨reply₁, hwrite, hr₁⟩ := hr.write_body (extinf ch.name url)
      obtain ⟨reply', hrest, hr'⟩ := ih hr₁
      refine ⟨reply', by dsimp only; rw [hwrite]; exact hrest, ?_⟩
      rw [extinf_eq ⟨ch.name, url⟩] at hr'
      rwa [Option.map_some, List.map_cons, List.flatten_cons, ← List.append_assoc]

/-- A player reads the entries back. -/
theorem playListBody_read (h : ∀ e ∈ entries address channels, 10 ∉ e.title ∧ 10 ∉ e.address) :
    ∃ body, playListBody (playList address channels) = .ok body ∧
      read body = some (entries address channels) := by
  have hmark : bytes "#EXTM3U\r\n" = mark ++ crlf := by decide
  obtain ⟨reply₁, hwrite, hr₁⟩ := collects_init.write_body (bytes "#EXTM3U\r\n")
  obtain ⟨reply', hrest, hr'⟩ := @writeEntries_collects address channels _ _ _ hr₁
  have hread := @read_entries [48] (entries address channels) (by decide) (by decide) h
  refine ⟨_, ?_, hread⟩
  rw [playListBody, playList, hwrite, bind_ok, hrest, bind_ok, hr'.body.readCells, hmark]
  rfl

end written

section followed

variable {channels : List HttpChannel} {q : HttpChannel → Bool}

/-- The loop that keeps the last match finds the last one. -/
theorem lastMatch_spec (h : ∃ c ∈ channels, q c = true) :
    ∃ n c, lastMatch q channels = n + 1 ∧ channels[n]? = some c ∧ q c = true := by
  induction channels using List.reverseRecOn with
  | nil =>
    obtain ⟨c, hc, -⟩ := h
    cases hc
  | append_singleton channels last ih =>
    have hsplit : lastMatch q (channels ++ [last]) =
        if q last then channels.length + 1 else lastMatch q channels := by
      rw [lastMatch, List.zipIdx_append, List.foldl_append, Nat.add_comm 1]
      rfl
    rw [hsplit]
    by_cases hlast : q last = true
    · exact ⟨channels.length, last, by rw [if_pos hlast], by simp, hlast⟩
    · obtain ⟨c, hc, hqc⟩ := h
      have hbefore : c ∈ channels := by
        rcases List.mem_append.mp hc with hmem | hmem
        · exact hmem
        · rw [List.mem_singleton.mp hmem] at hqc
          exact absurd hqc hlast
      obtain ⟨n, found, hn, hfound, hq⟩ := ih ⟨c, hbefore, hqc⟩
      refine ⟨n, found, by rw [if_neg hlast, hn], ?_, hq⟩
      rw [List.getElem?_append_left (List.getElem?_eq_some_iff.mp hfound).1, hfound]

theorem integer_of_nonneg {n : Int} (hn : 0 ≤ n) : integer n = bytes (Nat.repr n.toNat) := by
  rw [integer, if_neg (by omega), show n.natAbs = n.toNat from by omega]

/-- The number is read digit by digit, as the standard library does. -/
theorem digits_map {ds : List Char} {value : Nat} (h : ∀ d ∈ ds, d.isDigit = true) :
    digits value (ds.map fun c => UInt8.ofNat c.toNat) = Nat.ofDigitChars 10 ds value := by
  induction ds generalizing value with
  | nil => rfl
  | cons d ds ih =>
    have hd := h d List.mem_cons_self
    have hbyte : (UInt8.ofNat d.toNat).toNat = d.toNat := by
      rw [Char.isDigit, Bool.and_eq_true, decide_eq_true_iff, decide_eq_true_iff] at hd
      have hle : d.toNat ≤ 57 := hd.2
      exact UInt8.toNat_ofNat_of_lt' (by show d.toNat < 256; omega)
    rw [List.map_cons, digits, if_pos (JsonText.isDigit_ofNat hd), hbyte,
      ih fun c hc => h c (List.mem_cons_of_mem _ hc), Nat.ofDigitChars_cons]
    rfl

theorem digits_repr_eq (n : Nat) : digits 0 (bytes (Nat.repr n)) = n := by
  rw [bytes, Nat.toList_repr, digits_map fun d hd =>
    Nat.isDigit_of_mem_toDigits (by decide) (by decide) hd]
  exact Nat.ofDigitChars_ten_toDigits

theorem noSpaces : ([] : List UInt8).all isSpace = true := rfl

theorem decimals_some (n : Nat) : (bytes (Nat.repr n)).isEmpty = false := by
  obtain ⟨c, ds, hrepr, -⟩ := JsonText.repr_head n
  rw [hrepr]
  rfl

theorem decimals_digits (n : Nat) : (bytes (Nat.repr n)).all isDigit = true :=
  List.all_eq_true.mpr (digits_repr n)

/-- A printed number as one that is read. -/
def printed (n : Nat) : Factor where
  spacesBefore := []
  negative := false
  decimals := bytes (Nat.repr n)
  spacesAfter := []
  before_spaces := noSpaces
  decimals_some := decimals_some n
  decimals_digits := decimals_digits n
  after_spaces := noSpaces

theorem atoi_integer {n : Int} (hn : 0 ≤ n) (hlt : n < 2 ^ 31) : atoi (integer n) = n := by
  have hvalue : (printed n.toNat).value = n := by
    show ((digits 0 (bytes (Nat.repr n.toNat)) : Nat) : Int) = n
    rw [digits_repr_eq]
    omega
  have htext : (printed n.toNat).text = integer n := by
    rw [integer_of_nonneg hn]
    exact List.append_nil _
  rw [← htext, StringComput.atoi_text (by rw [hvalue]; exact ⟨by omega, hlt⟩), hvalue]

theorem integer_no (n : Int) {c : UInt8} (hdigit : isDigit c = false) (hminus : c ≠ 45) :
    c ∉ integer n := by
  intro hmem
  rw [integer] at hmem
  split at hmem
  · rcases List.mem_cons.mp hmem with hc | hc
    · exact hminus hc
    · rw [digits_repr _ _ hc] at hdigit
      cases hdigit
  · rw [digits_repr _ _ hmem] at hdigit
    cases hdigit

theorem strtok_integer (n : Int) (rest : List UInt8) :
    strtok 32 (integer n ++ 32 :: rest) = some (integer n) := by
  have hspace : ∀ c ∈ integer n, (c != 32) = true := fun c hc => bne_iff_ne.mpr fun heq =>
    integer_no n (by decide) (by decide) (heq ▸ hc)
  have htake : (integer n ++ 32 :: rest).takeWhile (· != 32) = integer n := by
    rw [List.takeWhile_append_of_pos hspace]
    exact List.append_nil _
  cases hn : integer n with
  | nil =>
    rw [integer] at hn
    split at hn
    · cases hn
    · obtain ⟨c, ds, hrepr, -⟩ := JsonText.repr_head n.natAbs
      rw [hrepr] at hn
      cases hn
  | cons d ds =>
    rw [hn] at hspace htake
    have hd := bne_iff_ne.mp (hspace d List.mem_cons_self)
    rw [strtok, List.cons_append, List.dropWhile_cons, if_neg (by simpa using hd)]
    exact congrArg some htake

/-- A request for a path. -/
def request (path more : List UInt8) : List UInt8 :=
  bytes "GET " ++ path ++ bytes " HTTP/1.1\r\n" ++ more

/-- The server gives a client that has no channel yet one with the service id it asks for. -/
theorem bySid_attaches {client : HttpClient} {sid : Int} {more : List UInt8}
    (hsid : 0 ≤ sid) (hfits : sid < 2 ^ 31) (hknown : ∃ c ∈ channels, c.serviceId = sid)
    (hasked : client.askedChannel = -1) (hchan : client.chanPtr = none)
    (hcomplete : complete (request (bytes "/bysid/" ++ integer sid) more) = true) :
    ∃ (n : Nat) (c : HttpChannel),
      (answer channels client (request (bytes "/bysid/" ++ integer sid) more)).1 = .attach n ∧
      channels[n]? = some c ∧ c.serviceId = sid := by
  have hpath : (request (bytes "/bysid/" ++ integer sid) more).drop 4 =
      bytes "/bysid/" ++ (integer sid ++ 32 :: (bytes "HTTP/1.1\r\n" ++ more)) := by
    show (bytes "GET " ++ (bytes "/bysid/" ++ integer sid) ++ (32 :: bytes "HTTP/1.1\r\n") ++
      more).drop (bytes "GET ").length = _
    simp only [List.append_assoc, List.drop_left, List.cons_append]
  have hget : bytes "GET " <+: request (bytes "/bysid/" ++ integer sid) more :=
    ⟨_, by rw [request, List.append_assoc, List.append_assoc]⟩
  obtain ⟨c, hc, hcsid⟩ := hknown
  obtain ⟨n, found, hlast, hfound, hq⟩ :=
    @lastMatch_spec channels (fun c => decide (c.serviceId = sid)) ⟨c, hc, by simpa using hcsid⟩
  refine ⟨n, found, (answer_attach_iff _).mpr ⟨⟨hcomplete, hget⟩, n + 1, ?_, by omega, by omega⟩,
    hfound, by simpa using hq⟩
  have hdrop : (bytes "/bysid/" ++ (integer sid ++ 32 :: (bytes "HTTP/1.1\r\n" ++ more))).drop 7 =
      integer sid ++ 32 :: (bytes "HTTP/1.1\r\n" ++ more) := rfl
  have hnumber : ¬ bytes "/bynumber/" <+: bytes "/bysid/" ++
      (integer sid ++ 32 :: (bytes "HTTP/1.1\r\n" ++ more)) := by
    rintro ⟨rest, hrest⟩
    have hthird : some (110 : UInt8) = some 115 := congrArg (fun l => l[3]?) hrest
    exact absurd hthird (by decide)
  rw [getRequest, if_neg (by rw [hasked]; decide), hpath, if_neg hnumber, if_pos ⟨_, rfl⟩,
    unlessStreamed_channel, hdrop, channelBySid, strtok_integer]
  refine ⟨hchan, ?_⟩
  dsimp only
  rw [atoi_integer hsid hfits, hlast, if_pos (by omega)]
  rfl

end followed

/-! ## The addresses of the playlists -/

section addresses

variable {p : PlaylistParameters} {host : List UInt8} {portOut : Int} {ch : PlaylistChannel}
  {channels : List PlaylistChannel}

theorem unicastAddress_bySid : unicastAddress p false host portOut ch =
    if IsAlive p ch ∧ IsClear p ch then some (addressBySid host portOut ch) else none := rfl

theorem addressBySid_path (hhost : 47 ∉ host) :
    pathOf (addressBySid host portOut ch) = bytes "/bysid/" ++ integer ch.serviceId := by
  have hauthority : 47 ∉ host ++ bytes ":" ++ integer portOut := by
    simp only [List.mem_append, not_or]
    exact ⟨⟨hhost, by decide⟩, integer_no portOut (by decide) (by decide)⟩
  have hsplit : addressBySid host portOut ch = bytes "http" ++ [58, 47, 47] ++
      (host ++ bytes ":" ++ integer portOut ++ 47 :: (bytes "bysid/" ++ integer ch.serviceId)) := by
    have hscheme : bytes "http://" = bytes "http" ++ [58, 47, 47] := by decide
    have hpath : bytes "/bysid/" = 47 :: bytes "bysid/" := by decide
    rw [addressBySid, hscheme, hpath]
    simp only [List.append_assoc, List.cons_append]
  rw [hsplit, pathOf_address (by decide) hauthority]
  rfl

/-- No address breaks its line. -/
theorem unicastAddress_unbroken {perport : Bool} {url : List UInt8} (hhost : 10 ∉ host)
    (h : unicastAddress p perport host portOut ch = some url) : 10 ∉ url := by
  have hinteger : ∀ n, 10 ∉ integer n := fun n => integer_no n (by decide) (by decide)
  rw [unicastAddress] at h
  obtain ⟨-, h⟩ := Option.ite_none_right_eq_some.mp h
  split at h
  · rw [← Option.some.inj h, addressBySid]
    simp only [List.mem_append, not_or]
    exact ⟨⟨⟨⟨⟨by decide, hhost⟩, by decide⟩, hinteger _⟩, by decide⟩, hinteger _⟩
  · obtain ⟨-, h⟩ := Option.ite_none_right_eq_some.mp h
    rw [← Option.some.inj h, addressByPort]
    simp only [List.mem_append, not_or]
    exact ⟨⟨⟨⟨by decide, hhost⟩, by decide⟩, hinteger _⟩, by decide⟩

theorem multicastAddress_unbroken {vlc : Bool} {url : List UInt8} (hip : 10 ∉ ch.ip4Out)
    (h : multicastAddress p vlc ch = some url) : 10 ∉ url := by
  rw [multicastAddress] at h
  obtain ⟨-, h⟩ := Option.ite_none_right_eq_some.mp h
  rw [← Option.some.inj h, addressMulticast]
  have hscheme : 10 ∉ bytes (if ch.rtp then "rtp" else "udp") := by
    cases ch.rtp <;> decide
  have hat : 10 ∉ bytes (if vlc then "@" else "") := by
    cases vlc <;> decide
  simp only [List.mem_append, not_or]
  exact ⟨⟨⟨⟨⟨hscheme, by decide⟩, hat⟩, hip⟩, by decide⟩,
    integer_no ch.portOut (by decide) (by decide)⟩

theorem httpBuf_no {inet6 : Bool} {addrBuf : List UInt8} {c : UInt8} (hc : c ∉ addrBuf)
    (hopen : c ≠ 91) (hclose : c ≠ 93) : c ∉ httpBuf inet6 addrBuf := by
  intro hmem
  have hmem := List.mem_of_mem_take hmem
  split at hmem
  · rcases List.mem_append.mp hmem with hmem | hmem
    · rcases List.mem_append.mp hmem with hmem | hmem
      · exact hopen (List.mem_singleton.mp hmem)
      · exact hc hmem
    · exact hclose (List.mem_singleton.mp hmem)
  · exact hc hmem

/-- The entries of a playlist stand for the channels that have an address, one for each. -/
theorem forall₂_entries {address : PlaylistChannel → Option (List UInt8)}
    {R : PlaylistChannel → Entry → Prop}
    (h : ∀ ch ∈ channels, ∀ url, address ch = some url → R ch ⟨ch.name, url⟩) :
    List.Forall₂ R (channels.filter fun ch => (address ch).isSome) (entries address channels) := by
  induction channels with
  | nil => exact .nil
  | cons ch chs ih =>
    have hrest := ih fun c hc => h c (List.mem_cons_of_mem _ hc)
    rw [entries, List.filterMap_cons, List.filter_cons]
    cases haddress : address ch with
    | none => exact hrest
    | some url => exact .cons (h ch List.mem_cons_self url haddress) hrest

theorem entries_unbroken {address : PlaylistChannel → Option (List UInt8)}
    (hnames : ∀ ch ∈ channels, 10 ∉ ch.name)
    (h : ∀ ch ∈ channels, ∀ url, address ch = some url → 10 ∉ url) :
    ∀ e ∈ entries address channels, 10 ∉ e.title ∧ 10 ∉ e.address := by
  intro e he
  obtain ⟨ch, hch, hmap⟩ := List.mem_filterMap.mp he
  obtain ⟨url, hurl, rfl⟩ := Option.map_eq_some_iff.mp hmap
  exact ⟨hnames ch hch, h ch hch url hurl⟩

theorem unicast_read (p : PlaylistParameters) (perport inet6 : Bool) {addrBuf : List UInt8}
    (portOut : Int) (hnames : ∀ ch ∈ channels, 10 ∉ ch.name) (hline : 10 ∉ addrBuf) :
    ∃ body,
      playListBody (unicastSendPlayListUnicast p perport inet6 addrBuf portOut channels) =
        .ok body ∧
      read body =
        some (entries (unicastAddress p perport (httpBuf inet6 addrBuf) portOut) channels) :=
  playListBody_read (entries_unbroken hnames fun _ _ _ hurl =>
    unicastAddress_unbroken (httpBuf_no hline (by decide) (by decide)) hurl)

theorem multicast_read (p : PlaylistParameters) (vlc : Bool)
    (hnames : ∀ ch ∈ channels, 10 ∉ ch.name) (hips : ∀ ch ∈ channels, 10 ∉ ch.ip4Out) :
    ∃ body, playListBody (unicastSendPlayListMulticast p vlc channels) = .ok body ∧
      read body = some (entries (multicastAddress p vlc) channels) :=
  playListBody_read (entries_unbroken hnames fun ch hch _ hurl =>
    multicastAddress_unbroken (hips ch hch) hurl)

/-- The entry is that of the channel, and the server answers a client that asks for its address
with a channel of the same service. -/
def Answered (channels : List PlaylistChannel) (ch : PlaylistChannel) (e : Entry) : Prop :=
  e.title = ch.name ∧ ∀ client more, client.askedChannel = -1 → client.chanPtr = none →
    complete (request (pathOf e.address) more) = true →
    ∃ (n : Nat) (found : PlaylistChannel),
      (answer (channels.map (·.toHttpChannel)) client (request (pathOf e.address) more)).1 =
        .attach n ∧ channels[n]? = some found ∧ found.serviceId = ch.serviceId

/-- The playlist that names channels by their service id lists the streamed channels in their
order, and the server answers the request for an entry's address with a channel of that service. -/
theorem playList_followed (p : PlaylistParameters) (inet6 : Bool) (addrBuf : List UInt8)
    (portOut : Int) (channels : List PlaylistChannel) (hnames : ∀ ch ∈ channels, 10 ∉ ch.name)
    (hline : 10 ∉ addrBuf) (hslash : 47 ∉ addrBuf)
    (hids : ∀ ch ∈ channels, 0 ≤ ch.serviceId ∧ ch.serviceId < 2 ^ 31) :
    ∃ body listed,
      playListBody (unicastSendPlayListUnicast p false inet6 addrBuf portOut channels) = .ok body ∧
      read body = some listed ∧
      List.Forall₂ (Answered channels)
        (channels.filter fun ch => decide (IsAlive p ch ∧ IsClear p ch)) listed := by
  have hhost : 47 ∉ httpBuf inet6 addrBuf := httpBuf_no hslash (by decide) (by decide)
  obtain ⟨body, hbody, hread⟩ := unicast_read p false inet6 portOut hnames hline
  refine ⟨body, _, hbody, hread, ?_⟩
  have hlisted : (fun ch => decide (IsAlive p ch ∧ IsClear p ch)) = fun ch =>
      (unicastAddress p false (httpBuf inet6 addrBuf) portOut ch).isSome := by
    funext ch
    rw [unicastAddress_bySid]
    by_cases h : IsAlive p ch ∧ IsClear p ch
    · rw [if_pos h, decide_eq_true h]
      rfl
    · rw [if_neg h, decide_eq_false h]
      rfl
  rw [hlisted]
  refine forall₂_entries fun ch hch url hurl => ⟨rfl, fun client more hasked hchan hcomplete => ?_⟩
  rw [unicastAddress_bySid] at hurl
  obtain ⟨-, hurl⟩ := Option.ite_none_right_eq_some.mp hurl
  rw [← Option.some.inj hurl] at hcomplete ⊢
  rw [addressBySid_path hhost] at hcomplete ⊢
  obtain ⟨n, c, hattach, hc, hsid⟩ := bySid_attaches (hids ch hch).1 (hids ch hch).2
    ⟨ch.toHttpChannel, List.mem_map_of_mem hch, rfl⟩ hasked hchan hcomplete
  rw [List.getElem?_map] at hc
  obtain ⟨found, hfound, rfl⟩ := Option.map_eq_some_iff.mp hc
  exact ⟨n, found, hattach, hfound, hsid⟩

/-- Two channels, of which one is not streamed yet. -/
def twoChannels : List PlaylistChannel :=
  [{ serviceId := 8373, name := bytes "First", channelReady := .ready, hasTraffic := 1,
     ratioScrambled := 0, unicastPort := 0, rtp := false, ip4Out := bytes "239.100.0.0",
     portOut := 1234 },
   { serviceId := 8374, name := bytes "Second", channelReady := .notReady, hasTraffic := 1,
     ratioScrambled := 0, unicastPort := 0, rtp := false, ip4Out := bytes "239.100.0.1",
     portOut := 1234 }]

theorem playList_followed_two : ∃ body listed,
    playListBody (unicastSendPlayListUnicast ⟨0, 50⟩ false false (bytes "10.0.0.2") 4242
      twoChannels) = .ok body ∧
    read body = some listed ∧
    List.Forall₂ (Answered twoChannels)
      (twoChannels.filter fun ch => decide (IsAlive ⟨0, 50⟩ ch ∧ IsClear ⟨0, 50⟩ ch)) listed :=
  playList_followed ⟨0, 50⟩ false (bytes "10.0.0.2") 4242 twoChannels (by decide) (by decide)
    (by decide) (by decide)

end addresses

end MuMuDVB.Playlists
