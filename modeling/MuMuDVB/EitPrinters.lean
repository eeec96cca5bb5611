import MuMuDVB.JsonBounds
import MuMuDVB.SdtReading
import MuMuDVB.TextConversion

/-!
# The EIT as JSON

A section of the EIT is written as a JSON object, its events in a list and the
descriptors of an event in another one. Each kind of descriptor has a printer that
copies the texts of the descriptor to an array, converts them there and escapes
them into a second array. The numbers and the names of the members come from the
formats; what the arguments of a format put between quotes is a part of its own.
-/
namespace MuMuDVB.EitPrinters

open CheckedMemory CString MuMuDVB.TsHeader MuMuDVB.Ts MuMuDVB.TsAssembler
open MuMuDVB.AutoconfTables MuMuDVB.TextConversion
open JsonText (integer)
open JsonEscape (mumuStringToJson)
open MuMuDVB.ServiceNames (IconvOpen)

@[simp] abbrev maxDescrLen : Nat := 4096
@[simp] abbrev eitLen : Nat := 14
@[simp] abbrev eitEventLen : Nat := 12

/-- What `unicast_reply_write` adds: text of a format, a number, or a string with arguments between
its quotes. -/
inductive Part where
  | text (format : String)
  | number (n : Int)
  | literal (content : List UInt8)

def Part.bytes : Part → List UInt8
  | .text format => CString.bytes format
  | .number n => integer n
  | .literal content => 34 :: (content ++ [34])

structure CaSysId where
  beginning : Nat
  ending : Nat
  descr : List UInt8

/-- `casysids` -/
def casysids : List CaSysId :=
  [⟨0x01, 0, bytes "IPDC SPP (TS 102 474) Annex A "⟩,
    ⟨0x02, 0, bytes "18Crypt (IPDC SPP (TS 102 474) Annex B)"⟩,
    ⟨0x04, 0, bytes "OMA DRM Content Format"⟩,
    ⟨0x05, 0, bytes "OMA BCAST 1.0"⟩,
    ⟨0x06, 0, bytes "OMA BCAST 1.0 (U)SIM"⟩,
    ⟨0x07, 0, bytes "Reserved for Open IPTV Forum"⟩,
    ⟨0x08, 0, bytes "Open Mobile Alliance"⟩,
    ⟨0x00, 0xFF, bytes "Standardized systems"⟩,
    ⟨0x0100, 0x01ff, bytes "Canal Plus"⟩,
    ⟨0x0200, 0x02ff, bytes "CCETT"⟩,
    ⟨0x0300, 0x03ff, bytes "Kabel Deutschland"⟩,
    ⟨0x0400, 0x04ff, bytes "Eurodec"⟩,
    ⟨0x0500, 0x05ff, bytes "France Telecom"⟩,
    ⟨0x0600, 0x06ff, bytes "Irdeto"⟩,
    ⟨0x0700, 0x07ff, bytes "Jerrold/GI/Motorola"⟩,
    ⟨0x0800, 0x08ff, bytes "Matra Communication"⟩,
    ⟨0x0900, 0x09ff, bytes "News Datacom"⟩,
    ⟨0x0A00, 0x0Aff, bytes "Nokia"⟩,
    ⟨0x0B00, 0x0Bff, bytes "Norwegian Telekom"⟩,
    ⟨0x0C00, 0x0Cff, bytes "NTL"⟩,
    ⟨0x0D00, 0x0Dff, bytes "CrytoWorks (Irdeto)"⟩,
    ⟨0x0E00, 0x0Eff, bytes "Scientific Atlanta"⟩,
    ⟨0x0F00, 0x0Fff, bytes "Sony"⟩,
    ⟨0x1000, 0x10ff, bytes "Tandberg Television"⟩,
    ⟨0x1100, 0x11ff, bytes "Thomson"⟩,
    ⟨0x1200, 0x12ff, bytes "TV/Com"⟩,
    ⟨0x1300, 0x13ff, bytes "HPT - Croatian Post and Telecommunications"⟩,
    ⟨0x1400, 0x14ff, bytes "HRT - Croatian Radio and Television"⟩,
    ⟨0x1500, 0x15ff, bytes "IBM"⟩,
    ⟨0x1600, 0x16ff, bytes "Nera"⟩,
    ⟨0x1700, 0x17ff, bytes "BetaTechnik"⟩,
    ⟨0x1800, 0x18ff, bytes "Kudelski SA"⟩,
    ⟨0x1900, 0x19ff, bytes "Titan Information Systems"⟩,
    ⟨0x1E00, 0x1E07, bytes "Alticast"⟩,
    ⟨0x1EA0, 0, bytes "Monacrypt"⟩,
    ⟨0x1EB0, 0, bytes "TELECAST TECHNOLOGY CO., LTD."⟩,
    ⟨0x2000, 0x20ff, bytes "Telefonica Servicios Audiovisuales"⟩,
    ⟨0x2100, 0x21ff, bytes "STENTOR (France Telecom, CNES and DGA)"⟩,
    ⟨0x2200, 0x22ff, bytes "Scopus Network Technologies"⟩,
    ⟨0x2300, 0x23ff, bytes "BARCO AS"⟩,
    ⟨0x2400, 0x24ff, bytes "StarGuide Digital Networks"⟩,
    ⟨0x2500, 0x25ff, bytes "Mentor Data System, Inc."⟩,
    ⟨0x2600, 0x26ff, bytes "European Broadcasting Union"⟩,
    ⟨0x2700, 0x270F, bytes "PolyCipher (NGNA, LLC)"⟩,
    ⟨0x2710, 0x2711, bytes "Extended Secure Technologies B.V."⟩,
    ⟨0x2712, 0, bytes "Signal elektronic"⟩,
    ⟨0x2713, 0x2714, bytes "Wuhan Tianyu Information Industry Co., Ltd"⟩,
    ⟨0x2715, 0, bytes "Network Broadcast"⟩,
    ⟨0x2716, 0, bytes "Bromteck"⟩,
    ⟨0x2717, 0x2718, bytes "LOGIWAYS"⟩,
    ⟨0x2800, 0x2809, bytes "LCS LLC"⟩,
    ⟨0x2810, 0, bytes "MULTIKOM DELTASAT GMBH KG"⟩,
    ⟨0x4347, 0, bytes "Crypton"⟩,
    ⟨0x4700, 0x47FF, bytes "General Instrument (Motorola)"⟩,
    ⟨0x4800, 0x48FF, bytes "Telemann"⟩,
    ⟨0x4900, 0x49FF, bytes "CrytoWorks (China) (Irdeto)"⟩,
    ⟨0x4A10, 0x4A1F, bytes "Easycas"⟩,
    ⟨0x4A20, 0x4A2F, bytes "AlphaCrypt"⟩,
    ⟨0x4A30, 0x4A3F, bytes "DVN Holdings"⟩,
    ⟨0x4A40, 0x4A4F, bytes "Shanghai Advanced Digital Technology Co. Ltd. (ADT)"⟩,
    ⟨0x4A50, 0x4A5F, bytes "Shenzhen Kingsky Company (China) Ltd."⟩,
    ⟨0x4A60, 0x4A6F, bytes "@Sky"⟩,
    ⟨0x4A70, 0x4A7F, bytes "Dreamcrypt"⟩,
    ⟨0x4A80, 0x4A8F, bytes "THALESCrypt"⟩,
    ⟨0x4A90, 0x4A9F, bytes "Runcom Technologies"⟩,
    ⟨0x4AA0, 0x4AAF, bytes "SIDSA"⟩,
    ⟨0x4AB0, 0x4ABF, bytes "Beijing Compunicate Technology Inc."⟩,
    ⟨0x4AC0, 0x4ACF, bytes "Latens Systems Ltd"⟩,
    ⟨0x4AD0, 0x4AD1, bytes "XCrypt Inc."⟩,
    ⟨0x4AD2, 0x4AD3, bytes "Beijing Digital Video Technology Co., Ltd."⟩,
    ⟨0x4AD4, 0x4AD5, bytes "Widevine Technologies, Inc."⟩,
    ⟨0x4AD6, 0x4AD7, bytes "SK Telecom Co., Ltd."⟩,
    ⟨0x4AD8, 0x4AD9, bytes "Enigma Systems"⟩,
    ⟨0x4ADA, 0, bytes "Wyplay SAS"⟩,
    ⟨0x4ADB, 0, bytes "Jinan Taixin Electronics, Co., Ltd."⟩,
    ⟨0x4ADC, 0, bytes "LogiWays"⟩,
    ⟨0x4ADD, 0, bytes "ATSC System Renewability Message (SRM)"⟩,
    ⟨0x4ADE, 0, bytes "CerberCrypt"⟩,
    ⟨0x4ADF, 0, bytes "Caston Co., Ltd."⟩,
    ⟨0x4AE0, 0x4AE1, bytes "Digi Raum Electronics Co. Ltd."⟩,
    ⟨0x4AE2, 0x4AE3, bytes "Microsoft Corp."⟩,
    ⟨0x4AE4, 0, bytes "Coretrust, Inc."⟩,
    ⟨0x4AE5, 0, bytes "IK SATPROF"⟩,
    ⟨0x4AE6, 0, bytes "SypherMedia International"⟩,
    ⟨0x4AE7, 0, bytes "Guangzhou Ewider Technology Corporation Limited"⟩,
    ⟨0x4AE8, 0, bytes "FG DIGITAL Ltd."⟩,
    ⟨0x4AE9, 0, bytes "Dreamer-i Co., Ltd."⟩,
    ⟨0x4AEA, 0, bytes "Cryptoguard AB"⟩,
    ⟨0x4AEB, 0, bytes "Abel DRM Systems AS"⟩,
    ⟨0x4AEC, 0, bytes "FTS DVL SRL"⟩,
    ⟨0x4AED, 0, bytes "Unitend Technologies, Inc."⟩,
    ⟨0x4AEE, 0, bytes "Deltacom Electronics OOD"⟩,
    ⟨0x4AEF, 0, bytes "NetUP Inc."⟩,
    ⟨0x4AF0, 0, bytes "Beijing Alliance Broadcast Vision Technology Co., Ltd."⟩,
    ⟨0x4AF1, 0, bytes "China DTV Media Inc., Ltd. #1"⟩,
    ⟨0x4AF2, 0, bytes "China DTV Media Inc., Ltd. #2"⟩,
    ⟨0x4AF3, 0, bytes "Baustem Information Technologies, Ltd."⟩,
    ⟨0x4AF4, 0, bytes "Marlin Developer Community, LLC"⟩,
    ⟨0x4AF5, 0, bytes "SecureMedia"⟩,
    ⟨0x4AF6, 0, bytes "Tongfang CAS"⟩,
    ⟨0x4AF7, 0, bytes "MSA"⟩,
    ⟨0x4AF8, 0, bytes "Griffin CAS"⟩,
    ⟨0x4AF9, 0x4AFA, bytes "Beijing Topreal Technologies Co., Ltd"⟩,
    ⟨0x4AFB, 0, bytes "NST"⟩,
    ⟨0x4AFC, 0, bytes "Panaccess Systems GmbH"⟩,
    ⟨0x4B00, 0x4B02, bytes "Tongfang CAS"⟩,
    ⟨0x4B03, 0, bytes "DuoCrypt"⟩,
    ⟨0x4B04, 0, bytes "Great Wall CAS"⟩,
    ⟨0x4B05, 0x4B06, bytes "DIGICAP"⟩,
    ⟨0x4B07, 0, bytes "Wuhan Reikost Technology Co., Ltd."⟩,
    ⟨0x4B08, 0, bytes "Philips"⟩,
    ⟨0x4B09, 0, bytes "Ambernetas"⟩,
    ⟨0x4B0A, 0x4B0B, bytes "Beijing Sumavision Technologies CO. LTD."⟩,
    ⟨0x4B0C, 0x4B0F, bytes "Sichuan changhong electric co.,ltd."⟩,
    ⟨0x4B10, 0, bytes "Exterity Limited"⟩,
    ⟨0x4B11, 0x4B12, bytes "Advanced Digital Platform Technologies"⟩,
    ⟨0x4B13, 0x4B14, bytes "Microsoft Corporation"⟩,
    ⟨0x4B20, 0x4B22, bytes "MULTIKOM DELTASAT GmbH Co KG"⟩,
    ⟨0x4B23, 0, bytes "SkyNLand Video Networks Pvt Ltd"⟩,
    ⟨0x5347, 0, bytes "GkWare e.K."⟩,
    ⟨0x5601, 0, bytes "Verimatrix, Inc. #1"⟩,
    ⟨0x5602, 0, bytes "Verimatrix, Inc. #2"⟩,
    ⟨0x5603, 0, bytes "Verimatrix, Inc. #3"⟩,
    ⟨0x5604, 0, bytes "Verimatrix, Inc. #4"⟩,
    ⟨0x5605, 0x5606, bytes "Sichuan Juizhou Electronic Co. Ltd"⟩,
    ⟨0x5607, 0x5608, bytes "Viewscenes"⟩,
    ⟨0x5609, 0, bytes "Power On  s.r.l"⟩,
    ⟨0x7BE0, 0x7BE1, bytes "OOO"⟩,
    ⟨0xAA00, 0, bytes "Best CAS Ltd"⟩,
    ⟨0xAA01, 0, bytes "Best CAS Ltd"⟩]

/-- `ca_sys_id_to_str` -/
def caSysIdToStr (id : Nat) : List UInt8 :=
  match casysids.find? fun c =>
      (c.ending = 0 ∧ c.beginning = id) ∨ (c.beginning ≤ id ∧ id ≤ c.ending) with
  | some c => c.descr
  | none => bytes "UNKNOWN, please report"

/-- `running_status_descr` -/
def runningStatusDescr : Buffer (List UInt8) 8 where
  cells := [bytes "undefined", bytes "not running", bytes "starts in a few seconds",
    bytes "pausing", bytes "running", bytes "service off-air", bytes "reserved for future use",
    bytes "reserved for future use"]
  size := rfl

/-- `%02d` -/
def twoDigits (n : Int) : List UInt8 :=
  if (integer n).length < 2 then 48 :: integer n else integer n

/-- A number in BCD. -/
def bcd (b : UInt8) : Int := (b.toNat / 16 * 10 + b.toNat % 16 : Nat)

/-- `%02d:%02d:%02d` -/
def clock (hh mm ss : UInt8) : List UInt8 :=
  twoDigits (bcd hh) ++ (58 :: (twoDigits (bcd mm) ++ (58 :: twoDigits (bcd ss))))

/-- `%d-%02d-%02d` -/
def date (ymd : Int × Int × Int) : List UInt8 :=
  integer ymd.1 ++ (45 :: (twoDigits ymd.2.1 ++ (45 :: twoDigits ymd.2.2)))

/-- What is outside: the encodings that `iconv` knows, whether there is memory for the text at a
place, what its two arrays hold before, and the date that is computed from a MJD. -/
structure Outside where
  iconvOpen : IconvOpen
  malloc : Nat → Bool
  stale : Nat → Buffer UInt8 maxDescrLen × Buffer UInt8 maxDescrLen
  ymd : Nat → Int × Int × Int

/-- A text is copied to `text` and converted there. -/
def convertedText (env : Outside) (buf : Nat) (copied : List UInt8) :
    Checked (Buffer UInt8 maxDescrLen) := do
  let text ← (env.stale buf).1.write 0 (copied ++ [0])
  let converted ← convertEn300468StringIn env.iconvOpen (env.malloc buf) (maxDescrLen - 1) text
  return converted.2

section printers

variable (env : Outside) (dataFull : Buffer UInt8 maxTsSize)

/-- The arrays `text` and `text2` after a text has been converted and escaped. -/
def texts (buf len : Nat) : Checked (Buffer UInt8 maxDescrLen × Buffer UInt8 maxDescrLen) := do
  let text ← convertedText env buf (← readBytes dataFull.read buf len)
  let text2 ← mumuStringToJson text maxDescrLen (maxDescrLen + 1) (env.stale buf).2
  return (text, text2)

/-- What is printed of `text2`. -/
def escaped (buf len : Nat) : Checked (List UInt8) := do
  let arrays ← texts env dataFull buf len
  cstring arrays.2.cells

def eitShowShortEvtDescr (buf : Nat) : Checked (List Part) := do
  let language ← readBytes dataFull.read (buf + 2) 3
  let nameLength ← dataFull.read (buf + 5)
  let name ← escaped env dataFull (buf + 6) nameLength.toNat
  let delta := buf + (6 + nameLength.toNat)
  let textLength ← dataFull.read delta
  let text ← escaped env dataFull (delta + 1) textLength.toNat
  return [.text "\t\t\"language\" : ", .literal language, .text ",\n\t\t\"name\" : ", .literal name,
    .text ",\n\t\t\"text\" : ", .literal text, .text "\n"]

/-- The items of an extended event descriptor, and where they end. -/
def itemLoop (fuel delta lengthOfItems : Nat) (first : Bool) : Checked (Nat × List Part) :=
  match fuel with
  | 0 => .error .endless
  | fuel + 1 =>
    if 0 < lengthOfItems then do
      let itemDescriptionLength ← dataFull.read delta
      let itemDescr ← escaped env dataFull (delta + 1) itemDescriptionLength.toNat
      let next := delta + (1 + itemDescriptionLength.toNat)
      let itemLength ← dataFull.read next
      let item ← escaped env dataFull (next + 1) itemLength.toNat
      let rest ← itemLoop fuel (next + (1 + itemLength.toNat))
        (lengthOfItems - (2 + itemDescriptionLength.toNat + itemLength.toNat)) false
      return (rest.1, .text (if first then "\x7b\n" else ",\n\x7b\n") ::
        .text "\t\t\"item_descr\" : " :: .literal itemDescr :: .text ",\n\t\t\"item\" : " ::
        .literal item :: .text "\x7d\n" :: rest.2)
    else .ok (delta, [])

def eitShowExtEvtDescr (buf : Nat) : Checked (List Part) := do
  let numbers ← dataFull.read (buf + 2)
  let language ← readBytes dataFull.read (buf + 3) 3
  let lengthOfItems ← dataFull.read (buf + 6)
  let items ← itemLoop env dataFull (lengthOfItems.toNat + 1) (buf + 7) lengthOfItems.toNat true
  let textLength ← dataFull.read items.1
  let text ← escaped env dataFull (items.1 + 1) textLength.toNat
  return [.text "\t\t\"descr_number\" : ", .number (numbers.toNat / 16 + 1 : Nat),
    .text " ,\n\t\t\"descr_total_number\" : ", .number (numbers.toNat % 16 + 1 : Nat),
    .text ",\n\t\t\"language\" : ", .literal language, .text ",\n\t\t\"items\":["] ++ items.2 ++
    [.text "],\n\t\t\"text\": ", .literal text, .text "\n"]

def eitShowComponentDescr (buf : Nat) : Checked (List Part) := do
  let len ← dataFull.read (buf + 1)
  if 5 < len.toNat then do
    let streamContent ← dataFull.read (buf + 2)
    let componentType ← dataFull.read (buf + 3)
    let componentTag ← dataFull.read (buf + 4)
    let language ← readBytes dataFull.read (buf + 5) 3
    -- six bytes lie before the text
    let text ← escaped env dataFull (buf + 8) (len.toNat - 5)
    return [.text "\t\t\"len\" : ", .number len.toNat, .text ",\n\t\t\"stream_content\" :",
      .number (streamContent.toNat % 16 : Nat), .text ",\n\t\t\"component_type\" :",
      .number componentType.toNat, .text ",\n\t\t\"component_tag\" :", .number componentTag.toNat,
      .text ",\n\t\t\"language\" : ", .literal language, .text ",\n\t\t\"text\" : ", .literal text,
      .text "\n"]
  else return [.text "\t\t\"len\" : ", .number len.toNat, .text "\n"]

def caLoop (fuel buf i length : Nat) (first : Bool) : Checked (List Part) :=
  match fuel with
  | 0 => .error .endless
  | fuel + 1 =>
    if i < length then do
      let caId ← readHilo dataFull.read 256 (buf + i)
      let rest ← caLoop fuel buf (i + 2) length false
      return .text (if first then "\x7b\n" else ",\n\x7b\n") :: .text "\t\t\t\"id\" :" ::
        .number caId :: .text ",\n\t\t\t\"descr\" : " :: .literal (caSysIdToStr caId) ::
        .text "\x7d\n" :: rest
    else .ok []

def eitShowCAIdentifierDescriptor (buf : Nat) : Checked (List Part) := do
  let length ← dataFull.read (buf + 1)
  let rest ← caLoop dataFull (length.toNat + 1) (buf + 2) 0 length.toNat true
  return .text "\t\t\"CA_system_id\":[\n" :: (rest ++ [.text "]\n"])

def eitShowContentDescriptor (buf : Nat) : Checked (List Part) := do
  let nibbles ← dataFull.read (buf + 2)
  let userByte ← dataFull.read (buf + 3)
  return [.text "\t\t\"content_nibble_lvl_1\" :", .number (nibbles.toNat / 16 : Nat),
    .text ",\n\t\t\"content_nibble_lvl_2\" :", .number (nibbles.toNat % 16 : Nat),
    .text ",\n\t\t\"user byte\" :", .number userByte.toNat, .text "\n"]

def ratingParts (rating : UInt8) : List Part :=
  if rating = 0 then [.text "\t\t\"rating\" : \"undefined\"\n"]
  else if rating ≤ 0x0f then
    [.text "\t\t\"rating\" : ", .literal (bytes "minimum age " ++ integer (rating.toNat + 3 : Nat)),
      .text "\n"]
  else [.text "\t\t\"rating\" : \"defined by broadcaster\"\n"]

def ratingLoop (fuel buf delta length : Nat) : Checked (List Part) :=
  match fuel with
  | 0 => .error .endless
  | fuel + 1 =>
    if 0 < length then do
      let language ← readBytes dataFull.read (buf + delta) 3
      let rating ← dataFull.read (buf + (delta + 3))
      let rest ← ratingLoop fuel buf (delta + 4) (length - 4)
      return .text (if 2 < delta then ",\n" else "") ::
        .text "\t\t\x7b\n\t\t\t\"language\" : " :: .literal language :: .text ",\n" ::
        (ratingParts rating ++ .text "\t\t\x7d" :: rest)
    else .ok []

def eitShowParentRatingDescr (buf : Nat) : Checked (List Part) := do
  let length ← dataFull.read (buf + 1)
  ratingLoop dataFull (length.toNat + 1) buf 2 length.toNat

def componentLoop (fuel delta length : Nat) (first : Bool) : Checked (List Part) :=
  match fuel with
  | 0 => .error .endless
  | fuel + 1 =>
    if 0 < length then do
      let language ← readBytes dataFull.read delta 3
      let textLength ← dataFull.read (delta + 3)
      let arrays ← texts env dataFull (delta + 4) textLength.toNat
      -- `text`, which is not escaped
      let text ← cstring arrays.1.cells
      let rest ← componentLoop fuel (delta + (4 + textLength.toNat))
        (length - 4 - textLength.toNat) false
      return .text (if first then "\x7b\n" else ",\n\x7b\n") :: .text "\t\t\"language\" : " ::
        .literal language :: .text ",\n\t\t\"text\" : " :: .literal text :: .text "\x7d" :: rest
    else .ok []

def eitShowMultilingCompDescr (buf : Nat) : Checked (List Part) := do
  let length ← dataFull.read (buf + 1)
  let componentTag ← dataFull.read (buf + 2)
  let rest ← componentLoop env dataFull (length.toNat + 1) (buf + 3) (length.toNat - 1) true
  return .text "\t\t\"component_tag\" :" :: .number componentTag.toNat ::
    .text ",\n\t\t\"components\":[\n" :: (rest ++ [.text "]\n"])

/-- What a descriptor is called that is not shown. -/
def otherDescr (descriptorTag : UInt8) : String :=
  if descriptorTag = 0x4f then ",\n\t\t\"descr\" : \"Time shifted event descriptor\"\n"
  else if descriptorTag = 0x57 then ",\n\t\t\"descr\" : \"Telephone descriptor\"\n"
  else if descriptorTag = 0x5f then ",\n\t\t\"descr\" : \"Private data specifier descriptor\"\n"
  else if descriptorTag = 0x61 then ",\n\t\t\"descr\" : \"Short smoothing buffer descriptor\"\n"
  else if descriptorTag = 0x69 then ",\n\t\t\"descr\" : \"PDC descriptor\"\n"
  else ",\n\t\t\"descr\" : \"Unknown descriptor\"\n"

/-- What stands around the printed descriptor. -/
def around (before : String) (shown : List Part) (behind : String) : List Part :=
  .text before :: (shown ++ [.text behind])

/-- The `switch` of `eit_display_descriptor`. -/
def showDescriptor (descriptorTag : UInt8) (buf : Nat) : Checked (List Part) :=
  if descriptorTag = 0x4d then do
    let shown ← eitShowShortEvtDescr env dataFull buf
    return around ",\n\t\t\"descr\" : \"Short event descriptor\",\n\t\t\"short_evt\":\x7b\n" shown
      "\x7d\n"
  else if descriptorTag = 0x4e then do
    let shown ← eitShowExtEvtDescr env dataFull buf
    return around ",\n\t\t\"descr\" : \"Extended event descriptor\",\n\t\t\"ext_evt\":\x7b\n" shown
      "\x7d\n"
  else if descriptorTag = 0x50 then do
    let shown ← eitShowComponentDescr env dataFull buf
    return around ",\n\t\t\"descr\" : \"Component descriptor\",\n\t\t\"component\":\x7b\n" shown
      "\x7d\n"
  else if descriptorTag = 0x53 then do
    let shown ← eitShowCAIdentifierDescriptor dataFull buf
    return around ",\n\t\t\"descr\" : \"CA identifier descriptor\",\n\t\t\"CA_identifier\":\x7b\n"
      shown "\x7d\n"
  else if descriptorTag = 0x54 then do
    let shown ← eitShowContentDescriptor dataFull buf
    return .text ",\n\t\t\"descr\" : \"Content descriptor (type of program cf tabl 28 " ::
      around "EN 300 468 V1.13.1)\",\n\t\t\"content\":\x7b\n" shown "\x7d\n"
  else if descriptorTag = 0x55 then do
    let shown ← eitShowParentRatingDescr dataFull buf
    return around ",\n\t\t\"descr\" : \"Parental rating descriptor\",\n\t\t\"parental_rating\":[\n"
      shown "]\n"
  else if descriptorTag = 0x5e then do
    let shown ← eitShowMultilingCompDescr env dataFull buf
    return .text ",\n\t\t\"descr\" : \"Multilingual component descriptor\",\n" ::
      around "\t\t\"multiling_component\":\x7b\n" shown "\x7d\n"
  else return [.text (otherDescr descriptorTag)]

/-- The loop of `eit_display_descriptor`; a length with its two bytes is never zero. -/
def descriptorLoop (fuel buf descriptorsLoopLen : Nat) (first : Bool) : Checked (List Part) :=
  match fuel with
  | 0 => .error .endless
  | fuel + 1 =>
    if 0 < descriptorsLoopLen then do
      let descriptorTag ← dataFull.read buf
      let descriptorLenU8 ← dataFull.read (buf + 1)
      let descriptorLen := descriptorLenU8.toNat + 2
      let shown ← showDescriptor env dataFull descriptorTag buf
      let rest ← descriptorLoop fuel (buf + descriptorLen) (descriptorsLoopLen - descriptorLen)
        false
      return .text (if first then "" else ",") :: .text "\n\x7b\n\t\t\"tag\" :" ::
        .number descriptorTag.toNat :: .text ",\n\t\t\"len\" : " :: .number descriptorLen ::
        (shown ++ .text "\x7d" :: rest)
    else .ok []

def eitDisplayDescriptor (buf descriptorsLoopLen : Nat) : Checked (List Part) := do
  let shown ← descriptorLoop env dataFull (descriptorsLoopLen + 1) buf descriptorsLoopLen true
  return around "\"EIT_descriptors\":[\n" shown "]\n"

/-- The members of an event up to its descriptors. -/
def eventParts (event : List UInt8) (status : List UInt8) (loopLength : Nat) : List Part :=
  [.text "\x7b\n\t\t\"event_id\" :", .number (hilo (byteAt event 0).toNat (byteAt event 1).toNat),
    .text ",\n\t\t\"start_date\" : ",
    .literal (date (env.ymd (hilo (byteAt event 2).toNat (byteAt event 3).toNat))),
    .text ",\n\t\t\"start_time\" : ",
    .literal (clock (byteAt event 4) (byteAt event 5) (byteAt event 6)),
    .text ",\n\t\t\"duration\" : ",
    .literal (clock (byteAt event 7) (byteAt event 8) (byteAt event 9)),
    .text ",\n\t\t\"running_status\" :", .number ((byteAt event 10).toNat / 32 : Nat),
    .text ",\n\t\t\"running_status_descr\" : ", .literal status,
    .text ",\n\t\t\"free_ca_mode\" :", .number ((byteAt event 10).toNat / 16 % 2 : Nat),
    .text ",\n\t\t\"descriptors_loop_length\" : ", .number loopLength, .text ",\n"]

/-- The loop of `eit_display_contents` over the events. -/
def eventLoop (lenFull fuel delta : Nat) (first : Bool) : Checked (List Part) :=
  match fuel with
  | 0 => .error .endless
  | fuel + 1 =>
    if delta + (4 + eitEventLen) ≤ lenFull then do
      let event ← readBytes dataFull.read delta eitEventLen
      let loopLength := hilo ((byteAt event 10).toNat % 16) (byteAt event 11).toNat
      let status ← runningStatusDescr.read ((byteAt event 10).toNat / 32)
      let shown ← eitDisplayDescriptor env dataFull (delta + eitEventLen) loopLength
      let rest ← eventLoop lenFull fuel (delta + (loopLength + eitEventLen)) false
      return .text (if first then "" else ",") ::
        (eventParts env event status loopLength ++ (shown ++ .text "\x7d" :: rest))
    else .ok []

/-- The members of a section up to its events. -/
def sectionParts (lenFull : Nat) (eit : List UInt8) : List Part :=
  [.text "\t\"length\" : ", .number lenFull,
    .text ",\n\t\"table_id\" :", .number (byteAt eit 0).toNat,
    .text ",\n\t\"section_length\" : ",
    .number (hilo ((byteAt eit 1).toNat % 16) (byteAt eit 2).toNat),
    .text ",\n\t\"section_syntax_indicator\" :", .number ((byteAt eit 1).toNat / 128 : Nat),
    .text ",\n\t\"service_id\" :", .number (hilo (byteAt eit 3).toNat (byteAt eit 4).toNat),
    .text ",\n\t\"current_next_indicator\" :", .number ((byteAt eit 5).toNat % 2 : Nat),
    .text ",\n\t\"version_number\" :", .number ((byteAt eit 5).toNat / 2 % 32 : Nat),
    .text ",\n\t\"section_number\" :", .number (byteAt eit 6).toNat,
    .text ",\n\t\"last_section_number\" :", .number (byteAt eit 7).toNat,
    .text ",\n\t\"transport_stream_id\" :",
    .number (hilo (byteAt eit 8).toNat (byteAt eit 9).toNat),
    .text ",\n\t\"original_network_id\" :",
    .number (hilo (byteAt eit 10).toNat (byteAt eit 11).toNat),
    .text ",\n\t\"segment_last_section_number\" :", .number (byteAt eit 12).toNat,
    .text ",\n\t\"segment_last_table_id\" :", .number (byteAt eit 13).toNat,
    .text ",\n\"EIT_events\":[\n"]

end printers

variable (env : Outside) (fullEit : MumudvbTsPacket)

def eitDisplayContents : Checked (List Part) := do
  let eit ← readBytes fullEit.dataFull.read 0 eitLen
  let events ← eventLoop env fullEit.dataFull fullEit.lenFull (fullEit.lenFull + 1) eitLen true
  return sectionParts fullEit.lenFull eit ++ (events ++ [.text "\n]\n"])

def unicastSendEITSection (num : Int) : Checked (List Part) := do
  let contents ← eitDisplayContents env fullEit
  return [.text "\n\x7b\n\t\"number\" : ", .number num, .text ",\n"] ++ contents ++
    [.text "\x7d"]

end MuMuDVB.EitPrinters
