import MuMuDVB.CheckedMemory
import MuMuDVB.TableCrc

/-!
# Transport stream packets, section headers and the CRC-32

The structures of `ts.h` are mapped onto bytes: `ts_header_t` onto the first
bytes of a packet, `tbl_h_t` (and `pat_t`, `sdt_t`, `pmt_t`, which share its
eight bytes) onto a section. A bit-field is read by the division that selects
its bits and written by the mask that replaces them.
-/
namespace MuMuDVB.TsHeader

open CheckedMemory

set_option maxRecDepth 20000

/-- Size of an MPEG2-TS packet. -/
@[simp] abbrev tsPacketSize : Nat := 188
/-- The 4-byte TS header and the pointer field. -/
@[simp] abbrev tsHeaderLen : Nat := 5
/-- The bytes before the end of the section length field. -/
@[simp] abbrev bytesBfrSecLen : Nat := 3
/-- The maximum size of a section. -/
@[simp] abbrev maxTsSize : Nat := 4096

abbrev Packet := Buffer UInt8 tsPacketSize

def byteAt (xs : List UInt8) (i : Nat) : UInt8 := xs.getD i 0

/-- `HILO(x)`: `x_hi << 8 | x_lo`, the two fields being disjoint. -/
def hilo (hi lo : Nat) : Nat := hi * 256 + lo

section tsHeader

variable (h : List UInt8)

def payloadUnitStartIndicator : Bool := (byteAt h 1).toNat / 64 % 2 == 1
def pid : Nat := hilo ((byteAt h 1).toNat % 32) (byteAt h 2).toNat
def transportScramblingControl : Nat := (byteAt h 3).toNat / 64
def adaptationFieldControl : Nat := (byteAt h 3).toNat / 16 % 4
def continuityCounter : Nat := (byteAt h 3).toNat % 16

/-- `ts_header->payload_unit_start_indicator=1`. -/
def setPayloadUnitStart : List UInt8 := h.set 1 (byteAt h 1 ||| 0x40)

/-- `ts_header->continuity_counter=cc`: the field keeps the low four bits. -/
def setContinuityCounter (cc : Nat) : List UInt8 :=
  h.set 3 ((byteAt h 3 &&& 0xf0) ||| UInt8.ofNat (cc % 16))

end tsHeader

section tableHeader

variable (s : List UInt8)

def tableId : UInt8 := byteAt s 0
def sectionLength : Nat := hilo ((byteAt s 1).toNat % 16) (byteAt s 2).toNat
def versionNumber : Nat := (byteAt s 5).toNat / 2 % 32
def currentNextIndicator : Nat := (byteAt s 5).toNat % 2
def sectionNumber : Nat := (byteAt s 6).toNat
def lastSectionNumber : Nat := (byteAt s 7).toNat

/-- The three header fields the rewriters overwrite: applicable, section 0 of 0. -/
def makeOnlySection : List UInt8 :=
  ((s.set 5 (byteAt s 5 ||| 0x01)).set 6 0).set 7 0

end tableHeader

theorem hilo_lt {hi lo k : Nat} (hhi : hi < k) (hlo : lo < 256) : hilo hi lo < k * 256 := by
  unfold hilo
  have := Nat.mul_le_mul_right 256 hhi
  omega

theorem sectionLength_lt (s : List UInt8) : sectionLength s < 4096 :=
  hilo_lt (Nat.mod_lt _ (by decide)) (byteAt s 2).toNat_lt

theorem byteAt_take {xs : List UInt8} {i k : Nat} (h : i < k) :
    byteAt (xs.take k) i = byteAt xs i := by
  simp [byteAt, h]

theorem byteAt_append_left {xs ys : List UInt8} {i : Nat} (h : i < xs.length) :
    byteAt (xs ++ ys) i = byteAt xs i := by
  simp [byteAt, List.getElem?_append_left h]

/-- The section length depends on the first three bytes only. -/
theorem sectionLength_take {xs : List UInt8} {k : Nat} (h : 3 ≤ k) :
    sectionLength (xs.take k) = sectionLength xs := by
  simp only [sectionLength, byteAt_take (show 1 < k by omega), byteAt_take (show 2 < k by omega)]

theorem sectionLength_append {xs ys : List UInt8} (h : 3 ≤ xs.length) :
    sectionLength (xs ++ ys) = sectionLength xs := by
  simp only [sectionLength, byteAt_append_left (show 1 < xs.length by omega),
    byteAt_append_left (show 2 < xs.length by omega)]

def crc32Table : List (BitVec 32) := [
  0x00000000, 0x04c11db7, 0x09823b6e, 0x0d4326d9, 0x130476dc, 0x17c56b6b, 0x1a864db2, 0x1e475005,
  0x2608edb8, 0x22c9f00f, 0x2f8ad6d6, 0x2b4bcb61, 0x350c9b64, 0x31cd86d3, 0x3c8ea00a, 0x384fbdbd,
  0x4c11db70, 0x48d0c6c7, 0x4593e01e, 0x4152fda9, 0x5f15adac, 0x5bd4b01b, 0x569796c2, 0x52568b75,
  0x6a1936c8, 0x6ed82b7f, 0x639b0da6, 0x675a1011, 0x791d4014, 0x7ddc5da3, 0x709f7b7a, 0x745e66cd,
  0x9823b6e0, 0x9ce2ab57, 0x91a18d8e, 0x95609039, 0x8b27c03c, 0x8fe6dd8b, 0x82a5fb52, 0x8664e6e5,
  0xbe2b5b58, 0xbaea46ef, 0xb7a96036, 0xb3687d81, 0xad2f2d84, 0xa9ee3033, 0xa4ad16ea, 0xa06c0b5d,
  0xd4326d90, 0xd0f37027, 0xddb056fe, 0xd9714b49, 0xc7361b4c, 0xc3f706fb, 0xceb42022, 0xca753d95,
  0xf23a8028, 0xf6fb9d9f, 0xfbb8bb46, 0xff79a6f1, 0xe13ef6f4, 0xe5ffeb43, 0xe8bccd9a, 0xec7dd02d,
  0x34867077, 0x30476dc0, 0x3d044b19, 0x39c556ae, 0x278206ab, 0x23431b1c, 0x2e003dc5, 0x2ac12072,
  0x128e9dcf, 0x164f8078, 0x1b0ca6a1, 0x1fcdbb16, 0x018aeb13, 0x054bf6a4, 0x0808d07d, 0x0cc9cdca,
  0x7897ab07, 0x7c56b6b0, 0x71159069, 0x75d48dde, 0x6b93dddb, 0x6f52c06c, 0x6211e6b5, 0x66d0fb02,
  0x5e9f46bf, 0x5a5e5b08, 0x571d7dd1, 0x53dc6066, 0x4d9b3063, 0x495a2dd4, 0x44190b0d, 0x40d816ba,
  0xaca5c697, 0xa864db20, 0xa527fdf9, 0xa1e6e04e, 0xbfa1b04b, 0xbb60adfc, 0xb6238b25, 0xb2e29692,
  0x8aad2b2f, 0x8e6c3698, 0x832f1041, 0x87ee0df6, 0x99a95df3, 0x9d684044, 0x902b669d, 0x94ea7b2a,
  0xe0b41de7, 0xe4750050, 0xe9362689, 0xedf73b3e, 0xf3b06b3b, 0xf771768c, 0xfa325055, 0xfef34de2,
  0xc6bcf05f, 0xc27dede8, 0xcf3ecb31, 0xcbffd686, 0xd5b88683, 0xd1799b34, 0xdc3abded, 0xd8fba05a,
  0x690ce0ee, 0x6dcdfd59, 0x608edb80, 0x644fc637, 0x7a089632, 0x7ec98b85, 0x738aad5c, 0x774bb0eb,
  0x4f040d56, 0x4bc510e1, 0x46863638, 0x42472b8f, 0x5c007b8a, 0x58c1663d, 0x558240e4, 0x51435d53,
  0x251d3b9e, 0x21dc2629, 0x2c9f00f0, 0x285e1d47, 0x36194d42, 0x32d850f5, 0x3f9b762c, 0x3b5a6b9b,
  0x0315d626, 0x07d4cb91, 0x0a97ed48, 0x0e56f0ff, 0x1011a0fa, 0x14d0bd4d, 0x19939b94, 0x1d528623,
  0xf12f560e, 0xf5ee4bb9, 0xf8ad6d60, 0xfc6c70d7, 0xe22b20d2, 0xe6ea3d65, 0xeba91bbc, 0xef68060b,
  0xd727bbb6, 0xd3e6a601, 0xdea580d8, 0xda649d6f, 0xc423cd6a, 0xc0e2d0dd, 0xcda1f604, 0xc960ebb3,
  0xbd3e8d7e, 0xb9ff90c9, 0xb4bcb610, 0xb07daba7, 0xae3afba2, 0xaafbe615, 0xa7b8c0cc, 0xa379dd7b,
  0x9b3660c6, 0x9ff77d71, 0x92b45ba8, 0x9675461f, 0x8832161a, 0x8cf30bad, 0x81b02d74, 0x857130c3,
  0x5d8a9099, 0x594b8d2e, 0x5408abf7, 0x50c9b640, 0x4e8ee645, 0x4a4ffbf2, 0x470cdd2b, 0x43cdc09c,
  0x7b827d21, 0x7f436096, 0x7200464f, 0x76c15bf8, 0x68860bfd, 0x6c47164a, 0x61043093, 0x65c52d24,
  0x119b4be9, 0x155a565e, 0x18197087, 0x1cd86d30, 0x029f3d35, 0x065e2082, 0x0b1d065b, 0x0fdc1bec,
  0x3793a651, 0x3352bbe6, 0x3e119d3f, 0x3ad08088, 0x2497d08d, 0x2056cd3a, 0x2d15ebe3, 0x29d4f654,
  0xc5a92679, 0xc1683bce, 0xcc2b1d17, 0xc8ea00a0, 0xd6ad50a5, 0xd26c4d12, 0xdf2f6bcb, 0xdbee767c,
  0xe3a1cbc1, 0xe760d676, 0xea23f0af, 0xeee2ed18, 0xf0a5bd1d, 0xf464a0aa, 0xf9278673, 0xfde69bc4,
  0x89b8fd09, 0x8d79e0be, 0x803ac667, 0x84fbdbd0, 0x9abc8bd5, 0x9e7d9662, 0x933eb0bb, 0x97ffad0c,
  0xafb010b1, 0xab710d06, 0xa6322bdf, 0xa2f33668, 0xbcb4666d, 0xb8757bda, 0xb5365d03, 0xb1f740b4]

def crc32Word (i : BitVec 8) : BitVec 32 := crc32Table.getD i.toNat 0

theorem crc32Word_zero : crc32Word 0 = 0 := rfl

theorem crc32Word_low : TableCrc.LowBytes crc32Word := by
  have hall : (List.range 256).all (fun i => i == 0 ||
      (crc32Word (BitVec.ofNat 8 i)).setWidth 8 != 0#8) = true := by decide +kernel
  intro i hi
  have := List.all_eq_true.mp hall i.toNat (List.mem_range.mpr i.isLt)
  rw [BitVec.ofNat_toNat, BitVec.setWidth_eq, hi] at this
  simpa [BitVec.toNat_eq] using this

/-- The loop of `ts_check_raw_crc32` on a 32-bit register, from all ones. -/
def crc32 (bytes : List UInt8) : BitVec 32 :=
  TableCrc.remainder crc32Word (BitVec.allOnes 32) bytes

/-- The loops of the rewriters, on an `unsigned long` that starts as 0xffffffff. -/
def crc32Long (bytes : List UInt8) : BitVec 64 :=
  TableCrc.remainder crc32Word 0xffffffff bytes

theorem crc32Long_setWidth (bytes : List UInt8) : (crc32Long bytes).setWidth 32 = crc32 bytes :=
  TableCrc.remainder_setWidth _ (by decide) bytes

/-- The four bytes a rewriter appends make the remainder of the section zero. -/
theorem crc32_append_crc32Long (bytes : List UInt8) :
    crc32 (bytes ++ TableCrc.bytes (crc32Long bytes)) = 0 := by
  rw [crc32, TableCrc.remainder_append, ← TableCrc.bytes_setWidth, crc32Long_setWidth]
  exact TableCrc.remainder_append_bytes crc32Word_zero _

end MuMuDVB.TsHeader
