import MuMuDVB.RewritePat
import MuMuDVB.RewriteSdt
import MuMuDVB.RewritePmt

/-!
# The header of a generated packet

The three rewriters copy the header of an incoming packet and write the pointer
field and the section at fixed offsets; `get_ts_packet` looks for the pointer
field behind the adaptation field that the header announces.
-/
namespace MuMuDVB.RewriteHeader

open CheckedMemory MuMuDVB.TsHeader MuMuDVB.Ts MuMuDVB.Channel MuMuDVB.TsReassembly
open MuMuDVB.RewriteSection MuMuDVB.RewritePat MuMuDVB.RewriteSdt MuMuDVB.RewritePmt

/-- A rewriter makes the packet from one that begins with `h`. -/
inductive Generated (h : List UInt8) : Packet → Prop where
  | pat {vars : RewriteParameters} {channel : MumudvbChannel} {buf : Packet} {st : RewriteState}
      (incoming : buf.cells = h)
      (success : patChannelRewrite vars channel buf = .ok (true, st)) :
      Generated h st.channel.generatedPat
  | sdt {vars : RewriteParameters} {channel : MumudvbChannel} {buf : Packet} {st : RewriteState}
      (incoming : buf.cells = h)
      (success : sdtChannelRewrite vars channel buf = .ok (true, st))
      (kept : st.channel.sdtRewriteSkip = false) : Generated h st.channel.generatedSdt
  | pmt {channel channel' : MumudvbChannel} (incoming : channel.originalPmt.cells.take 188 = h)
      (success : pmtChannelRewrite channel = .ok (true, channel')) :
      Generated h channel'.generatedPmt

variable {h : List UInt8} {p : Packet}

theorem generated_opened (hgen : Generated h p) :
    ∃ dest, Opened h dest ∧ closeSection dest = .ok p := by
  cases hgen with
  | pat incoming success => exact incoming ▸ patChannelRewrite_opened success
  | sdt incoming success kept => exact incoming ▸ sdtChannelRewrite_opened success kept
  | @pmt channel channel' incoming success =>
    obtain ⟨dest, hopen, hclose⟩ := pmtChannelRewrite_opened success
    have hbyte : ∀ i, i < 188 → byteAt channel.originalPmt.cells i = byteAt h i := by
      intro i hi
      rw [← incoming, byteAt_take hi]
    refine ⟨dest, { hopen with syncByte := ?_, scrambling := ?_, adaptationField := ?_ }, hclose⟩
    · rw [hopen.syncByte, hbyte 0 (by decide)]
    · rw [hopen.scrambling, transportScramblingControl, hbyte 3 (by decide)]
      rfl
    · rw [hopen.adaptationField, adaptationFieldControl, hbyte 3 (by decide)]
      rfl

/-- The decoder gets the section, and only it, exactly when the incoming header announces no
adaptation field. The section itself is always a valid one. -/
theorem generated_delivers_iff (hgen : Generated h p) : OnlySection (sectionOf p) ∧
    (Delivers p (sectionOf p) ↔ adaptationFieldControl h / 2 % 2 = 0) := by
  obtain ⟨dest, hopen, hclose⟩ := generated_opened hgen
  exact closeSection_opened hopen hclose

theorem patChannelRewrite_channelTwo (buf : Packet) :
    ∃ st, patChannelRewrite twoPrograms channelTwo buf = .ok (true, st) := by
  obtain ⟨st, -, hrun, -⟩ := @patChannelRewrite_spec channelTwo (by decide) twoPrograms buf
  exact ⟨st, hrun⟩

theorem generated_delivers_twoPrograms : ∃ p, Generated emptyPatPacket.cells p ∧
    OnlySection (sectionOf p) ∧
    (Delivers p (sectionOf p) ↔ adaptationFieldControl emptyPatPacket.cells / 2 % 2 = 0) := by
  obtain ⟨st, hrun⟩ := patChannelRewrite_channelTwo emptyPatPacket
  exact ⟨_, .pat rfl hrun, generated_delivers_iff (.pat rfl hrun)⟩

/-- A PAT packet with an adaptation field of one byte. -/
def adaptationPacket : Packet :=
  ⟨[0x47, 0x40, 0x00, 0x33, 0x01, 0x00, 0x00] ++ pad 181 emptyPat, by decide +kernel⟩

theorem not_delivers_adaptationPacket :
    ∃ st, patChannelRewrite twoPrograms channelTwo adaptationPacket = .ok (true, st) ∧
      ¬ Delivers st.channel.generatedPat (sectionOf st.channel.generatedPat) := by
  obtain ⟨st, hrun⟩ := patChannelRewrite_channelTwo adaptationPacket
  obtain ⟨dest, hopen, hclose⟩ := patChannelRewrite_opened hrun
  refine ⟨st, hrun, fun hdeliver => ?_⟩
  have hnone := (closeSection_opened hopen hclose).2.mp hdeliver
  exact absurd hnone (by decide +kernel)

end MuMuDVB.RewriteHeader
