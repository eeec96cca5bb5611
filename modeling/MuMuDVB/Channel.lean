import MuMuDVB.Ts

/-!
# Channels and rewrite parameters

The parts of `mumudvb_channel_t` and `rewrite_parameters_t` that the rewriters
and the loop over the channels read or write. Arrays embedded in the
structures keep their sizes; a version is an integer because −1 stands for none.
-/
namespace MuMuDVB.Channel

open CheckedMemory MuMuDVB.TsHeader MuMuDVB.Ts

inductive OptionStatus where
  | undefined | off | on
  deriving DecidableEq, Repr

/-- The value of the enumeration, for the places that test it as a boolean. -/
def OptionStatus.toNat : OptionStatus → Nat
  | .undefined => 0
  | .off => 1
  | .on => 2

inductive ChanStatus where
  | removed | noStreaming | notReady | almostReady | ready | readyExisting
  deriving DecidableEq, Repr

/-- `channel_ready >= READY`. -/
def ChanStatus.isReady : ChanStatus → Bool
  | .ready => true
  | .readyExisting => true
  | _ => false

/-- Room for ten packets. -/
@[simp] abbrev originalPmtSize : Nat := 1880

structure MumudvbChannel where
  channelReady : ChanStatus
  /-- `pid_i.pids[0 .. num_pids)` -/
  pids : List Int
  pmtPid : Int
  serviceId : Int
  generatedPmt : Packet
  pmtRewrite : Int
  pmtPartNum : Nat
  pmtPartCount : Nat
  originalPmt : Buffer UInt8 originalPmtSize
  originalPmtReady : Bool
  generatedPmtVersion : Int
  pmtContinuityCounter : Nat
  generatedPat : Packet
  generatedPatVersion : Int
  generatedSdt : Packet
  generatedSdtVersion : Int
  sdtRewriteSkip : Bool
  eitSectionToSend : Nat
  eitTableIdToSend : UInt8
  eitCc : Nat
  /-- packets go to the ring buffer of the descrambler -/
  scamSupportStarted : Bool

/-- A packet of zero bytes. -/
def zeroPacket : Packet := Buffer.fill _ 0

/-- The channel after `memset` to zero. -/
def zeroedChannel : MumudvbChannel where
  channelReady := .almostReady
  pids := []
  pmtPid := 0
  serviceId := 0
  generatedPmt := zeroPacket
  pmtRewrite := 0
  pmtPartNum := 0
  pmtPartCount := 0
  originalPmt := Buffer.fill _ 0
  originalPmtReady := false
  generatedPmtVersion := 0
  pmtContinuityCounter := 0
  generatedPat := zeroPacket
  generatedPatVersion := 0
  generatedSdt := zeroPacket
  generatedSdtVersion := 0
  sdtRewriteSkip := false
  eitSectionToSend := 0
  eitTableIdToSend := 0
  eitCc := 0
  scamSupportStarted := false

/-- `mumu_init_chan`. -/
def mumuInitChan (chan : MumudvbChannel) : MumudvbChannel :=
  { chan with generatedPatVersion := -1, generatedSdtVersion := -1 }

/-- One stored EIT: a service and a table, with its sections. -/
structure EitPacket where
  serviceId : Nat
  tableId : UInt8
  lastSectionNumber : Nat
  /-- `sections_stored[i]`, with the section in `full_eit_sections[i]` -/
  sections : Buffer (Option MumudvbTsPacket) 256
  fullEitOk : Bool

structure RewriteParameters where
  rewritePmt : OptionStatus
  rewritePat : OptionStatus
  patVersion : Int
  patNeedsUpdate : Bool
  fullPatOk : Bool
  fullPat : MumudvbTsPacket
  patContinuityCounter : Nat
  rewriteSdt : OptionStatus
  sdtVersion : Int
  sdtNeedsUpdate : Bool
  sdtNeedOthers : Bool
  sdtLastSectionNumber : Nat
  sdtSectionNumbersSeen : Buffer Bool 256
  fullSdtOk : Bool
  fullSdt : MumudvbTsPacket
  sdtContinuityCounter : Nat
  sdtForceEit : OptionStatus
  rewriteEit : OptionStatus
  eitPackets : List EitPacket

/-- `init_rewr_v` and, for the packets, `rewrite_init`. -/
def initRewrV : RewriteParameters where
  rewritePmt := .undefined
  rewritePat := .undefined
  patVersion := -1
  patNeedsUpdate := true
  fullPatOk := false
  fullPat := zeroed
  patContinuityCounter := 0
  rewriteSdt := .undefined
  sdtVersion := -1
  sdtNeedsUpdate := true
  sdtNeedOthers := false
  sdtLastSectionNumber := 0
  sdtSectionNumbersSeen := Buffer.fill _ false
  fullSdtOk := false
  fullSdt := zeroed
  sdtContinuityCounter := 0
  sdtForceEit := .undefined
  rewriteEit := .undefined
  eitPackets := []

/-- What a rewriter changes in place. -/
structure RewriteState where
  vars : RewriteParameters
  channel : MumudvbChannel
  buf : Packet

end MuMuDVB.Channel
