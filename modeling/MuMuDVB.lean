import MuMuDVB.TsReassembly
import MuMuDVB.RewriteHeader
import MuMuDVB.PmtRuns
import MuMuDVB.SdtRuns
import MuMuDVB.Interference
import MuMuDVB.UnicastSend
import MuMuDVB.QueueRequests
import MuMuDVB.QueueFailure
import MuMuDVB.FdEvents
import MuMuDVB.HttpReply
import MuMuDVB.JsonText
import MuMuDVB.PmtParts
import MuMuDVB.SdtBounds
import MuMuDVB.EitUnique
import MuMuDVB.PmtReads
import MuMuDVB.PmtPidList
import MuMuDVB.NitNumbers
import MuMuDVB.PmtCopies
import MuMuDVB.PmtFilter
import MuMuDVB.ChannelListJs
import MuMuDVB.TsBegin
import MuMuDVB.TsBeginBounds
import MuMuDVB.TsDuplicates
import MuMuDVB.TsReports
import MuMuDVB.TsCapacity
import MuMuDVB.EitRotation
import MuMuDVB.EitStore
import MuMuDVB.CardThread
import MuMuDVB.T2miOutput
import MuMuDVB.T2miRoundTrip
import MuMuDVB.T2miPlp
import MuMuDVB.T2miField
import MuMuDVB.DescriptorWalks
import MuMuDVB.PatStore
import MuMuDVB.TsOpaque
import MuMuDVB.TableCounters
import MuMuDVB.UnicastSplit
import MuMuDVB.UnicastRuns
import MuMuDVB.SdtSkips
import MuMuDVB.OutputFrames
import MuMuDVB.PmtDownload
import MuMuDVB.PidFilters
import MuMuDVB.CatCollection
import MuMuDVB.TableVersions
import MuMuDVB.RemovedServices
import MuMuDVB.PidLists
import MuMuDVB.ScamBatches
import MuMuDVB.Hls
import MuMuDVB.StringRewriting
import MuMuDVB.NameTemplate
import MuMuDVB.CamdSockets
import MuMuDVB.CapmtMessage
import MuMuDVB.SapAnnounces
import MuMuDVB.ScamPmt
import MuMuDVB.ConfigChannels
import MuMuDVB.StringReplace
import MuMuDVB.StringComput
import MuMuDVB.JsonEscape
import MuMuDVB.HlsIframe
import MuMuDVB.HlsArray
import MuMuDVB.HlsMaster
import MuMuDVB.HlsMasterRuns
import MuMuDVB.HlsStreams
import MuMuDVB.SdtReading
import MuMuDVB.SdtReads
import MuMuDVB.RingSizes
import MuMuDVB.JsonBounds
import MuMuDVB.TextConversion
import MuMuDVB.CamEnquiries
import MuMuDVB.CamdMessages
import MuMuDVB.StaticKeys
import MuMuDVB.VctReading
import MuMuDVB.EitDocument
import MuMuDVB.EitDelivery
import MuMuDVB.MonitorTimeout
import MuMuDVB.DataPath
import MuMuDVB.CamThread
import MuMuDVB.Playlists
import MuMuDVB.ConverterTuning
import MuMuDVB.JsonFormats
import MuMuDVB.EitPage
import MuMuDVB.UnicastMemory
import MuMuDVB.HlsStorage
