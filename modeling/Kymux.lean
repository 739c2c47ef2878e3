import Kymux.Lib.BigEndian
import Kymux.Lib.Checked
import Kymux.Lib.EventLoop
import Kymux.Lib.Expiry
import Kymux.Lib.Framing
import Kymux.Lib.Generations
import Kymux.Lib.Governed
import Kymux.Lib.I64
import Kymux.Lib.Interleave
import Kymux.Lib.Keyed
import Kymux.Lib.Ledger
import Kymux.Lib.Machine
import Kymux.Lib.MessagePack
import Kymux.Lib.Probe
import Kymux.Lib.Sized
import Kymux.Lib.Slots
import Kymux.Lib.SortedKeys
import Kymux.Lib.Timed
import Kymux.Lib.Unroll
import Kymux.Lib.Utf8
import Kymux.Types.Av
import Kymux.Types.AvFormat
import Kymux.Types.AvStream
import Kymux.Types.Data
import Kymux.Types.Input
import Kymux.Auth
import Kymux.AuthHandshake
import Kymux.CancelSafe
import Kymux.CancelSafeRecv
import Kymux.ClockSync
import Kymux.ClockSyncBounds
import Kymux.ClockSyncMatching
import Kymux.Connection
import Kymux.ConnectionKnown
import Kymux.ConnectionSteps
import Kymux.Control
import Kymux.ControlAgreement
import Kymux.ControlAwaits
import Kymux.ControlHeard
import Kymux.ControlIds
import Kymux.ControlReady
import Kymux.ControlRegister
import Kymux.ControlRejects
import Kymux.ControlWire
import Kymux.ControlWireRefines
import Kymux.ControlWrap
import Kymux.Fec
import Kymux.FecChecked
import Kymux.FecObject
import Kymux.FecOrderly
import Kymux.FecPackets
import Kymux.FecPartition
import Kymux.Hex
import Kymux.HexExact
import Kymux.Kycom
import Kymux.KycomIpc
import Kymux.KycomIpcAgreement
import Kymux.KycomIpcSteps
import Kymux.KycomMatching
import Kymux.Partition
import Kymux.RaptorQ
import Kymux.Router
import Kymux.RouterDelivery
import Kymux.RouterIsolation
import Kymux.RouterKnown
import Kymux.RouterSteps
import Kymux.Seq
import Kymux.SeqChecked
import Kymux.SourceFirst
import Kymux.SourceFirstSend
import Kymux.SourceFirstSymbols
import Kymux.WebTransportJs
import Kymux.Driver.Audio
import Kymux.Driver.AudioDelivery
import Kymux.Driver.AudioFec
import Kymux.Driver.AudioFecChecked
import Kymux.Driver.AudioFecHoles
import Kymux.Driver.AudioFecOrder
import Kymux.Driver.AudioFecRun
import Kymux.Driver.AudioFecTrace
import Kymux.Driver.AudioFecValid
import Kymux.Driver.AudioHonest
import Kymux.Driver.FecFormat
import Kymux.Driver.FecRepair
import Kymux.Driver.GopStream
import Kymux.Driver.GopStreamPlayer
import Kymux.Driver.GopStreamRead
import Kymux.Driver.GopStreamRecv
import Kymux.Driver.GopStreamRefines
import Kymux.Driver.GopStreamRun
import Kymux.Driver.GopStreamSent
import Kymux.Driver.GopStreamTrace
import Kymux.Driver.Groups
import Kymux.Driver.Honest
import Kymux.Driver.HonestArrivals
import Kymux.Driver.Idle
import Kymux.Driver.InSequence
import Kymux.Driver.InTurn
import Kymux.Driver.Law
import Kymux.Driver.Pending
import Kymux.Driver.PendingSteps
import Kymux.Driver.PendingWeight
import Kymux.Driver.Plain
import Kymux.Driver.PlainParts
import Kymux.Driver.PlainQuiescent
import Kymux.Driver.PlainSegments
import Kymux.Driver.Process
import Kymux.Driver.Quiescent
import Kymux.Driver.Receiver
import Kymux.Driver.Send
import Kymux.Driver.SendSeq
import Kymux.Driver.Sent
import Kymux.Driver.Video
import Kymux.Driver.VideoDelivery
import Kymux.Driver.VideoFec
import Kymux.Driver.VideoFecAccepted
import Kymux.Driver.VideoFecAccounting
import Kymux.Driver.VideoFecChecked
import Kymux.Driver.VideoFecCollect
import Kymux.Driver.VideoFecConfig
import Kymux.Driver.VideoFecDelivery
import Kymux.Driver.VideoFecHonest
import Kymux.Driver.VideoFecLedger
import Kymux.Driver.VideoFecLossless
import Kymux.Driver.VideoFecMonotone
import Kymux.Driver.VideoFecOrder
import Kymux.Driver.VideoFecOrderly
import Kymux.Driver.VideoFecProcess
import Kymux.Driver.VideoFecRoom
import Kymux.Driver.VideoFecRun
import Kymux.Driver.VideoFecStale
import Kymux.Driver.VideoFecStats
import Kymux.Driver.VideoFecSteps
import Kymux.Driver.VideoFecTrace
import Kymux.Driver.VideoFecTransparent
import Kymux.Driver.VideoFecTurns
import Kymux.Driver.VideoFecValid
import Kymux.Driver.VideoHonest
import Kymux.Driver.Wire
