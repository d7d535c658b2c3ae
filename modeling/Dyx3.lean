import Dyx3.Lib.Run
import Dyx3.Lib.Flt
import Dyx3.Lib.Scalar
import Dyx3.Lib.Pieces
import Dyx3.Geometry.Plane
import Dyx3.Geometry.Resample
import Dyx3.Rpp.Simplify
import Dyx3.Rpp.Conditioner
import Dyx3.Backend.AppPlan
import Dyx3.Backend.StoredRuns
import Dyx3.Backend.GatewayEvents
import Dyx3.Backend.GatewayRequests
import Dyx3.Rpp.DrawnRuns
import Dyx3.Rpp.Labels
import Dyx3.Rpp.Projection
import Dyx3.Spray.PathModel
import Dyx3.MotionGuard.Core
import Dyx3.MotionGuard.FailToZero
import Dyx3.Spray.Fsm
import Dyx3.Spray.OnDiscipline
import Dyx3.Spray.Watchdog
import Dyx3.Spray.WatchdogProof
import Dyx3.Spray.Params
import Dyx3.Spray.Controller
import Dyx3.Spray.Node
import Dyx3.Spray.SameOutput
import Dyx3.Px4Link.Commands
import Dyx3.Px4Link.AckTokens
import Dyx3.Px4Link.SprayTransactions
import Dyx3.Px4Link.SprayCases
import Dyx3.Px4Link.Barrier
import Dyx3.Px4Link.Books
import Dyx3.Px4Link.SprayWork
import Dyx3.Px4Link.SprayQueue
import Dyx3.Px4Link.Ledger
import Dyx3.Px4Link.Reassert
import Dyx3.Px4Link.Offboard
import Dyx3.Px4Link.Node
import Dyx3.Px4Link.ArmOffboard
import Dyx3.Px4Link.ArmAcks
import Dyx3.Mission.Px4Sequencer
import Dyx3.Mission.RequestDiscipline
import Dyx3.Mission.Fsm
import Dyx3.Mission.PointJournal
import Dyx3.Mission.Messages
import Dyx3.Mission.Node
import Dyx3.Mission.Callbacks
import Dyx3.Mission.Running
import Dyx3.Mission.Acknowledged
import Dyx3.Mission.EngageGate
import Dyx3.Lib.Framing
import Dyx3.Gateway.IpcServer
import Dyx3.Gateway.Node
import Dyx3.Gateway.OneReply
import Dyx3.Gateway.EventStream
import Dyx3.System.EventDelivery
import Dyx3.System.PlanPath
import Dyx3.System.PaintPlace
import Dyx3.System.SprayLoop
import Dyx3.System.Agreement
import Dyx3.System.ConfirmedOff
import Dyx3.System.ConfirmedOn
import Dyx3.System.OffProof
import Dyx3.Rpp.Guidance
import Dyx3.Rpp.StopPivot
import Dyx3.Rpp.Core
import Dyx3.Rpp.Holds
import Dyx3.Rpp.Tick
import Dyx3.Rpp.PivotStops
import Dyx3.Lib.Disk
import Dyx3.Px4Link.TokenFile
import Dyx3.Px4Link.TokenCrash
import Dyx3.Px4Link.RoverSetpoint
import Dyx3.System.MotionContract
import Dyx3.Mission.FsmInvariants
import Dyx3.Mission.Acts
import Dyx3.Mission.Admission
import Dyx3.Mission.ResumedPoints
import Dyx3.Mission.ProgressWriter
import Dyx3.Rpp.Params
import Dyx3.Rpp.MotionOutput
import Dyx3.Rpp.TickFrame
import Dyx3.Rpp.Node
import Dyx3.Rpp.DrivesMission
import Dyx3.Lib.Binary64
import Dyx3.Lib.Digits
import Dyx3.Lib.DoubleOrder
import Dyx3.Lib.Rounded
import Dyx3.Lib.FloatText
import Dyx3.Lib.Sequence
import Dyx3.Artifact.Numbers
import Dyx3.Lib.JsonText
import Dyx3.Lib.JsonReader
import Dyx3.Artifact.CanonicalJson
import Dyx3.Artifact.Sha256
import Dyx3.Artifact.Format
import Dyx3.Artifact.RoundTrip
import Dyx3.Artifact.PythonReader
import Dyx3.Artifact.MetaReader
import Dyx3.Artifact.FrameSpec
import Dyx3.Artifact.FramePlacement
import Dyx3.Lib.Scanner
import Dyx3.GnssRtk.RtcmParser
import Dyx3.Lib.Search
import Dyx3.GnssRtk.NtripClient
import Dyx3.Lib.SortedMap
import Dyx3.Lib.Checks
import Dyx3.GnssRtk.RtkConfig
import Dyx3.GnssRtk.RtkNode
import Dyx3.GnssRtk.Passwords
import Dyx3.GnssRtk.ConfigSwap
import Dyx3.Spray.Retry
import Dyx3.MotionGuard.StallLatch
import Dyx3.MotionGuard.Node
import Dyx3.Px4Link.CommandGate
import Dyx3.Rpp.ConfirmedStop
import Dyx3.Rpp.JoinedRuns
import Dyx3.Rpp.ErrorBound
import Dyx3.Rpp.Absorbed
import Dyx3.Rpp.CornerSplits
import Dyx3.Geometry.Samples
import Dyx3.Geometry.Resampled
import Dyx3.Spray.Decision
import Dyx3.Spray.Boundaries
import Dyx3.Spray.NextBoundary
import Dyx3.Spray.PastMark
import Dyx3.Rpp.AutoRuns
import Dyx3.Rpp.Gaps
import Dyx3.Rpp.MustHit
import Dyx3.Spray.FlowRange
import Dyx3.Rpp.ParamJournal
import Dyx3.Mission.JournalRecords
import Dyx3.Mission.MissedPoints
import Dyx3.Mission.ProgressFile
import Dyx3.Recorder.Provenance
import Dyx3.Gateway.Utf8
import Dyx3.Gateway.Json
import Dyx3.Gateway.JsonGrammar
import Dyx3.Gateway.JsonAccepted
import Dyx3.Gateway.JsonLine
import Dyx3.Artifact.Sha256Standard
import Dyx3.GnssRtk.Crc24q
import Dyx3.GnssRtk.RtcmTransport
import Dyx3.GnssRtk.OnePath
import Dyx3.GnssRtk.ConfigRanges
import Dyx3.GnssRtk.GgaPosition
import Dyx3.Artifact.CanonicalObject
import Dyx3.Rpp.SegmentReads
import Dyx3.Recorder.UlogFeed
import Dyx3.Recorder.HeaderVerdict
import Dyx3.Artifact.Conditioned
import Dyx3.Rpp.ConditionedStore
import Dyx3.Backend.PlanLimits
import Dyx3.System.Reconstructed
