import Net77.Http.StringMode
import Net77.Http.Builders
import Net77.Http.Completion
import Net77.Http.SessionLifecycle
import Net77.Http.MessageBounds
import Net77.Http.FieldArray
import Net77.Http.StringModeBounds
import Net77.Http.ParserMemory
import Net77.Http.Acceptance
import Net77.Http.StartLines
import Net77.Http.ContentLength
import Net77.Http.ControllerLimit
import Net77.BuilderRuns
import Net77.SocketOwnership
import Net77.McfssRefinement
import Net77.Admission
import Net77.LostWakeups
import Net77.JobPlaces
import Net77.PoolShutdown
import Net77.PoolOverlap
import Net77.LostSignals
import Net77.JobProgress
import Net77.PoolTermination
import Net77.ServerTermination
import Net77.SendAll
import Net77.SizeLimit
import Net77.WaitThenReceive
import Net77.LinkedList
import Net77.Http.ControllerReads
import Net77.Http.ExchangeRuns
import Net77.Http.OneShot
import Net77.Http.ReceiveThenParse
import Net77.Handover
import Net77.Http.MessageTransfer
import Net77.Http.HostCheck
import Net77.Http.ClientRuns
