import Calandria.Action
import Calandria.Agenda
import Calandria.Atomicity
import Calandria.Balance
import Calandria.Batch
import Calandria.BinarySearch
import Calandria.Budget
import Calandria.CausalLog
import Calandria.CausalTrace
import Calandria.Checks
import Calandria.ChecksumReceipts
import Calandria.ChecksumService
import Calandria.Completion
import Calandria.CompletionWake
import Calandria.Context
import Calandria.DutyHistory
import Calandria.Entropy
import Calandria.EventSystem
import Calandria.FifoOrder
import Calandria.Finality
import Calandria.FixedVector
import Calandria.FramedEcho
import Calandria.FramedReactor
import Calandria.FramedReadiness
import Calandria.FramedSession
import Calandria.Framing
import Calandria.GroupAdmission
import Calandria.GroupStartup
import Calandria.GroupSupervisor
import Calandria.GroupTermination
import Calandria.Grouping
import Calandria.Host
import Calandria.HostLifecycle
import Calandria.Interest
import Calandria.Kernel
import Calandria.KernelRefinement
import Calandria.Ledger
import Calandria.Mailbox
import Calandria.MailboxDrain
import Calandria.MailboxPressure
import Calandria.Matching
import Calandria.MioPoller
import Calandria.MioTranslation
import Calandria.ModelRefinement
import Calandria.MonitorAudit
import Calandria.OrderedMap
import Calandria.Parking
import Calandria.PriorityQueue
import Calandria.Quiescence
import Calandria.Reactor
import Calandria.ReactorReport
import Calandria.ReactorThread
import Calandria.ReadySets
import Calandria.Replay
import Calandria.ReplayCompleteness
import Calandria.ReplaySoundness
import Calandria.Resource
import Calandria.ResourceHistory
import Calandria.ResourceReference
import Calandria.ResourceRefinement
import Calandria.Rotation
import Calandria.RoundRobin
import Calandria.RunBound
import Calandria.Scaling
import Calandria.Script
import Calandria.Seeded
import Calandria.ServiceBound
import Calandria.Shutdown
import Calandria.ShutdownAgreement
import Calandria.Simulation
import Calandria.StartGate
import Calandria.StartupOwnership
import Calandria.StartupProgress
import Calandria.SupervisorExit
import Calandria.SupervisorJoins
import Calandria.Time
import Calandria.Timeline
import Calandria.TimelineSchedule
import Calandria.TimerDrain
import Calandria.TimerQueue
import Calandria.TimerSchedule
import Calandria.Transaction
import Calandria.TransitionSystem
import Calandria.VirtualTime
import Calandria.Wake
import Calandria.WakeLinearization
import Calandria.WellFormed
import Calandria.Words
