import Dinit.Safety.Signals
import Dinit.Safety.Requirements
import Dinit.Safety.Consumers
import Dinit.Safety.Acyclic
import Dinit.Safety.Reload
import Dinit.Safety.WorkQueues
import Dinit.Safety.Ordering
import Dinit.Safety.Pins
import Dinit.Safety.Timers
import Dinit.Run.Flags
import Dinit.Safety.Chunks
import Dinit.Safety.Watches
import Dinit.Safety.Infos
import Dinit.Safety.Decoders
import Dinit.Safety.Listing
import Dinit.Safety.EnvTransfer
import Dinit.Safety.Outcome
import Dinit.Safety.Rejected
import Dinit.Safety.Handles
import Dinit.Safety.EnvLayers
import Dinit.Safety.EnvFile
import Dinit.Safety.Rlimit
import Dinit.Safety.RestartLimit
import Dinit.Safety.LogBuffer
import Dinit.Safety.LogStream
import Dinit.Safety.SettingValue
import Dinit.Safety.LoadPath
import Dinit.Safety.SettingSubst
import Dinit.Safety.Cpbuffer
import Dinit.Safety.InputStack
import Dinit.Safety.OutputStream
import Dinit.Safety.MonitorCommand
import Dinit.Safety.Cgroup
import Dinit.Safety.LinkTimes
import Dinit.Safety.ChildFds
import Dinit.Safety.CheckLoad
import Dinit.Safety.CheckCycle
import Dinit.Framework.Loop
import Dinit.Framework.Numeral
import Dinit.Safety.Timespec
import Dinit.Safety.Digits
import Dinit.Safety.ConsoleQueue
import Dinit.Safety.HashCount
import Dinit.Safety.CyclicDependency
import Dinit.Safety.Holding
import Dinit.Safety.BringDown
import Dinit.Safety.TimerRuns
import Dinit.Safety.TimerPeriod
import Dinit.Safety.Requests
import Dinit.Safety.SettingLines
import Dinit.Framework.Reports
import Dinit.Safety.SettingBounds
import Dinit.Safety.SettingReports
