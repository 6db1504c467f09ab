import StudiesOS.Transition.Run
import StudiesOS.Transition.Variant
import StudiesOS.Transition.Channel
import StudiesOS.Transition.Mutex
import StudiesOS.Transition.Family
import StudiesOS.Transition.Lineage
import StudiesOS.Transition.Registry
import StudiesOS.Transition.History
import StudiesOS.Transition.WorkPool
import StudiesOS.Transition.Accounts
import StudiesOS.CText.Basic
import StudiesOS.CText.Numeral
import StudiesOS.CText.Split
import StudiesOS.CText.Framing
import StudiesOS.CText.Memory
import StudiesOS.CText.Checked
import StudiesOS.CMemory.Words
import StudiesOS.CMemory.Links
import StudiesOS.CMemory.Ownership
import StudiesOS.CMemory.Exchange
import StudiesOS.ProcessTable.Kernel
import StudiesOS.ProcessTable.Transitions
import StudiesOS.ProcessTable.Control
import StudiesOS.ProcessTable.Pids
import StudiesOS.ProcessTable.LifeCycle
import StudiesOS.ProcessTable.Queries
import StudiesOS.ProcessTable.Sections
import StudiesOS.ProcessTable.Fairness
import StudiesOS.ProcessTable.Kill
import StudiesOS.ProcessTable.Running
import StudiesOS.ProcessTable.Parents
import StudiesOS.ProcessTable.Children
import StudiesOS.ProcessTable.Accounts
import StudiesOS.ProcessTable.Waiting
import StudiesOS.ProcessTable.Sleepers
import StudiesOS.ProcessTable.Switches
import StudiesOS.ProcessTable.Ps
import StudiesOS.ProcessTable.Listing
import StudiesOS.ProcessTable.Rows
import StudiesOS.ProcessTable.Cleared
import StudiesOS.ProcessTable.Sizes
import StudiesOS.ProcessTable.Leftovers
import StudiesOS.ProcessTable.FailedFork
import StudiesOS.ProcessTable.SystemCalls
import StudiesOS.ProcessTable.Growth
import StudiesOS.ProcessTable.Clock
import StudiesOS.ProcessTable.Frames
import StudiesOS.ProcessTable.Ticks
import StudiesOS.ProcessTable.TwoLocks
import StudiesOS.ProcessTable.SysSleep
import StudiesOS.JobDispatcher.Commands
import StudiesOS.JobDispatcher.Jobs
import StudiesOS.JobDispatcher.Lines
import StudiesOS.JobDispatcher.Machine
import StudiesOS.JobDispatcher.Arguments
import StudiesOS.JobDispatcher.Sleeps
import StudiesOS.JobDispatcher.Queue
import StudiesOS.JobDispatcher.Transitions
import StudiesOS.JobDispatcher.Locks
import StudiesOS.JobDispatcher.Pool
import StudiesOS.JobDispatcher.Control
import StudiesOS.JobDispatcher.ExactlyOnce
import StudiesOS.JobDispatcher.Memory
import StudiesOS.JobDispatcher.Blocks
import StudiesOS.JobDispatcher.MemorySafety
import StudiesOS.JobDispatcher.Turnarounds
import StudiesOS.JobDispatcher.Barrier
import StudiesOS.JobDispatcher.Counters
import StudiesOS.JobDispatcher.Programs
import StudiesOS.JobDispatcher.Totals
import StudiesOS.JobDispatcher.Statistics
import StudiesOS.JobDispatcher.Wakeups
import StudiesOS.JobDispatcher.Termination
import StudiesOS.ChatServer.Server
import StudiesOS.ChatServer.Table
import StudiesOS.ChatServer.Bounds
import StudiesOS.ChatServer.Framing
import StudiesOS.ChatServer.Privacy
import StudiesOS.ChatServer.Registration
import StudiesOS.ChatServer.Rounds
import StudiesOS.ChatServer.Process
import StudiesOS.ChatServer.Routing
import StudiesOS.ChatServer.Addressing
import StudiesOS.ChatServer.Attribution
import StudiesOS.ChatServer.Formatting
import StudiesOS.ChatServer.Traffic
import StudiesOS.ChatServer.Conversation
import StudiesOS.ChatClient.Client
import StudiesOS.ChatClient.Relay
import StudiesOS.ChatClient.ExitLine
import StudiesOS.ChatClient.Screen
import StudiesOS.ChatSystem.System
import StudiesOS.ChatSystem.Delivery
