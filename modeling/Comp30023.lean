import Comp30023.Library.Loop
import Comp30023.Library.Spans
import Comp30023.Library.MaximalRuns
import Comp30023.Library.Levels
import Comp30023.Library.Links
import Comp30023.Library.Heap
import Comp30023.Library.Spines
import Comp30023.Library.Chunks
import Comp30023.Library.Outcome
import Comp30023.Library.Threads
import Comp30023.Library.Mutexes
import Comp30023.Library.Lines
import Comp30023.Library.Words
import Comp30023.Library.Slices
import Comp30023.Model.MemoryManagement
import Comp30023.Model.LinkedFreeList
import Comp30023.Model.LinkedMemory
import Comp30023.Model.ProcessScheduler
import Comp30023.Model.LinkedScheduler
import Comp30023.Model.MachineInt
import Comp30023.Model.CLibrary
import Comp30023.Model.ProcessDataFileParser
import Comp30023.Model.MessageHelpers
import Comp30023.Model.MessageCalls
import Comp30023.Model.SecretCode
import Comp30023.Model.Server
import Comp30023.Model.AcceptLoop
import Comp30023.Model.SignalHandler
import Comp30023.Model.Client
import Comp30023.Model.LinkedList
import Comp30023.Model.MyShell
import Comp30023.Model.ShellLoop
import Comp30023.Model.ProducerConsumer
import Comp30023.Model.BusyWaiting
import Comp30023.Interface.MemoryLayout
import Comp30023.Interface.MemoryNodes
import Comp30023.Interface.RunnerNodes
import Comp30023.Interface.EvictionOrder
import Comp30023.Interface.TickScheduler
import Comp30023.Interface.TickPlacement
import Comp30023.Interface.PcbHeap
import Comp30023.Interface.ListNodes
import Comp30023.Interface.ShellStrings
import Comp30023.Interface.BufferLaws
import Comp30023.Interface.LockedBufferLaws
import Comp30023.Interface.RunnerTick
import Comp30023.Interface.RunnerStages
import Comp30023.Interface.RunnerSimulation
import Comp30023.Interface.TickRuns
import Comp30023.Interface.TickPace
import Comp30023.Interface.World
import Comp30023.Interface.TraceLog
import Comp30023.Interface.RunnerMoments
import Comp30023.Interface.SliceScheduler
import Comp30023.Interface.DecimalText
import Comp30023.Interface.ParsedLines
import Comp30023.Interface.RecordFile
import Comp30023.Interface.ReceiveMessage
import Comp30023.Interface.MessageSession
import Comp30023.Interface.SessionRule
import Comp30023.Interface.Codes
import Comp30023.Interface.SessionBooks
import Comp30023.Interface.SessionGame
import Comp30023.Interface.SessionThreads
import Comp30023.Interface.Transcript
import Comp30023.Interface.ServerPhase
import Comp30023.Interface.CriticalSections
import Comp30023.Interface.ServerLocks
import Comp30023.Interface.ServerAccounts
import Comp30023.Interface.ServerShutdown
import Comp30023.Interface.CounterAccess
import Comp30023.Interface.MessageCodec
import Comp30023.Interface.PlayedGame
import Comp30023.Analysis.FreeListNormalForm
import Comp30023.Analysis.TheoremConsolidation
import Comp30023.Analysis.LinkedFreeSegments
import Comp30023.Analysis.MemoryPartition
import Comp30023.Analysis.Holes
import Comp30023.Analysis.SwapIn
import Comp30023.Analysis.ReleasedMemory
import Comp30023.Analysis.TheoremSwapIn
import Comp30023.Analysis.TheoremReleaseOrder
import Comp30023.Analysis.RunnerMemory
import Comp30023.Analysis.TheoremMemoryPartition
import Comp30023.Analysis.LinkedProcessMemories
import Comp30023.Analysis.TheoremLinkedMemory
import Comp30023.Analysis.TheoremQueues
import Comp30023.Analysis.TheoremMovedPcb
import Comp30023.Analysis.TheoremVictim
import Comp30023.Analysis.TheoremFeedback
import Comp30023.Analysis.TheoremReceivedGuess
import Comp30023.Analysis.TheoremExactTransfer
import Comp30023.Analysis.TheoremSliceLaw
import Comp30023.Analysis.TheoremTermination
import Comp30023.Analysis.TheoremRunnersOnNodes
import Comp30023.Analysis.TheoremMissingVictim
import Comp30023.Analysis.TheoremMemoryIndependence
import Comp30023.Analysis.WorkConservation
import Comp30023.Analysis.TheoremFinishTime
import Comp30023.Analysis.TheoremDegeneration
import Comp30023.Analysis.TheoremNoEviction
import Comp30023.Analysis.FcfsTimetable
import Comp30023.Analysis.TheoremFcfsTimetable
import Comp30023.Analysis.TheoremStatusLines
import Comp30023.Analysis.TheoremUsageOverflow
import Comp30023.Analysis.TheoremSlices
import Comp30023.Analysis.TheoremResponseTime
import Comp30023.Analysis.TheoremInputFile
import Comp30023.Analysis.TheoremSegmentation
import Comp30023.Analysis.TheoremSessionLifecycle
import Comp30023.Analysis.ServerTally
import Comp30023.Analysis.TheoremAcceptLoop
import Comp30023.Analysis.TheoremServerLog
import Comp30023.Analysis.TheoremServerRest
import Comp30023.Analysis.TheoremStatistics
import Comp30023.Analysis.TheoremSignal
import Comp30023.Analysis.TheoremNoLostUpdate
import Comp30023.Analysis.TheoremBrokenReceive
import Comp30023.Analysis.TheoremTranscript
import Comp30023.Analysis.TheoremAgreement
import Comp30023.Analysis.TheoremClientLoop
import Comp30023.Analysis.TheoremLinkedList
import Comp30023.Analysis.TheoremPop
import Comp30023.Analysis.TheoremSplit
import Comp30023.Analysis.TheoremScan
import Comp30023.Analysis.TheoremShell
import Comp30023.Analysis.TheoremBoundedBuffer
import Comp30023.Analysis.TheoremBusyWaiting
import Comp30023.Analysis.TheoremShutdown
