import UbuntuProjects.Concurrency.Program
import UbuntuProjects.Concurrency.Linearizable
import UbuntuProjects.Concurrency.Simulation
import UbuntuProjects.Concurrency.Serializable
import UbuntuProjects.Concurrency.Path
import UbuntuProjects.Concurrency.Pipeline
import UbuntuProjects.Concurrency.SharedMutex
import UbuntuProjects.Memory.Bytes
import UbuntuProjects.Memory.CString
import UbuntuProjects.Memory.Format
import UbuntuProjects.Memory.Lifetimes
import UbuntuProjects.Memory.Handles
import UbuntuProjects.Control.Record
import UbuntuProjects.Maps.AssocMap
import UbuntuProjects.Maps.Buckets
import UbuntuProjects.Model.TsQueue
import UbuntuProjects.Model.TsQueueNode
import UbuntuProjects.Model.TsQueueBadAlloc
import UbuntuProjects.Model.TsQueueOverlap
import UbuntuProjects.Model.TsQueueThrows
import UbuntuProjects.Analysis.TsQueueLocks
import UbuntuProjects.Analysis.TsQueueAssertions
import UbuntuProjects.Analysis.TsQueueEffects
import UbuntuProjects.Analysis.TsQueueInvariant
import UbuntuProjects.Analysis.TsQueueRepresentation
import UbuntuProjects.Analysis.TsQueueContents
import UbuntuProjects.Analysis.TsQueueWakeups
import UbuntuProjects.Analysis.TsQueueFifo
import UbuntuProjects.Analysis.TsQueueLinearizable
import UbuntuProjects.Analysis.TsQueueStorage
import UbuntuProjects.Analysis.TsQueueNode
import UbuntuProjects.Analysis.TsQueueOverlap
import UbuntuProjects.Analysis.TsQueueStop
import UbuntuProjects.Analysis.TsQueueBadAlloc
import UbuntuProjects.Analysis.TsQueueThrows
import UbuntuProjects.Model.TfgFlist
import UbuntuProjects.Analysis.TfgFlistAssertions
import UbuntuProjects.Analysis.TfgFlistInvariant
import UbuntuProjects.Analysis.TfgFlistProgress
import UbuntuProjects.Analysis.TfgFlistLifetime
import UbuntuProjects.Analysis.TfgFlistSequential
import UbuntuProjects.Analysis.TfgFlistPending
import UbuntuProjects.Analysis.TfgFlistSerial
import UbuntuProjects.Analysis.TfgFlistExceptions
import UbuntuProjects.Model.TsHashmap
import UbuntuProjects.Model.TsExHashmap
import UbuntuProjects.Model.FiniteMap
import UbuntuProjects.Model.TsExHashmapThreads
import UbuntuProjects.Analysis.HashmapBuckets
import UbuntuProjects.Analysis.HashmapEquivalence
import UbuntuProjects.Analysis.HashmapRehash
import UbuntuProjects.Analysis.TsExHashmapAssertions
import UbuntuProjects.Analysis.TsExHashmapInvariant
import UbuntuProjects.Analysis.TsExHashmapIndices
import UbuntuProjects.Analysis.TsExHashmapContents
import UbuntuProjects.Analysis.TsExHashmapLinearizable
import UbuntuProjects.Analysis.TsExHashmapCounts
import UbuntuProjects.Analysis.TsExHashmapPhases
import UbuntuProjects.Analysis.TsExHashmapSnapshot
import UbuntuProjects.Analysis.TsExHashmapSize
import UbuntuProjects.Model.HierarchyMutex
import UbuntuProjects.Analysis.HierarchyMutexInvariant
import UbuntuProjects.Analysis.HierarchyMutexBookkeeping
import UbuntuProjects.Analysis.HierarchyMutexDeadlock
import UbuntuProjects.Concurrency.Counting
import UbuntuProjects.Concurrency.Scanning
import UbuntuProjects.Model.TsStack
import UbuntuProjects.Analysis.TsStackInvariant
import UbuntuProjects.Analysis.TsStackWakeups
import UbuntuProjects.Analysis.TsStackThrowingPops
import UbuntuProjects.Concurrency.Custody
import UbuntuProjects.Model.ThreadPool
import UbuntuProjects.Concurrency.Layers
import UbuntuProjects.Model.ThreadPoolTasks
import UbuntuProjects.Model.ThreadPoolConstruction
import UbuntuProjects.Analysis.ThreadPoolTake
import UbuntuProjects.Analysis.ThreadPoolCustody
import UbuntuProjects.Analysis.ThreadPoolConstruction
import UbuntuProjects.Analysis.ThreadPoolLifetime
import UbuntuProjects.Analysis.ThreadPoolIsolation
import UbuntuProjects.Analysis.ThreadPoolTasks
import UbuntuProjects.Analysis.ThreadPoolTaskIsolation
import UbuntuProjects.Model.ErrFuncs
import UbuntuProjects.Analysis.ErrFuncs
import UbuntuProjects.Analysis.LogFuncs
import UbuntuProjects.Model.SendrecvFd
import UbuntuProjects.Analysis.SendrecvFd
import UbuntuProjects.Analysis.SendrecvFdCodes
import UbuntuProjects.Model.Client
import UbuntuProjects.Analysis.ClientRetry
import UbuntuProjects.Analysis.Client
import UbuntuProjects.Concurrency.Forking
import UbuntuProjects.Model.Server
import UbuntuProjects.Analysis.Server
import UbuntuProjects.Concurrency.LockAll
import UbuntuProjects.Model.TsStackSwap
import UbuntuProjects.Analysis.TsStackSwap
import UbuntuProjects.Analysis.TsQueueMoveAssign
import UbuntuProjects.Analysis.TwoOperands
import UbuntuProjects.Model.ThreadWrappers
import UbuntuProjects.Analysis.ThreadWrappers
import UbuntuProjects.Matrices.FaddeevLeVerrier
import UbuntuProjects.X86.Avx
import UbuntuProjects.Model.Matrix4x4
import UbuntuProjects.Analysis.Matrix4x4
import UbuntuProjects.X86.Loop
import UbuntuProjects.X86.Pcmpstr
import UbuntuProjects.X86.Sse
import UbuntuProjects.Model.SseString
import UbuntuProjects.Analysis.SseStringCmp
import UbuntuProjects.Analysis.SseStringSearch
import UbuntuProjects.Model.Shuffle
import UbuntuProjects.Analysis.Shuffle
import UbuntuProjects.Analysis.SearchSubstr
import UbuntuProjects.Analysis.SearchPacked
import UbuntuProjects.Model.Console
import UbuntuProjects.Analysis.Console
import UbuntuProjects.X86.Counted
import UbuntuProjects.Model.AsmInC
import UbuntuProjects.Analysis.AsmInC
import UbuntuProjects.Model.MoveStrings
import UbuntuProjects.Analysis.MoveStrings
import UbuntuProjects.Model.FileIo
import UbuntuProjects.Analysis.FileIo
import UbuntuProjects.Concurrency.Progress
import UbuntuProjects.Model.TsStackSystem
import UbuntuProjects.Analysis.TsStackSystemLocks
import UbuntuProjects.Analysis.TsStackSystemLifo
import UbuntuProjects.Analysis.TsStackSystemLinearizable
import UbuntuProjects.Analysis.TsStackSystemProgress
import UbuntuProjects.Analysis.TsStackSystemStop
import UbuntuProjects.Model.TsHashmapThreads
import UbuntuProjects.Analysis.TsHashmapThreadsInvariant
import UbuntuProjects.Analysis.TsHashmapThreadsLinearizable
import UbuntuProjects.Analysis.TsHashmapThreadsSnapshot
import UbuntuProjects.Analysis.TsHashmapThreadsProgress
import UbuntuProjects.Memory.Descriptors
import UbuntuProjects.Concurrency.Processes
import UbuntuProjects.Model.Daemonize
import UbuntuProjects.Analysis.Daemonize
import UbuntuProjects.Memory.Decimal
import UbuntuProjects.Model.TestDaemon
import UbuntuProjects.Analysis.TestDaemonLock
import UbuntuProjects.Analysis.TestDaemonPidFile
import UbuntuProjects.Analysis.TestDaemonSignals
import UbuntuProjects.Model.Ruptimed
import UbuntuProjects.Analysis.RuptimedDescriptors
import UbuntuProjects.Analysis.RuptimedConnections
import UbuntuProjects.Analysis.ThreadPoolMutexes
import UbuntuProjects.Analysis.ThreadPoolFrames
import UbuntuProjects.Analysis.ThreadPoolUse
import UbuntuProjects.Analysis.ThreadPoolCalls
import UbuntuProjects.Analysis.ThreadPoolJoins
import UbuntuProjects.Analysis.ThreadPoolProgress
