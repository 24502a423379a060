import Woodpecker.Alloc.Notifications
import Woodpecker.Checkers.DataLossBuffers
import Woodpecker.Checkers.FileAutomaton
import Woodpecker.Checkers.FilePermForks
import Woodpecker.Checkers.LeakBlocks
import Woodpecker.Checkers.LeakFrames
import Woodpecker.Checkers.LockEmulation
import Woodpecker.Checkers.ReportedLeaks
import Woodpecker.Checkers.Slicing
import Woodpecker.Checkers.StreamHandles
import Woodpecker.Execution.CopyOnWrite
import Woodpecker.Execution.ElementPointers
import Woodpecker.Execution.FunctionPointers
import Woodpecker.Execution.MemoryOperations
import Woodpecker.Execution.ResMgr
import Woodpecker.Execution.Switches
import Woodpecker.Expressions.NumberTokens
import Woodpecker.Expressions.ObjectHashes
import Woodpecker.Posix.Directory
import Woodpecker.Posix.Opening
import Woodpecker.Pthread.Conditions
import Woodpecker.Pthread.MutualExclusion
import Woodpecker.Pthread.Scheduling
import Woodpecker.Solvers.Caching
import Woodpecker.Solvers.CexCaching
import Woodpecker.Solvers.Independence
import Woodpecker.States.IterativeDeepening
import Woodpecker.States.Lifecycle
import Woodpecker.States.Merging
import Woodpecker.States.RandomPath
import Woodpecker.Support.KTest
