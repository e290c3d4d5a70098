import PerunProfiler.Attribution
import PerunProfiler.CallStack
import PerunProfiler.Outermost
import PerunProfiler.Forest
import PerunProfiler.Closings
import PerunProfiler.Allocations
import PerunProfiler.Concurrent
import PerunProfiler.Released
import PerunProfiler.NullActive
import PerunProfiler.Lifetime
import PerunProfiler.Survivors
import PerunProfiler.ObjectTypes
import PerunProfiler.Generations
import PerunProfiler.Surviving
import PerunProfiler.Parts
import PerunProfiler.Intervals
import PerunProfiler.Isolation
import PerunProfiler.Aggregation
import PerunProfiler.Dropped
import PerunProfiler.TopTypes
import PerunProfiler.Names
import PerunProfiler.Reading
import PerunProfiler.AllowList
import PerunProfiler.Executions
import PerunProfiler.Drawing
import PerunProfiler.Fates
import PerunProfiler.NakedCallbacks
import PerunProfiler.Locks
import PerunProfiler.Collections
import PerunProfiler.References
import PerunProfiler.AllocatedTreemap
import PerunProfiler.StartProgram
import PerunProfiler.Modes
import PerunProfiler.Serialization
import PerunProfiler.Leaks
import PerunProfiler.ComServer
import PerunProfiler.Buffers
import PerunProfiler.TopFunctions
