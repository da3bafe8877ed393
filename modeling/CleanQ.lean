import CleanQ.Basic
import CleanQ.Slab
import CleanQ.RegionPool
import CleanQ.RegionLifetime
import CleanQ.RegionProbe
import CleanQ.Interface
import CleanQ.Loopback
import CleanQ.DebugQueue
import CleanQ.DebugOwnership
import CleanQ.DebugPartition
import CleanQ.FfQueue
import CleanQ.IpcQueue
import CleanQ.IpcEndpoints
