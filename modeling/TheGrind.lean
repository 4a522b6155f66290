import TheGrind.Transition.Machine
import TheGrind.Data.Partition
import TheGrind.Data.Dict
import TheGrind.Data.Ring
import TheGrind.Data.Family
import TheGrind.Data.Varchar
import TheGrind.KvStore.Store
import TheGrind.KvStore.Handlers
import TheGrind.KvStore.Serial
import TheGrind.KvStore.Interleaved
import TheGrind.KvStore.Registers
import TheGrind.KvStore.Ttl
import TheGrind.KvStore.DelayedPut
import TheGrind.KvStore.Cleanup
import TheGrind.MessageQueue.Queue
import TheGrind.MessageQueue.Run
import TheGrind.MessageQueue.Conservation
import TheGrind.MessageQueue.Visibility
import TheGrind.MessageQueue.Redelivery
import TheGrind.Sync.Condition
import TheGrind.Sync.Monitor
import TheGrind.Sync.Progress
import TheGrind.Threads.UnsafeCounter
import TheGrind.Threads.SafeCounter
import TheGrind.MessageQueue.Monitor
import TheGrind.MessageQueue.Deadline
import TheGrind.MessageQueue.Order
import TheGrind.MessageQueue.Demo
import TheGrind.MessageQueue.Prompt
import TheGrind.MessageQueue.Progress
import TheGrind.ConnectionPool.SimplePool
import TheGrind.ConnectionPool.Wakeup
import TheGrind.ConnectionPool.GivingUp
import TheGrind.ConnectionPool.Deadline
import TheGrind.ConnectionPool.Progress
import TheGrind.ConnectionPool.Demo
import TheGrind.ConnectionPool.BusyWait
import TheGrind.KvStore.Pools
import TheGrind.KvStore.Replica
import TheGrind.KvStore.Replication
import TheGrind.KvStore.MonotonicReads
import TheGrind.KvStore.Failover
import TheGrind.KvStore.LoadShare
import TheGrind.KvStore.Lifespan
import TheGrind.KvStore.Shutdown
import TheGrind.KvStore.CleanupTask
import TheGrind.Sync.Bounded
import TheGrind.QueuePool.Rotation
import TheGrind.QueuePool.Tracking
import TheGrind.QueuePool.Python
import TheGrind.QueuePool.Go
import TheGrind.QueuePool.Conservation
import TheGrind.QueuePool.PythonShutdown
import TheGrind.QueuePool.GoShutdown
import TheGrind.QueuePool.PythonDemo
import TheGrind.QueuePool.GoDemo
import TheGrind.Transition.EventLoop
import TheGrind.EchoServer.Servers
import TheGrind.EchoServer.Echo
import TheGrind.EchoServer.Refinement
import TheGrind.EchoServer.Containment
import TheGrind.EchoServer.Release
import TheGrind.EchoServer.Conversation
import TheGrind.EchoServer.Scan
