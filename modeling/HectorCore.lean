import HectorCore.Lib.Run
import HectorCore.Lib.PriorityFifo
import HectorCore.Queue.SyncQueue
import HectorCore.Queue.Delivery
import HectorCore.Processing.Processor
import HectorCore.Processing.Routing
import HectorCore.Processing.Accounting
import HectorCore.Processing.Conservation
import HectorCore.Processing.ResourceCount
import HectorCore.Clients.GetProcessed
import HectorCore.Clients.Results
import HectorCore.Clients.Stopping
import HectorCore.Clients.Handover
import HectorCore.Batch.Sleeping
import HectorCore.Batch.Bookkeeping
import HectorCore.Batch.Threads
import HectorCore.Batch.Quiescence
import HectorCore.Lib.ByteReader
import HectorCore.Stream.Binary
import HectorCore.Stream.RoundTrip
import HectorCore.Stream.Text
import HectorCore.Load.Offset
import HectorCore.Server.Process
import HectorCore.Server.Answers
import HectorCore.Lib.Find
import HectorCore.Server.HttpConn
import HectorCore.Server.Chunks
import HectorCore.Server.KeepAlive
import HectorCore.Queue.WakeUp
import HectorCore.Processing.Assertions
import HectorCore.Batch.Reports
import HectorCore.Batch.Finish
import HectorCore.Engine.RunPause
import HectorCore.Registry.UniqueIds
import HectorCore.Lib.Census
import HectorCore.Queue.Stopped
import HectorCore.Queue.Limits
import HectorCore.Processing.Init
import HectorCore.Registry.Abort
import HectorCore.Server.Decoder
import HectorCore.Stream.TextRoundTrip
import HectorCore.Processing.Pipeline
import HectorCore.Processing.Skip
import HectorCore.Server.Failed
import HectorCore.Stream.Truncated
import HectorCore.Stream.Output
import HectorCore.Load.Emission
import HectorCore.Load.Reopen
import HectorCore.Clients.Ordered
import HectorCore.Save.Rotation
import HectorCore.Calls.ReadWrite
import HectorCore.Calls.Pass
import HectorCore.Calls.Ledger
import HectorCore.Calls.Process
import HectorCore.Calls.Partition
import HectorCore.Calls.Order
import HectorCore.Calls.Books
import HectorCore.Startup.Literal
import HectorCore.Server.BodyLength
import HectorCore.Server.EndOfFile
import HectorCore.Server.SendResponse
import HectorCore.Server.Rendering
import HectorCore.Save.FileSwitch
import HectorCore.Save.SameFiles
import HectorCore.Load.Waiting
import HectorCore.Processing.PauseInput
import HectorCore.Startup.WrapAround
import HectorCore.Queue.Batches
import HectorCore.Registry.Recycle
import HectorCore.Registry.Lookup
import HectorCore.Registry.History
import HectorCore.Lib.HeapOrder
import HectorCore.Perl.HeapPlus
import HectorCore.Perl.Interpreters
import HectorCore.Addr.IpAddr
import HectorCore.Addr.Match
import HectorCore.Addr.ApplyPrefix
import HectorCore.Connection.Stderr
import HectorCore.Connection.ReadWrite
import HectorCore.Registry.Attributes
import HectorCore.Clock.ConstructTimeout
import HectorCore.Pool.MemoryPool
import HectorCore.Lib.CText
import HectorCore.Lib.Sublists
import HectorCore.Objects.ObjectRegistry
import HectorCore.Perl.Positions
import HectorCore.Calls.Termination
import HectorCore.Startup.Server
import HectorCore.Startup.Wiring
import HectorCore.Server.Connections
import HectorCore.Server.Shutdown
import HectorCore.Lib.Walk
import HectorCore.Objects.Properties
import HectorCore.Server.Control
import HectorCore.Server.Session
import HectorCore.Server.Checkpoints
