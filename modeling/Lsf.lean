import Lsf.Foundations.Ensures
import Lsf.Foundations.LinkedRing
import Lsf.Foundations.ColorTree
import Lsf.Foundations.ColorRepair
import Lsf.Container.RedBlackTree
import Lsf.Container.TreeMemory
import Lsf.Container.TreeRotation
import Lsf.Container.TreeInsert
import Lsf.Container.TreeErase
import Lsf.Container.TreeEmptyList
import Lsf.Container.TreeSearch
import Lsf.Container.TreeUpdate
import Lsf.Container.TreeInit
import Lsf.Container.MapSet
import Lsf.Foundations.Refinement
import Lsf.Foundations.SortedTable
import Lsf.Container.BoundedOrderedMap
import Lsf.Container.RedBlackFeatures
import Lsf.Container.BidirectionalList
import Lsf.Container.ListMemory
import Lsf.Container.BoundedList
import Lsf.Foundations.StreamSplitter
import Lsf.Svr.Frame
import Lsf.Svr.ReadPath
import Lsf.Svr.Chunking
import Lsf.Foundations.Reachability
import Lsf.Svr.DescriptorReuse
import Lsf.Svr.DataRecords
import Lsf.Svr.DataVersions
import Lsf.Svr.DataLocks
import Lsf.Svr.SessionLocks
import Lsf.Foundations.SecondaryIndex
import Lsf.Svr.ClientConnManager
import Lsf.Foundations.Replica
import Lsf.Svr.ConnServer
import Lsf.Svr.ConnAgreement
import Lsf.Svr.ConnSockets
import Lsf.Foundations.PriorityQueue
import Lsf.Svr.TimerManager
import Lsf.Svr.SessionServer
import Lsf.Svr.SessionTimers
import Lsf.Foundations.Cursor
import Lsf.Svr.BasicManager
import Lsf.Container.Pool
import Lsf.Container.CircularQueue
import Lsf.Asio.EventBatches
import Lsf.Asio.DriverInterest
import Lsf.Asio.Proactor
import Lsf.Svr.BlockRecv
import Lsf.Svr.ReceiveOrder
import Lsf.Container.EraseWhileWalking
import Lsf.Container.ObjectLifetimes
import Lsf.Svr.ProxyRouting
import Lsf.Svr.ProxyRegister
import Lsf.Svr.TimerRelease
import Lsf.Asio.TimerService
import Lsf.Asio.TimerEvents
import Lsf.Asio.TimerClose
import Lsf.Svr.SessionQueries
import Lsf.Svr.DataPresence
import Lsf.Util.StringExt
import Lsf.Algorithm.Combination
import Lsf.Util.WordsFilter
import Lsf.Util.Random
import Lsf.Util.Serialize
import Lsf.Util.Replace
import Lsf.Util.Trim
import Lsf.Util.Path
import Lsf.Foundations.ByteBuffer
import Lsf.Util.HexString
import Lsf.Svr.BasicHttp
import Lsf.Util.Config
import Lsf.Algorithm.TwoDimensionalTable
import Lsf.Foundations.MarkGrouping
import Lsf.Svr.ProtoSchema
import Lsf.Svr.NameTable
import Lsf.Svr.CsvConfig
import Lsf.Svr.CsvMarks
import Lsf.Svr.CsvErrors
import Lsf.Svr.JsonRoundTrip
import Lsf.Foundations.Numeral
import Lsf.Util.TypeCast
import Lsf.Asio.SockAddr
import Lsf.Asio.PollTable
import Lsf.Util.SerializeWrite
import Lsf.Container.InitStorage
import Lsf.Container.NarrowQueue
import Lsf.Svr.IdSearch
import Lsf.Svr.StorageKeys
import Lsf.Foundations.DelimitedStack
import Lsf.Svr.NameTableReader
import Lsf.Foundations.Correlation
import Lsf.Svr.ServerCluster
import Lsf.Svr.ServerResponses
import Lsf.Svr.ClientResponses
import Lsf.Foundations.VersionedValue
import Lsf.Svr.RecordUpdates
import Lsf.Asio.CurlThread
import Lsf.Svr.TimerDeadlines
import Lsf.Svr.ServerRestart
import Lsf.Svr.ConfigCenter
import Lsf.Svr.ConfigReload
import Lsf.Svr.MessageOrder
import Lsf.Svr.MessageDelivery
