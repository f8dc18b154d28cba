import NuKSM.Theorems.BTree.Range
import NuKSM.Theorems.BTree.Load
import NuKSM.Theorems.BTree.Refine
import NuKSM.Theorems.BTree.InsertTree
import NuKSM.Lib.Locate
import NuKSM.Lib.Dict
import NuKSM.Lib.Fringe
import NuKSM.Lib.BPlusTree
import NuKSM.Lib.Slab
import NuKSM.Lib.Overlay
import NuKSM.BTree.Delete
import NuKSM.Lib.Affine
import NuKSM.XSBench.Lcg
import NuKSM.Lib.Array
import NuKSM.Lib.Bracket
import NuKSM.Theorems.XSBench.Lcg
import NuKSM.XSBench.Grid
import NuKSM.XSBench.GridInit
import NuKSM.XSBench.Lookup
import NuKSM.Theorems.XSBench.Grid
import NuKSM.Theorems.XSBench.Sweep
import NuKSM.Theorems.XSBench.Unionized
import NuKSM.Theorems.XSBench.Hash
import NuKSM.Lib.Rearrange
import NuKSM.XSBench.QuickSort
import NuKSM.Theorems.XSBench.QuickSort
import NuKSM.XSBench.Simulation
import NuKSM.Theorems.XSBench.Event
import NuKSM.Theorems.XSBench.History
import NuKSM.Theorems.XSBench.Confined
import NuKSM.Lib.Thread
import NuKSM.Lib.FoldedSquare
import NuKSM.Sysbench.Rand
import NuKSM.Theorems.Sysbench.Rand
import NuKSM.Lib.Solo
import NuKSM.Sysbench.Histogram
import NuKSM.Theorems.Sysbench.Conserved
import NuKSM.Theorems.Sysbench.HistogramSolo
import NuKSM.Theorems.Sysbench.Percentile
import NuKSM.Theorems.Sysbench.HistogramLock
import NuKSM.Sysbench.Counter
import NuKSM.Theorems.Sysbench.Reports
import NuKSM.Sysbench.Timer
import NuKSM.Theorems.Sysbench.Running
import NuKSM.Lib.Schedule
import NuKSM.Sysbench.Options
import NuKSM.Theorems.Sysbench.Options
import NuKSM.Lib.Tiling
import NuKSM.Sysbench.FileIo
import NuKSM.Sysbench.FileExec
import NuKSM.Theorems.Sysbench.SeqRequests
import NuKSM.Lib.Performs
import NuKSM.Theorems.Sysbench.FileConfig
import NuKSM.Theorems.Sysbench.RndRequests
import NuKSM.Theorems.Sysbench.RndExclusive
import NuKSM.Lib.Loop
import NuKSM.Sysbench.EventQueue
import NuKSM.Theorems.Sysbench.EventQueue
import NuKSM.Theorems.Sysbench.Concurrency
import NuKSM.Sysbench.LatencyReport
import NuKSM.Theorems.Sysbench.Latencies
import NuKSM.Theorems.Sysbench.LatencyProtocol
import NuKSM.Theorems.Sysbench.LatencyReports
import NuKSM.Theorems.Sysbench.LatencyRuns
import NuKSM.Lib.Advance
import NuKSM.Sysbench.FileAio
import NuKSM.Theorems.Sysbench.FileAio
import NuKSM.Sysbench.Barrier
import NuKSM.Theorems.Sysbench.Barrier
import NuKSM.Lib.LittleEndian
import NuKSM.Lib.Journal
import NuKSM.Sysbench.FileSync
import NuKSM.Theorems.Sysbench.FileSync
import NuKSM.Theorems.Sysbench.FileValidate
import NuKSM.Lib.Reach
import NuKSM.Lib.SqlLiteral
import NuKSM.Sysbench.DbDriver
import NuKSM.Sysbench.SqlApi
import NuKSM.Sysbench.MysqlDriver
import NuKSM.Sysbench.PgsqlDriver
import NuKSM.Sysbench.Config
import NuKSM.Theorems.Sysbench.DbCalls
import NuKSM.Theorems.Sysbench.DbOrder
import NuKSM.Theorems.Sysbench.DbErrors
import NuKSM.Theorems.Sysbench.MysqlCalls
import NuKSM.Theorems.Sysbench.MysqlCounters
import NuKSM.Theorems.Sysbench.MysqlHandle
import NuKSM.Theorems.Sysbench.ResultSets
import NuKSM.Theorems.Sysbench.FetchRows
import NuKSM.Theorems.Sysbench.BoundStrings
import NuKSM.Theorems.Sysbench.Config
import NuKSM.Theorems.Sysbench.BulkCalls
import NuKSM.Theorems.Sysbench.BulkBuffer
import NuKSM.Theorems.Sysbench.BulkRows
import NuKSM.BTree.Rand48
import NuKSM.BTree.Print
import NuKSM.BTree.Destroy
import NuKSM.Theorems.BTree.Rand48
import NuKSM.Theorems.BTree.Walk
import NuKSM.Theorems.BTree.RangeSize
import NuKSM.Theorems.BTree.Destroy
import NuKSM.Theorems.BTree.Queue
import NuKSM.Theorems.BTree.PrintTree
import NuKSM.Theorems.XSBench.EventDraws
import NuKSM.Theorems.XSBench.GridLengths
import NuKSM.Lib.Stored
import NuKSM.XSBench.BinaryFile
import NuKSM.Theorems.XSBench.BinaryFile
import NuKSM.RandomAccess.InputPages2
import NuKSM.Theorems.RandomAccess.InputPages2
import NuKSM.Sysbench.PgsqlStatement
import NuKSM.Theorems.Sysbench.PgsqlStatement
import NuKSM.Sysbench.OptionValues
import NuKSM.Theorems.Sysbench.OptionSizes
import NuKSM.Theorems.Sysbench.OptionInts
import NuKSM.Theorems.Sysbench.OptionChecks
import NuKSM.Sysbench.RandDist
import NuKSM.Theorems.Sysbench.RandDist
import NuKSM.Sysbench.ReportThread
import NuKSM.Theorems.Sysbench.ReportThread
import NuKSM.Sysbench.SeqCheck
import NuKSM.Theorems.Sysbench.SeqCheck
import NuKSM.Theorems.Sysbench.RndBlocks
import NuKSM.Sysbench.FileOptions
import NuKSM.Theorems.Sysbench.FileOptions
import NuKSM.Lib.Extend
import NuKSM.Lib.Turns
import NuKSM.Sysbench.AioQueue
import NuKSM.Theorems.Sysbench.AioQueue
import NuKSM.RandomAccess.InputPages
import NuKSM.Theorems.RandomAccess.InputPages
import NuKSM.Theorems.Sysbench.RandSpecial
import NuKSM.XSBench.ReadCli
import NuKSM.Theorems.XSBench.ReadCli
import NuKSM.Lib.Circular
import NuKSM.Lib.Critical
import NuKSM.Sysbench.MysqlHosts
import NuKSM.Theorems.Sysbench.MysqlHosts
import NuKSM.Lib.Words
import NuKSM.Lib.Block
import NuKSM.Sysbench.QueryText
import NuKSM.Theorems.Sysbench.QueryText
import NuKSM.Theorems.Sysbench.QueryDrivers
import NuKSM.Sysbench.SqlParam
import NuKSM.Theorems.Sysbench.SqlParam
import NuKSM.Scripts.OomExperiment
import NuKSM.Theorems.Scripts.OomExperiment
import NuKSM.Sysbench.Cmdline
import NuKSM.Theorems.Sysbench.OrderedPairs
import NuKSM.Theorems.Sysbench.CmdlineRead
import NuKSM.Theorems.Sysbench.Cmdline
import NuKSM.Lib.Linear
import NuKSM.Sysbench.CkRing
import NuKSM.Theorems.Sysbench.CkRing
import NuKSM.Lib.Team
import NuKSM.Npb.Rank
import NuKSM.Theorems.Npb.Buckets
import NuKSM.Theorems.Npb.Rank
import NuKSM.Theorems.Npb.FullVerify
import NuKSM.Lib.Exact
import NuKSM.Npb.CreateSeq
import NuKSM.Theorems.Npb.CreateSeq
