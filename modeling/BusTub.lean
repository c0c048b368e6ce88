import BusTub.Library.Machine
import BusTub.Library.Memory
import BusTub.Library.LowBits
import BusTub.Library.Bitmap
import BusTub.Library.Generator
import BusTub.Library.Grouping
import BusTub.Execution.HashJoinExecutor
import BusTub.Execution.GroupTables
import BusTub.Execution.AbstractExecutor
import BusTub.Library.Cursor
import BusTub.Library.Faults
import BusTub.Library.KeyedList
import BusTub.Concurrency.EndStates
import BusTub.Concurrency.MutualExclusion
import BusTub.Concurrency.TwoPhase
import BusTub.Concurrency.WakeUps
import BusTub.Concurrency.WoundWait
import BusTub.Concurrency.Upgrades
import BusTub.Concurrency.AbortUndo
import BusTub.Storage.DiskManager
import BusTub.Buffer.LRUReplacer
import BusTub.Buffer.Coherence
import BusTub.Table.SlottedPage
import BusTub.Table.TableIterator
import BusTub.Types.TupleRoundTrip
import BusTub.Types.IntegerArithmetic
import BusTub.Types.ComparisonOrder
import BusTub.Types.HashAgreement
import BusTub.Types.Timestamp
import BusTub.Types.TimestampOrder
import BusTub.Hash.PairSet
import BusTub.Hash.TableRuns
import BusTub.Execution.FilterSemantics
import BusTub.Execution.AggregationExecutor
import BusTub.Execution.HashJoin
import BusTub.Concurrency.CommitDeletes
import BusTub.Execution.UncommittedReads
import BusTub.Execution.IndexConsistency
import BusTub.Catalog.CatalogConsistency
import BusTub.Catalog.CatalogRefinement
import BusTub.Hash.BucketRuns
import BusTub.Hash.MergeComplete
import BusTub.Hash.SplitCapacity
import BusTub.Hash.SplitImage
import BusTub.Concurrency.ReaderWriterLatch
import BusTub.Buffer.ParallelBufferPoolManager
import BusTub.Buffer.Residue
import BusTub.Concurrency.ReleasedLocks
import BusTub.Execution.ExecutorPasses
import BusTub.Buffer.EvictionOrder
import BusTub.Buffer.FailedAllocation
import BusTub.Buffer.FlushedPages
import BusTub.Buffer.RoundRobin
import BusTub.Buffer.DeclaredChanges
import BusTub.Buffer.ParallelClients
import BusTub.Hash.SmallPoolTable
import BusTub.Hash.ConcurrentTable
import BusTub.Table.SmallPoolHeap
import BusTub.Concurrency.UpgradeFlag
import BusTub.Concurrency.StrictLocking
import BusTub.Storage.PageAddressing
import BusTub.Storage.HeaderRecords
import BusTub.Table.PinBalance
import BusTub.Table.HeapInsertion
import BusTub.Table.HeapScan
import BusTub.Execution.InsertSelect
import BusTub.Execution.LoopJoinRows
import BusTub.Execution.PlanTrees
import BusTub.Execution.ProjectedRows
import BusTub.Execution.UpdatedRows
import BusTub.Execution.PartialStatements
import BusTub.Execution.DistinctRows
import BusTub.Execution.AggregateOrder
import BusTub.Index.ExtendibleHashTableIndex
import BusTub.Common
