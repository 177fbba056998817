import NodedbLite.KvRangeScan
import NodedbLite.KvExpiry
import NodedbLite.KvGlob
import NodedbLite.KvFlush
import NodedbLite.ColumnarReopen
import NodedbLite.ArrayCrash
import NodedbLite.ArrayConverge
import NodedbLite.DocClock
import NodedbLite.GroupingSets
import NodedbLite.JoinQuery
import NodedbLite.HavingTruth
import NodedbLite.OrderBy
import NodedbLite.Distinct
import NodedbLite.IndexRange
import NodedbLite.MatchPaths
import NodedbLite.OptionalMatch
import NodedbLite.SpatialIndex
import NodedbLite.KvTransferItem
import NodedbLite.SortedWindow
import NodedbLite.SortedCustom
import NodedbLite.SetOps
import NodedbLite.TimeseriesCompaction
import NodedbLite.Merge
import NodedbLite.CurrentPage
import NodedbLite.GraphTriangles
import NodedbLite.GraphDiameter
import NodedbLite.GraphCores
import NodedbLite.VectorIds
import NodedbLite.SparseIndex
import NodedbLite.BucketScan
import NodedbLite.MaterializeScan
import NodedbLite.FtsRebuild
import NodedbLite.ScanPages
import NodedbLite.OutboundKv
import NodedbLite.ShapeGaps
import NodedbLite.DeltaTargets
import NodedbLite.FlowControl
import NodedbLite.OpLogStore
import NodedbLite.StrictBatches
import NodedbLite.CrdtReject
