import StreamingPoc.Lib.Transition
import StreamingPoc.Lib.Custody
import StreamingPoc.Lib.Rounds
import StreamingPoc.Lib.Sections
import StreamingPoc.Lib.Cumulative
import StreamingPoc.Lib.Writes
import StreamingPoc.Lib.Trace
import StreamingPoc.Lib.Groups
import StreamingPoc.Lib.Pacing
import StreamingPoc.Lib.Batches
import StreamingPoc.Lib.Rates
import StreamingPoc.Lib.Rounding
import StreamingPoc.Lib.WorkLeft
import StreamingPoc.Lib.Handover
import StreamingPoc.Lib.FailStop
import StreamingPoc.Lib.Linearizable
import StreamingPoc.Lib.Lines
import StreamingPoc.Java.Double
import StreamingPoc.Java.Int32
import StreamingPoc.Java.Int64
import StreamingPoc.Java.Text
import StreamingPoc.Java.Tokens
import StreamingPoc.Netfeed.StupidPool
import StreamingPoc.Netfeed.StupidPoolOwnership
import StreamingPoc.Netfeed.StupidPoolMisses
import StreamingPoc.Netfeed.StupidPoolProgress
import StreamingPoc.Netfeed.StupidPoolAtomic
import StreamingPoc.Netfeed.Histogram
import StreamingPoc.Netfeed.RoundTripModel
import StreamingPoc.Netfeed.RoundTrip
import StreamingPoc.Netfeed.Pacing
import StreamingPoc.Netfeed.Backlog
import StreamingPoc.Netfeed.Latencies
import StreamingPoc.Netfeed.Dumper
import StreamingPoc.ParseHistogram.POCHistogram
import StreamingPoc.ParseHistogram.Percentiles
import StreamingPoc.ParseHistogram.PercentileRange
import StreamingPoc.ParseHistogram.HistoParse
import StreamingPoc.ParseHistogram.HistoTrace
import StreamingPoc.ParseHistogram.CsvFiles
import StreamingPoc.ParseHistogram.Conversion
import StreamingPoc.ParseHistogram.Listing
import StreamingPoc.ParseHistogram.ReadFile
import StreamingPoc.Esp.Sdk
import StreamingPoc.Esp.BlockWriter
import StreamingPoc.Esp.BatchPublisher
import StreamingPoc.Esp.DbagPublisher
import StreamingPoc.Esp.DbagBlocks
import StreamingPoc.Esp.DbagReports
import StreamingPoc.Esp.DbagRows
import StreamingPoc.Esp.DbagMain
import StreamingPoc.Esp.Millitime
import StreamingPoc.Esp.LoadData
import StreamingPoc.Esp.LoadBlocks
import StreamingPoc.Esp.LoadTimestamps
import StreamingPoc.Esp.LoadReports
import StreamingPoc.Esp.LoadFailures
import StreamingPoc.Esp.ListenLoop
import StreamingPoc.Sap.RTTPublish
import StreamingPoc.Sap.RTTBlocks
import StreamingPoc.Sap.RTTSubscribe
import StreamingPoc.Sap.RTTRun
import StreamingPoc.Latency.Receipts
import StreamingPoc.Esper.MDEsper
import StreamingPoc.Esper.RunTest
import StreamingPoc.Latency.Reports
import StreamingPoc.Latency.Range
