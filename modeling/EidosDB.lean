import EidosDB.Lib.Effect
import EidosDB.Lib.Trace
import EidosDB.Lib.Bytes
import EidosDB.Lib.Wire
import EidosDB.Lib.OrderedTable
import EidosDB.Lib.PriorityQueue
import EidosDB.Lib.SortBy
import EidosDB.Lib.HashOrder
import EidosDB.Lib.Inverse
import EidosDB.Lib.Fold
import EidosDB.Lib.Transaction
import EidosDB.Lib.Session
import EidosDB.Lib.Triples
import EidosDB.Lib.Interleave
import EidosDB.Lib.Runs
import EidosDB.Lib.Scramble
import EidosDB.Lib.Simulation
import EidosDB.Lib.SharedObjects
import EidosDB.Core.Types
import EidosDB.Core.Flat
import EidosDB.Core.Double
import EidosDB.Hnsw.Graph
import EidosDB.Hnsw.Search
import EidosDB.Hnsw.Index
import EidosDB.Hnsw.BeamSpec
import EidosDB.Hnsw.GreedySpec
import EidosDB.Hnsw.Linking
import EidosDB.Hnsw.Invariant
import EidosDB.Hnsw.Steps
import EidosDB.Hnsw.Snapshot
import EidosDB.Hnsw.Reembed
import EidosDB.Hnsw.Damaged
import EidosDB.Hnsw.Sound
import EidosDB.Hnsw.Descent
import EidosDB.Hnsw.Selection
import EidosDB.Hnsw.BeamBest
import EidosDB.Hnsw.Sampler
import EidosDB.Hnsw.Connectivity
import EidosDB.Hnsw.Exact
import EidosDB.Lexical.Analyzer
import EidosDB.Lexical.Bm25
import EidosDB.Lexical.InMemory
import EidosDB.Lexical.Statistics
import EidosDB.Lexical.Tokens
import EidosDB.Lexical.Numbers
import EidosDB.Lexical.FusionOrder
import EidosDB.Lexical.ExactScores
import EidosDB.Query.Value
import EidosDB.Query.Filter
import EidosDB.Query.Ranges
import EidosDB.Query.Ports
import EidosDB.Query.Collection
import EidosDB.Query.Refinement
import EidosDB.Query.Rejected
import EidosDB.Query.Complement
import EidosDB.Storage.Error
import EidosDB.Storage.Manifest
import EidosDB.Storage.Postcard
import EidosDB.Storage.Segment
import EidosDB.Storage.SegmentSpec
import EidosDB.Storage.Catalog
import EidosDB.Storage.PersistentFlat
import EidosDB.Storage.Ledger
import EidosDB.Storage.FlatSteps
import EidosDB.Storage.FlatWrites
import EidosDB.Storage.FlatRefines
import EidosDB.Storage.FlatCrash
import EidosDB.Storage.HnswTables
import EidosDB.Storage.HnswRows
import EidosDB.Storage.PersistentHnsw
import EidosDB.Storage.HnswSteps
import EidosDB.Storage.HnswReload
import EidosDB.Storage.HnswPlacement
import EidosDB.Storage.HnswCrash
import EidosDB.Storage.PersistentLexical
import EidosDB.Storage.LexicalRows
import EidosDB.Storage.LexicalParity
import EidosDB.Storage.LexicalSearch
import EidosDB.Storage.SegmentTrace
import EidosDB.Storage.SegmentOpen
import EidosDB.Storage.Formats
import EidosDB.Storage.FlatTrace
import EidosDB.Storage.FlatCreation
import EidosDB.Storage.FlatHistory
import EidosDB.Storage.FlatCompaction
import EidosDB.Storage.FlatFailedInsert
import EidosDB.Storage.HnswTrace
import EidosDB.Storage.HnswCreation
import EidosDB.Storage.HnswAnswers
import EidosDB.Storage.HnswFailedWrite
import EidosDB.Storage.LexicalFaults
import EidosDB.Storage.PayloadFaults
import EidosDB.Storage.StandIns
import EidosDB.Query.Overwrite
import EidosDB.Query.Hybrid
import EidosDB.Query.StandIns
import EidosDB.Proto.Status
import EidosDB.Proto.Convert
import EidosDB.Proto.RoundTrip
import EidosDB.Proto.Search
import EidosDB.Proto.Requests
import EidosDB.Server.Service
import EidosDB.Server.Upserts
import EidosDB.Server.Requests
import EidosDB.Storage.Reopening
import EidosDB.Server.CollectionDir
import EidosDB.Server.Registry
import EidosDB.Server.Opening
import EidosDB.Server.Encodings
import EidosDB.Server.RegistrySteps
import EidosDB.Server.Layout
import EidosDB.Server.Races
import EidosDB.Server.Reload
import EidosDB.Server.FailedCreate
import EidosDB.Server.Daemon
import EidosDB.Server.Database
import EidosDB.Server.CallParity
import EidosDB.Server.StoreParity
import EidosDB.Server.Holdings
import EidosDB.Server.DaemonParity
import EidosDB.Server.Concurrent
import EidosDB.Client.Client
import EidosDB.Client.Direct
import EidosDB.Client.Messages
import EidosDB.Client.Sessions
import EidosDB.Client.Maps
