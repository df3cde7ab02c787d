import CachedViews.Sorted.Keys
import CachedViews.Sorted.Map
import CachedViews.Sorted.Set
import CachedViews.Number.Decimal
import CachedViews.Number.Scaled
import CachedViews.Number.Width
import CachedViews.Json.Text
import CachedViews.Json.Reader
import CachedViews.Uuid
import CachedViews.Sha256
import CachedViews.Text.Mask
import CachedViews.Text.Quoted
import CachedViews.Duration
import CachedViews.Entity.FieldDiff
import CachedViews.Error
import CachedViews.View
import CachedViews.Registry.Reads
import CachedViews.Registry.Calculation
import CachedViews.Sequence
import CachedViews.WriteStore
import CachedViews.WriteStore.Tables
import CachedViews.ReadStore.Packed
import CachedViews.Queue.Basic
import CachedViews.Queue.Failures
import CachedViews.Toml.Document
import CachedViews.Config.Document
import CachedViews.Config.Environment
import CachedViews.Embedding.Resolve
import CachedViews.Freshness
import CachedViews.Indexing
import CachedViews.Service.Entities
import CachedViews.Service.Open
import CachedViews.Service.Reindex
import CachedViews.WorkerPool
import CachedViews.Proofs.Freshness
import CachedViews.Proofs.Invalidation.Completeness
import CachedViews.Proofs.Queue
import CachedViews.Proofs.Convergence.Content
import CachedViews.Proofs.Convergence.ReverseLinks
import CachedViews.Proofs.WriteStore.Calls
import CachedViews.Proofs.Service.Projection
import CachedViews.Proofs.Service.Retention
import CachedViews.Proofs.Indexing.Watermark
import CachedViews.Proofs.Service.Interleaving
import CachedViews.Proofs.Service.Requeueing
import CachedViews.Proofs.Convergence.Unlisting
import CachedViews.Proofs.Indexing.Retrying
import CachedViews.Proofs.Embedding.Direct
import CachedViews.Proofs.Indexing.Regrouping
import CachedViews.Proofs.Convergence.Repair
import CachedViews.Proofs.ReadStore.Packing
import CachedViews.Proofs.Queue.Conservation
import CachedViews.Proofs.Queue.Lineup
import CachedViews.Proofs.Service.Watermarks
import CachedViews.Proofs.Indexing.Acknowledging
import CachedViews.Proofs.Indexing.Draining
import CachedViews.Proofs.Service.Purging
import CachedViews.Proofs.Service.Dropping
import CachedViews.Proofs.Service.Typing
import CachedViews.Proofs.Config.Domain
import CachedViews.Proofs.Service.Conflicts
import CachedViews.Proofs.WriteStore.Sheets
import CachedViews.Proofs.WriteStore.Runs
import CachedViews.Proofs.Entity.RoundTrip
import CachedViews.Proofs.Fingerprint
import CachedViews.Proofs.Registry.Pattern
import CachedViews.Proofs.Registry.PrefixTree
