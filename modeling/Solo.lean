import Solo.Api.BrowserBoundary
import Solo.Api.GraphEdges
import Solo.Api.GraphNodes
import Solo.Asset.Agree
import Solo.Backup.Reopen
import Solo.Backup.RoundTrip
import Solo.Derived.Atomic
import Solo.Derived.Claims
import Solo.Derived.Commits
import Solo.Derived.Coverage
import Solo.Derived.Decisions
import Solo.Derived.DryRun
import Solo.Derived.EntityIds
import Solo.Derived.Erasure
import Solo.Derived.ErasureRetry
import Solo.Derived.Fixpoint
import Solo.Derived.GatesAgree
import Solo.Derived.Mirror
import Solo.Derived.OnceDecided
import Solo.Derived.Reabstract
import Solo.Derived.Renaming
import Solo.Events.Ordered
import Solo.Hnsw.IndexMap
import Solo.Hook.Context
import Solo.Hook.MergeRuns
import Solo.Hook.Rpc
import Solo.Import.Bookmarks
import Solo.Import.Schema
import Solo.Import.Transcript
import Solo.Ingest.Band
import Solo.Ingest.Cards
import Solo.Ingest.Containers
import Solo.Ingest.Secrets
import Solo.Lib.FileTree
import Solo.Lib.Keyset
import Solo.Lib.Replace
import Solo.LogTail.Rounds
import Solo.Query.FactsAbout
import Solo.Query.GraphPaths
import Solo.Query.PathRanking
import Solo.Query.Starve
import Solo.Sampling.Answers
import Solo.Setup.Transaction
import Solo.Steward.Absorb
import Solo.Steward.MergeKeeps
import Solo.Steward.Ranks
import Solo.Steward.Reruns
import Solo.Store.Documents
import Solo.Store.Interleaving
import Solo.Store.LazyOpen
import Solo.Store.Lockfile
import Solo.Store.Migration
import Solo.Store.Promote
import Solo.Store.PromoteLayout
import Solo.Store.PromoteRuns
import Solo.Store.PromoteStages
import Solo.Store.Reembed
import Solo.Store.RememberBatch
import Solo.Task.Final
import Solo.Update.Evaluate
import Solo.Upload.Resume
import Solo.Upload.Versions
