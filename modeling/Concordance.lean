import Concordance.Text.Blank
import Concordance.Text.Cluster
import Concordance.Text.Lowercase
import Concordance.Text.Quoted
import Concordance.Text.Utf8
import Concordance.Json.Reader
import Concordance.Query
import Concordance.Schema.Json
import Concordance.Options
import Concordance.Buffer
import Concordance.Table
import Concordance.Postings
import Concordance.ResultTable
import Concordance.Database.Define
import Concordance.Database.Records
import Concordance.Database.Remove
import Concordance.Database.Search
import Concordance.Database.Update
import Concordance.IndexColumn.Assign
import Concordance.IndexColumn.Search
import Concordance.IndexColumn.Sources
import Concordance.Snapshot
import Concordance.Proofs.Checksums
import Concordance.Proofs.Codecs
import Concordance.Proofs.Maintenance
import Concordance.Proofs.OutgrownPlaces
import Concordance.Proofs.SnapshotFiles
import Concordance.Proofs.Images
import Concordance.Proofs.Restoring
import Concordance.Proofs.Snapshots
import Concordance.Proofs.PairSearch
import Concordance.Proofs.FailedSearches
import Concordance.Proofs.SourceKeys
import Concordance.Proofs.Integrity
import Concordance.Proofs.Refusals
import Concordance.Proofs.LivePostings
import Concordance.Proofs.Ids
import Concordance.Proofs.Independence
import Concordance.Proofs.StoredTexts
import Concordance.Proofs.Mirroring
import Concordance.Proofs.Scanning
import Concordance.Proofs.SourceLists
import Concordance.Proofs.Cancelling
import Concordance.Proofs.Orders
import Concordance.Proofs.NewTerms
import Concordance.Proofs.Renaming
import Concordance.Proofs.FeedOrder
import Concordance.Proofs.SourceOrder
import Concordance.Proofs.RemovalOrder
import Concordance.Proofs.CallOrder
import Concordance.Proofs.Merging
import Concordance.Proofs.CompiledQueries
import Concordance.Proofs.TermSearch
import Concordance.Proofs.Erasing
import Concordance.Proofs.AcceptedValues
import Concordance.Proofs.LooserModes
import Concordance.Proofs.Sections
import Concordance.Proofs.Departures
import Concordance.Proofs.KeyLimits
import Concordance.Proofs.Reporting
import Concordance.Proofs.Forgetting
import Concordance.Proofs.Ownership
import Concordance.Proofs.PostingRuns
import Concordance.Proofs.KeyRanges
import Concordance.Proofs.ItemPositions
import Concordance.Proofs.PairRuns
import Concordance.Proofs.GluedItems
