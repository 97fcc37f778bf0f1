import OverloadDocs.Main
import OverloadDocs.Proofs.FailedRun
import OverloadDocs.Proofs.Identity
import OverloadDocs.Proofs.Incremental
import OverloadDocs.Proofs.IndexTables
import OverloadDocs.Proofs.Loading
import OverloadDocs.Proofs.Reindexing
import OverloadDocs.Proofs.Reloading
import OverloadDocs.Proofs.Remembering
import OverloadDocs.Service.Call
import OverloadDocs.Index.Shared
import OverloadDocs.Proofs.FirstDefinitions
import OverloadDocs.Proofs.RowRoundTrip
import OverloadDocs.Proofs.BlockComments
import OverloadDocs.Proofs.LookUps
import OverloadDocs.Proofs.Roots
import OverloadDocs.Proofs.Serving
import OverloadDocs.Proofs.ReferenceSearch
import OverloadDocs.Proofs.Spellings
import OverloadDocs.Proofs.ErrorPositions
import OverloadDocs.Proofs.Accounting
import OverloadDocs.Proofs.Watching
import OverloadDocs.Proofs.Transactions
import OverloadDocs.Proofs.Lines
import OverloadDocs.Proofs.Attachment
import OverloadDocs.Proofs.Bodies
import OverloadDocs.Proofs.Fusion
import OverloadDocs.Proofs.Relevance
import OverloadDocs.Proofs.Respelling
import OverloadDocs.Proofs.SharedPatterns
import OverloadDocs.Proofs.Selecting
import OverloadDocs.Proofs.Batching
import OverloadDocs.Proofs.MemberLists
import OverloadDocs.Proofs.EmptyQueries
import OverloadDocs.Proofs.ResultTexts
import OverloadDocs.Proofs.AnyDepth
import OverloadDocs.Proofs.Folding
