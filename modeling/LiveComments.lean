import LiveComments.Archive.Database
import LiveComments.Archive.Script
import LiveComments.Archive.Storage
import LiveComments.Json.Printer
import LiveComments.Proofs.Hub.Delivery
import LiveComments.Proofs.Mirror
import LiveComments.Proofs.Confidential
import LiveComments.Service
import LiveComments.Settings
import LiveComments.User.Directory
import LiveComments.Proofs.Comment.Lifecycle
import LiveComments.Proofs.Routing
import LiveComments.Proofs.Overlap
import LiveComments.Proofs.Agreement
import LiveComments.Proofs.Authorship
import LiveComments.Proofs.Comment.History
import LiveComments.Proofs.Crossing
import LiveComments.Proofs.Sending
import LiveComments.Proofs.Command
import LiveComments.Proofs.Answer
import LiveComments.Proofs.Watch
import LiveComments.Proofs.Rounds
import LiveComments.Proofs.Desk
import LiveComments.Proofs.Hub.Upkeep
import LiveComments.Proofs.Removal
import LiveComments.Proofs.User.Lookup
import LiveComments.Proofs.User.Repair
import LiveComments.Proofs.Discretion
import LiveComments.Proofs.Hub.Window
import LiveComments.Proofs.Comment.Paging
import LiveComments.Proofs.Listing
import LiveComments.Proofs.Archive.Server
import LiveComments.Proofs.Archive.Stored
import LiveComments.Proofs.Archive.Refinement
import LiveComments.Proofs.User.Chain
import LiveComments.Proofs.User.Directory
import LiveComments.Proofs.Token.Acceptance
import LiveComments.Proofs.Token.Subject
import LiveComments.Proofs.Hub.Retention
import LiveComments.Proofs.Comment.Query
import LiveComments.Proofs.Frame
import LiveComments.Proofs.Service
