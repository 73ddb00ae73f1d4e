import MailBridge.Ordered.Key
import MailBridge.Ordered.Set
import MailBridge.Ordered.Map
import MailBridge.Text.Blank
import MailBridge.Text.Caseless
import MailBridge.Text.Decimal
import MailBridge.Text.Pieces
import MailBridge.FloatFormat
import MailBridge.Identifier
import MailBridge.Flag
import MailBridge.Flag.Set
import MailBridge.Flag.Merge
import MailBridge.Date
import MailBridge.Date.Reader
import MailBridge.Envelope
import MailBridge.Message
import MailBridge.MessageStore
import MailBridge.SequenceSet
import MailBridge.SequenceSet.Reader
import MailBridge.UidSpace
import MailBridge.Snapshot
import MailBridge.Mailbox
import MailBridge.Mailbox.Summary
import MailBridge.Mailbox.Unsaved
import MailBridge.Mailbox.Error
import MailBridge.Mailbox.Update
import MailBridge.Mailbox.Integrity
import MailBridge.Mailbox.Operation
import MailBridge.Cache.Error
import MailBridge.Cache.Numeral
import MailBridge.Cache.Cell
import MailBridge.Cache.Table
import MailBridge.Cache.Codec
import MailBridge.Cache.Place
import MailBridge.SharedMailbox
import MailBridge.Document
import MailBridge.Document.Reader
import MailBridge.Digest.Md5
import MailBridge.Settings.Retry
import MailBridge.Settings
import MailBridge.Settings.Reader
import MailBridge.Remote.Message
import MailBridge.Remote.Script
import MailBridge.Sync.Correction
import MailBridge.Sync.Tally
import MailBridge.Sync.Notice
import MailBridge.Sync.Backoff
import MailBridge.Sync.Site
import MailBridge.Sync.Round
import MailBridge.Sync.Worker
import MailBridge.Search
import MailBridge.Session.Error
import MailBridge.Session.Selection
import MailBridge.Session.Changes
import MailBridge.Session.Command
import MailBridge.Session
import MailBridge.Account
import MailBridge.Account.Command
import MailBridge.Bridge
import MailBridge.Proofs.OrderedLaws
import MailBridge.Proofs.Ascending
import MailBridge.Proofs.Views
import MailBridge.Proofs.Store
import MailBridge.Proofs.Integrity
import MailBridge.Proofs.Edit
import MailBridge.Proofs.Change
import MailBridge.Proofs.Lineage
import MailBridge.Proofs.FlagLaws
import MailBridge.Proofs.Tending
import MailBridge.Proofs.Journal
import MailBridge.Proofs.Rollback
import MailBridge.Proofs.History
import MailBridge.Proofs.Standing
import MailBridge.Proofs.Engine
import MailBridge.Proofs.CatchUp
import MailBridge.Proofs.Attendance
import MailBridge.Proofs.Sessions
import MailBridge.Proofs.Poll
import MailBridge.Proofs.Mirror
import MailBridge.Proofs.Interleaving
import MailBridge.Proofs.Noting
import MailBridge.Proofs.WellKept
import MailBridge.Proofs.Roster
import MailBridge.Proofs.Meanwhile
import MailBridge.Proofs.Resync
import MailBridge.Proofs.Replay
import MailBridge.Proofs.DateText
import MailBridge.Proofs.FlagText
import MailBridge.Proofs.Rows
import MailBridge.Proofs.Tables
import MailBridge.Proofs.Saving
import MailBridge.Proofs.Persistence
import MailBridge.Proofs.Alone
import MailBridge.Proofs.Failure
import MailBridge.Proofs.Recovery
import MailBridge.Proofs.LocalFlags
import MailBridge.Proofs.Marks
import MailBridge.Proofs.Recent
import MailBridge.Proofs.Figures
import MailBridge.Proofs.Voided
import MailBridge.Proofs.Mending
import MailBridge.Proofs.Holding
import MailBridge.Proofs.Batches
import MailBridge.Proofs.Parallel
import MailBridge.Proofs.Sorting
import MailBridge.Proofs.Stamps
import MailBridge.Proofs.Stability
import MailBridge.Proofs.Retention
import MailBridge.Proofs.Registration
import MailBridge.Proofs.Occupancy
import MailBridge.Proofs.ReadOnly
import MailBridge.Proofs.Renewal
import MailBridge.Proofs.Amending
import MailBridge.Proofs.Gathering
import MailBridge.Proofs.Conformity
import MailBridge.Proofs.Undecryptable
import MailBridge.Proofs.Candor
import MailBridge.Proofs.Superseding
import MailBridge.Proofs.Growth
import MailBridge.Proofs.Selecting
import MailBridge.Proofs.Expansion
import MailBridge.Proofs.Waiting
import MailBridge.Proofs.Reloading
import MailBridge.Proofs.Corrections
import MailBridge.Proofs.Conflicts
import MailBridge.Proofs.Storing
import MailBridge.Proofs.Arrivals
import MailBridge.Proofs.Delays
import MailBridge.Proofs.Refetching
import MailBridge.Proofs.Precedence
import MailBridge.Proofs.OwnStores
