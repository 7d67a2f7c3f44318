import Logbook.Text.Blank
import Logbook.Text.Digits
import Logbook.Text.Letter
import Logbook.Text.Utf8
import Logbook.Json.Basic
import Logbook.Json.Printer
import Logbook.Json.Numeral
import Logbook.Json.Reader
import Logbook.Error
import Logbook.Severity
import Logbook.Color
import Logbook.Time.Calendar
import Logbook.Time.Instant
import Logbook.Time.Format
import Logbook.Path
import Logbook.LogPath
import Logbook.Caller
import Logbook.Template.Basic
import Logbook.Template.Compile
import Logbook.Template.Cache
import Logbook.Category
import Logbook.HostColors
import Logbook.Configuration.Basic
import Logbook.Configuration.Json
import Logbook.Decision
import Logbook.Console
import Logbook.Metrics
import Logbook.Patch
import Logbook.Store
import Logbook.Routing
import Logbook.FileSystem
import Logbook.Sink
import Logbook.Logger
import Logbook.Session
import Logbook.Proofs.Text.Blank
import Logbook.Proofs.Json.Printed
import Logbook.Proofs.Since
import Logbook.Proofs.Path.Joined
import Logbook.Proofs.Path.Parts
import Logbook.Proofs.Text.Columns
import Logbook.Proofs.Time.Days
import Logbook.Proofs.Time.Stamp
import Logbook.Proofs.Time.Pieces
import Logbook.Proofs.Time.Chronology
import Logbook.Proofs.Time.Widths
import Logbook.Proofs.LogPath
import Logbook.Proofs.LogPath.Under
import Logbook.Proofs.Category.Valid
import Logbook.Proofs.Category.Tidy
import Logbook.Proofs.Category.Calls
import Logbook.Proofs.Category.Listed
import Logbook.Proofs.Category.Spelling
import Logbook.Proofs.Names
import Logbook.Proofs.Json.Refused
import Logbook.Proofs.Configuration.Printed
import Logbook.Proofs.Store.Updates
import Logbook.Proofs.Store.History
import Logbook.Proofs.Store.Epochs
import Logbook.Proofs.Store.Derived
import Logbook.Proofs.Template.Rendering
import Logbook.Proofs.Template.Fields
import Logbook.Proofs.Template.Cache
import Logbook.Proofs.Template.Evictions
import Logbook.Proofs.Template.Placeholder
import Logbook.Proofs.Template.Pieces
import Logbook.Proofs.Submission
import Logbook.Proofs.Routing.Plain
import Logbook.Proofs.Routing.Dated
import Logbook.Proofs.Routing.Colors
import Logbook.Proofs.FileSystem.Contents
import Logbook.Proofs.Session.Steps
import Logbook.Proofs.Session.Lines
import Logbook.Proofs.Patch
import Logbook.Proofs.Store.Valid
import Logbook.Proofs.Store.Alike
import Logbook.Proofs.Patch.Changes
import Logbook.Proofs.Store.Batch
import Logbook.Proofs.Session.Updates
import Logbook.Proofs.Session.Suppression
import Logbook.Proofs.Session.Marks
import Logbook.Proofs.Session.Flushes
import Logbook.Proofs.Session.Places
import Logbook.Proofs.Session.Saved
import Logbook.Proofs.Desk.Runs
import Logbook.Proofs.Desk.Accounts
import Logbook.Proofs.Desk.Caches
import Logbook.Proofs.Configuration.Drafts
