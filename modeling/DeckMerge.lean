import DeckMerge.Text.Utf8
import DeckMerge.Text.Letter
import DeckMerge.Text.Digit
import DeckMerge.Json.Writer
import DeckMerge.Json.Reader
import DeckMerge.Markup.Escape
import DeckMerge.Markup.Line
import DeckMerge.Placeholder.Expansion
import DeckMerge.Log
import DeckMerge.Part
import DeckMerge.Candidate.Intake
import DeckMerge.Candidate.Summary
import DeckMerge.Deck.Page
import DeckMerge.Package.Validation
import DeckMerge.Package.Registry
import DeckMerge.Deck.Delivery
import DeckMerge.Deck.Presets
import DeckMerge.CommandLine.Run
import DeckMerge.Main
import DeckMerge.Proofs.Placeholder.Token
import DeckMerge.Proofs.Placeholder.Cleanup
import DeckMerge.Proofs.Placeholder.Tree
import DeckMerge.Proofs.Placeholder.Unrolling
import DeckMerge.Proofs.Placeholder.Slots
import DeckMerge.Proofs.Placeholder.Expansion
import DeckMerge.Proofs.Placeholder.Shape
import DeckMerge.Proofs.Markup.Escape
import DeckMerge.Proofs.Markup.Line
import DeckMerge.Proofs.Markup.Breaks
import DeckMerge.Proofs.Text.Occurrence
import DeckMerge.Proofs.Text.Seam
import DeckMerge.Proofs.Text.Forms
import DeckMerge.Proofs.Placeholder.Places
import DeckMerge.Proofs.Run.Filling
import DeckMerge.Proofs.Run.Tag
import DeckMerge.Proofs.Run.Site
import DeckMerge.Proofs.Run.Plain
import DeckMerge.Proofs.Run.Stages
import DeckMerge.Proofs.Run.Lines
import DeckMerge.Proofs.Run.Properties
import DeckMerge.Proofs.Run.Formatting
import DeckMerge.Proofs.Run.Composition
import DeckMerge.Proofs.Run.TextRun
import DeckMerge.Proofs.Run.Reading
import DeckMerge.Proofs.Run.Ranges
import DeckMerge.Proofs.Run.Spanning
import DeckMerge.Proofs.Run.Joins
import DeckMerge.Proofs.Run.Groups
import DeckMerge.Proofs.Run.Joining
import DeckMerge.Proofs.Deck.Paging
import DeckMerge.Proofs.Package.Store
import DeckMerge.Proofs.Package.Registry
import DeckMerge.Proofs.Deck.Workers
import DeckMerge.Proofs.Deck.Placement
import DeckMerge.Proofs.Part
import DeckMerge.Proofs.Deck.Plan
import DeckMerge.Proofs.Deck.Rendering
import DeckMerge.Proofs.Deck.Validation
import DeckMerge.Proofs.Zip.Bits
import DeckMerge.Proofs.Zip.Inflate
import DeckMerge.Proofs.Zip.Record
import DeckMerge.Proofs.Zip.Container
import DeckMerge.Proofs.Package.Reopening
import DeckMerge.Proofs.Text.Replacing
import DeckMerge.Proofs.Xml.Node
import DeckMerge.Proofs.Xml.Refusal
import DeckMerge.Proofs.Deck.Frame
import DeckMerge.Proofs.Deck.Delivery
import DeckMerge.Proofs.Package.Consistency
import DeckMerge.Proofs.Deck.Conversion
import DeckMerge.Proofs.Deck.ShowOrder
import DeckMerge.Proofs.Package.Calls
import DeckMerge.Proofs.Package.RoundTrip
import DeckMerge.Proofs.Json.RoundTrip
import DeckMerge.Proofs.EventLog
import DeckMerge.Proofs.Placeholder.Pairing
import DeckMerge.Proofs.Run.Document
import DeckMerge.Proofs.Placeholder.Spans
import DeckMerge.Proofs.Placeholder.Layout
import DeckMerge.Proofs.Run.Detection
import DeckMerge.Proofs.CommandLine.Inspection
import DeckMerge.Proofs.Run.Dissection
import DeckMerge.Proofs.Deck.Pagination
import DeckMerge.Proofs.Deck.Separation
import DeckMerge.Proofs.Package.Atomicity
import DeckMerge.Proofs.Markup.Entity
import DeckMerge.Proofs.EventLog.Window
import DeckMerge.Proofs.Deck.Slots
import DeckMerge.Proofs.Deck.Untouched
import DeckMerge.Proofs.Candidate.Record
import DeckMerge.Proofs.Candidate.Nulls
import DeckMerge.Proofs.Text.Case
import DeckMerge.Proofs.Candidate.Roles
import DeckMerge.Proofs.Candidate.Intake
import DeckMerge.Proofs.Deck.Parallel
import DeckMerge.Proofs.Deck.Resolution
