import Arborist.Text.Alphanumeric
import Arborist.Text.Blank
import Arborist.Text.BreakClass
import Arborist.Text.Cluster
import Arborist.Text.Columns
import Arborist.Text.Emoji
import Arborist.Text.Join
import Arborist.Text.Width
import Arborist.Number.Basic
import Arborist.Number.Decimal
import Arborist.Number.Layout
import Arborist.Value.Basic
import Arborist.Value.Reader
import Arborist.Value.Writer
import Arborist.Source.Line
import Arborist.Source.Mark
import Arborist.Source.Token
import Arborist.Script.Cursor
import Arborist.Script.Decode
import Arborist.Script.Encode
import Arborist.Script.Operator
import Arborist.Script.Parser
import Arborist.Script.Printer
import Arborist.Script.Source
import Arborist.Script.Tree
import Arborist.Node.Field
import Arborist.Node.Path
import Arborist.Widget.Input
import Arborist.Widget.Registry
import Arborist.View
import Arborist.Editor
import Arborist.Session
import Arborist.Screen.Cell
import Arborist.Screen.Glyph
import Arborist.Screen.Pane
import Arborist.Browser.Basic
import Arborist.Browser.Draw
import Arborist.Shell.Basic
import Arborist.Shell.Command
import Arborist.Cli.Arguments
import Arborist.Cli.Run
import Arborist.Cli.Typing
import Arborist.Main
import Arborist.Proofs.Number.Digits
import Arborist.Proofs.Number.Display
import Arborist.Proofs.Number.Forms
import Arborist.Proofs.Number.Nearest
import Arborist.Proofs.Number.Numeral
import Arborist.Proofs.Number.Rounding
import Arborist.Proofs.Number.Shortest
import Arborist.Proofs.Value.Nodes
import Arborist.Proofs.Source.Chunk
import Arborist.Proofs.Source.Continued
import Arborist.Proofs.Source.Counted
import Arborist.Proofs.Source.Lines
import Arborist.Proofs.Source.Lossless
import Arborist.Proofs.Source.Rescan
import Arborist.Proofs.Source.Search
import Arborist.Proofs.Source.Spelling
import Arborist.Proofs.Source.Standing
import Arborist.Proofs.Script.Addressed
import Arborist.Proofs.Script.Alike
import Arborist.Proofs.Script.Alone
import Arborist.Proofs.Script.Completeness
import Arborist.Proofs.Script.Content
import Arborist.Proofs.Script.Dangling
import Arborist.Proofs.Script.Decoded
import Arborist.Proofs.Script.DecodedStatements
import Arborist.Proofs.Script.Edited
import Arborist.Proofs.Script.EditedPrinting
import Arborist.Proofs.Script.EditedRoundTrip
import Arborist.Proofs.Script.Fields
import Arborist.Proofs.Script.FixedPoint
import Arborist.Proofs.Script.Frame
import Arborist.Proofs.Script.Grammar
import Arborist.Proofs.Script.Grouping
import Arborist.Proofs.Script.Layout
import Arborist.Proofs.Script.Literals
import Arborist.Proofs.Script.Loaded
import Arborist.Proofs.Script.Locality
import Arborist.Proofs.Script.Lockstep
import Arborist.Proofs.Script.Lookahead
import Arborist.Proofs.Script.Machine
import Arborist.Proofs.Script.Matched
import Arborist.Proofs.Script.Moved
import Arborist.Proofs.Script.Neighbours
import Arborist.Proofs.Script.Normal
import Arborist.Proofs.Script.Notes
import Arborist.Proofs.Script.Outline
import Arborist.Proofs.Script.Parsed
import Arborist.Proofs.Script.Parts
import Arborist.Proofs.Script.Printed
import Arborist.Proofs.Script.PrintedStatements
import Arborist.Proofs.Script.Progress
import Arborist.Proofs.Script.Quoted
import Arborist.Proofs.Script.Reading
import Arborist.Proofs.Script.Refused
import Arborist.Proofs.Script.Registered
import Arborist.Proofs.Script.Reread
import Arborist.Proofs.Script.RoundTrip
import Arborist.Proofs.Script.Rows
import Arborist.Proofs.Script.Shape
import Arborist.Proofs.Script.Simulated
import Arborist.Proofs.Script.SimulatedStatements
import Arborist.Proofs.Script.Soundness
import Arborist.Proofs.Script.Spacing
import Arborist.Proofs.Script.Spans
import Arborist.Proofs.Script.StatementCompleteness
import Arborist.Proofs.Script.StatementLayout
import Arborist.Proofs.Script.StatementLockstep
import Arborist.Proofs.Script.StatementSoundness
import Arborist.Proofs.Script.Unplaced
import Arborist.Proofs.Script.Unread
import Arborist.Proofs.Script.Valueless
import Arborist.Proofs.Script.Viable
import Arborist.Proofs.Script.ViableStatements
import Arborist.Proofs.Node.Focus
import Arborist.Proofs.Node.Slots
import Arborist.Proofs.Node.Target
import Arborist.Proofs.Node.Written
import Arborist.Proofs.Widget.Keyed
import Arborist.Proofs.Widget.Response
import Arborist.Proofs.Widget.Sent
import Arborist.Proofs.View.Collapse
import Arborist.Proofs.View.Expansion
import Arborist.Proofs.View.Mounted
import Arborist.Proofs.View.Shown
import Arborist.Proofs.View.Spots
import Arborist.Proofs.Editor.History
import Arborist.Proofs.Editor.Queue
import Arborist.Proofs.Session.Browsing
import Arborist.Proofs.Session.FrontEnds
import Arborist.Proofs.Session.Listing
import Arborist.Proofs.Session.Refusal
import Arborist.Proofs.Session.Settled
import Arborist.Proofs.Shell.Typed
