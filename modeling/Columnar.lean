import Columnar.Bitmap
import Columnar.Bitmap.Lemmas
import Columnar.Block.Basic
import Columnar.Block.Grid
import Columnar.Column.Basic
import Columnar.Column.Error
import Columnar.Column.Fixed
import Columnar.Column.Flags
import Columnar.Column.Lemmas
import Columnar.Column.Render
import Columnar.Column.Text
import Columnar.Column.Text.Lemmas
import Columnar.DataType
import Columnar.Decimal.Shortest
import Columnar.Decimal.Style
import Columnar.KeyTable.Basic
import Columnar.KeyTable.ColumnKeys
import Columnar.KeyTable.Config
import Columnar.KeyTable.Event
import Columnar.KeyTable.KeyOps
import Columnar.KeyTable.Segment
import Columnar.KeyTable.Slot
import Columnar.Number.Double
import Columnar.Number.Format
import Columnar.Number.Single
import Columnar.Proofs.Checked
import Columnar.Proofs.Columns
import Columnar.Proofs.Columns.Appended
import Columnar.Proofs.Columns.Lists
import Columnar.Proofs.Columns.Spans
import Columnar.Proofs.KeyTable.Calls
import Columnar.Proofs.KeyTable.Chains
import Columnar.Proofs.KeyTable.Find
import Columnar.Proofs.KeyTable.Insert
import Columnar.Proofs.KeyTable.Layout
import Columnar.Proofs.KeyTable.Occupied
import Columnar.Proofs.KeyTable.Put
import Columnar.Proofs.KeyTable.Reachable
import Columnar.Proofs.KeyTable.Slots
import Columnar.Proofs.KeyTable.Sound
import Columnar.Proofs.Rows
import Columnar.Proofs.Window.Advance
import Columnar.Proofs.Window.Groups
import Columnar.Proofs.Window.Located
import Columnar.Proofs.Window.Places
import Columnar.Proofs.Window.Processed
import Columnar.Proofs.Window.Progress
import Columnar.Proofs.Window.Rows
import Columnar.Proofs.Window.Schedules
import Columnar.Proofs.Window.Sessions
import Columnar.Proofs.Window.Tallies
import Columnar.Proofs.Window.Written
import Columnar.Scalar
import Columnar.Text.CharWidth
import Columnar.Text.Emoji
import Columnar.Text.Ligature
import Columnar.Text.LineWidth
import Columnar.Text.Plain
import Columnar.Trap
import Columnar.Window.Aggregate
import Columnar.Window.ColumnFrames
import Columnar.Window.Engine
import Columnar.Window.Partition
import Columnar.Window.Ranking
import Columnar.Proofs.KeyTable.Effects
import Columnar.Proofs.KeyTable.Keys
import Columnar.Proofs.KeyTable.Output
import Columnar.Proofs.KeyTable.Content
import Columnar.Proofs.KeyTable.Portions
import Columnar.Proofs.KeyTable.Transparent
import Columnar.Proofs.KeyTable.Room
import Columnar.Proofs.KeyTable.Grouping
import Columnar.Proofs.Window.Aggregates
import Columnar.Proofs.KeyTable.Logs
import Columnar.Proofs.KeyTable.Stable
import Columnar.Proofs.KeyTable.Joining
import Columnar.Proofs.Window.Comparisons
import Columnar.Proofs.Window.Counters
import Columnar.Proofs.Window.Steps
import Columnar.Proofs.Window.Sight
import Columnar.Proofs.Window.AnyOrder
import Columnar.Proofs.Window.Lookahead
import Columnar.Proofs.KeyTable.Charges
import Columnar.Proofs.KeyTable.Refused
import Columnar.Proofs.KeyTable.Leftovers
import Columnar.Proofs.Window.Observed
import Columnar.Proofs.Window.FrameCalls
import Columnar.Proofs.Window.Noted
import Columnar.Proofs.Window.ExactlyOnce
import Columnar.Proofs.Window.Refusals
import Columnar.Proofs.Window.Overflow
import Columnar.Proofs.KeyTable.InRange
import Columnar.Proofs.Bitmaps
import Columnar.Proofs.KeyTable.Growth
import Columnar.Proofs.KeyTable.Emitted
import Columnar.Proofs.KeyTable.Contract
import Columnar.Proofs.KeyTable.Destinations
import Columnar.Proofs.KeyTable.Addresses
import Columnar.Proofs.Window.LateLength
import Columnar.Proofs.KeyTable.Cleared
import Columnar.Proofs.KeyTable.Segments
