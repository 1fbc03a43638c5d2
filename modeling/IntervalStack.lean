import IntervalStack.Command.Basic
import IntervalStack.Main
import IntervalStack.Proofs.Acceptance.Program
import IntervalStack.Proofs.Allocator.Access
import IntervalStack.Proofs.Allocator.Canonical
import IntervalStack.Proofs.Bounds.ReadBack
import IntervalStack.Proofs.Building.Session
import IntervalStack.Proofs.Comparison
import IntervalStack.Proofs.Drain.Call
import IntervalStack.Proofs.Drain.Kinds
import IntervalStack.Proofs.Drain.Nesting
import IntervalStack.Proofs.Drain.Order
import IntervalStack.Proofs.Drain.Sessions
import IntervalStack.Proofs.Evaluation.Scalars
import IntervalStack.Proofs.Frames.Call
import IntervalStack.Proofs.Frames.Cells
import IntervalStack.Proofs.Frames.Params
import IntervalStack.Proofs.HandOver.Program
import IntervalStack.Proofs.Integrity
import IntervalStack.Proofs.Linking.Machine
import IntervalStack.Proofs.Neutral.Program
import IntervalStack.Proofs.Pending.Program
import IntervalStack.Proofs.Policing
import IntervalStack.Proofs.Printing.Intervals
import IntervalStack.Proofs.Releases.Paths
import IntervalStack.Proofs.Shapes.Program
import IntervalStack.Proofs.Totality.Sizes
import IntervalStack.Tree.Builder
import IntervalStack.Tree.Encode
import IntervalStack.Tree.Equality
import IntervalStack.Proofs.Printing.Formats
import IntervalStack.Proofs.Utf8
import IntervalStack.Proofs.DataSegment
import IntervalStack.Proofs.Printing.Rendering
import IntervalStack.Proofs.Printing.Characters
import IntervalStack.Proofs.StepLimit
import IntervalStack.Proofs.Settings.FirstFrame
import IntervalStack.Proofs.Settings.Lines
import IntervalStack.Proofs.Settings.Reading
import IntervalStack.Proofs.Decimals.Basic
import IntervalStack.Proofs.Decimals.Written
import IntervalStack.Proofs.Decimals.SixDigits
import IntervalStack.Proofs.Decimals.General
import IntervalStack.Proofs.Decimals.Shortest
import IntervalStack.Proofs.Decimals.Text
import IntervalStack.Proofs.Listing.Escape
import IntervalStack.Proofs.Listing.Text
import IntervalStack.Proofs.Allocator.Access
import IntervalStack.Proofs.Building.Reuse
