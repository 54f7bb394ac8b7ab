import SmallScheme.Editor.Workspace
import SmallScheme.Main
import SmallScheme.Session.CommandLine
import SmallScheme.Proofs.FrameIsolation
import SmallScheme.Proofs.Placeholders
import SmallScheme.Proofs.ReachableHeaps
import SmallScheme.Proofs.Replay
import SmallScheme.Proofs.ReaderStates
import SmallScheme.Proofs.PrintRead
import SmallScheme.Proofs.QuoteParts
import SmallScheme.Proofs.Definitions
import SmallScheme.Proofs.Diagnostics
import SmallScheme.Proofs.Sessions
import SmallScheme.Proofs.Copies
import SmallScheme.Proofs.Names
import SmallScheme.Proofs.LetAsCall
import SmallScheme.Proofs.DefinedNames
import SmallScheme.Proofs.ReadLoops
import SmallScheme.Proofs.Termination
import SmallScheme.Proofs.DocumentStore
import SmallScheme.Proofs.Division
import SmallScheme.Proofs.Comparisons
import SmallScheme.Proofs.Connectives
import SmallScheme.Proofs.ScopeHistory
import SmallScheme.Proofs.Hover
import SmallScheme.Proofs.BlankLines
import SmallScheme.Proofs.ReadingOrder
import SmallScheme.Proofs.Nesting
import SmallScheme.Proofs.ProblemRanges
import SmallScheme.Proofs.Tolerance
import SmallScheme.Proofs.Cuts
import SmallScheme.Proofs.CursorWords
import SmallScheme.Proofs.Offsets
