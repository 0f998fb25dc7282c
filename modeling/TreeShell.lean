import TreeShell.Main
import TreeShell.Interpreter.Recipe
import TreeShell.Tree.Listing
import TreeShell.Proofs.Path.Ancestors
import TreeShell.Proofs.Path.Parents
import TreeShell.Proofs.Tree.Entries
import TreeShell.Proofs.Tree.Trails
import TreeShell.Proofs.Tree.Passages
import TreeShell.Proofs.Computation
import TreeShell.Proofs.Disk.Frame
import TreeShell.Proofs.Command.Shapes
import TreeShell.Proofs.Disk.Calls
import TreeShell.Proofs.Disk.Removal
import TreeShell.Proofs.Interpreter.Lines
import TreeShell.Proofs.Interpreter.Sessions
import TreeShell.Proofs.Disk.Copy
import TreeShell.Proofs.Interpreter.RootGuard
import TreeShell.Proofs.Command.Steps
import TreeShell.Proofs.Command.Truncation
import TreeShell.Proofs.Command.Failures
import TreeShell.Proofs.Interpreter.Truncation
import TreeShell.Proofs.Command.Records
import TreeShell.Proofs.Interpreter.Turns
import TreeShell.Proofs.Disk.CopyInside
import TreeShell.Proofs.Disk.TreeRemoval
import TreeShell.Proofs.Interpreter.AllOrNothing
import TreeShell.Proofs.Interpreter.ChangeDirectory
import TreeShell.Proofs.Interpreter.Frame
import TreeShell.Proofs.Interpreter.ParentDirectory
import TreeShell.Proofs.Interpreter.FailedRemoval
import TreeShell.Proofs.Interpreter.BrokenStreams
import TreeShell.Proofs.Disk.CopyFile
import TreeShell.Proofs.Disk.ReadBack
import TreeShell.Proofs.Interpreter.Redirections
import TreeShell.Proofs.Tree.Deeds
import TreeShell.Proofs.Command.Effects
import TreeShell.Proofs.Interpreter.Effects
import TreeShell.Proofs.Disk.Locality
import TreeShell.Proofs.Shell.Upshot
import TreeShell.Proofs.Command.Upshots
import TreeShell.Proofs.Interpreter.PathPolicy
import TreeShell.Proofs.Disk.SingleEntry
import TreeShell.Proofs.Interpreter.MissingFiles
import TreeShell.Proofs.Disk.FreshCopy
import TreeShell.Proofs.Text.Layout
import TreeShell.Proofs.Text.Decoding
import TreeShell.Proofs.Interpreter.ByteInput
import TreeShell.Proofs.Interpreter.Counting
import TreeShell.Proofs.Disk.ManyDirs
import TreeShell.Proofs.Interpreter.MakingDirectories
import TreeShell.Proofs.Interpreter.PrintingFiles
import TreeShell.Proofs.Interpreter.LineSources
import TreeShell.Proofs.Interpreter.DownAndUp
import TreeShell.Proofs.Tree.Endings
import TreeShell.Proofs.Disk.Undoing
import TreeShell.Proofs.Interpreter.CreatingAndRemoving
import TreeShell.Proofs.Interpreter.QuotedMessages
import TreeShell.Proofs.Interpreter.Registration
import TreeShell.Proofs.Text.ByteOrder
import TreeShell.Proofs.Disk.Listing
import TreeShell.Proofs.Interpreter.ListingNames
import TreeShell.Proofs.Path.Absolute
import TreeShell.Proofs.Tree.IdlePieces
import TreeShell.Proofs.Program.StartDirectory
import TreeShell.Proofs.Shell.Recovery
import TreeShell.Proofs.Disk.Worklist
import TreeShell.Proofs.Disk.Snapshot
