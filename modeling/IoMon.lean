import IoMon.Merge.Trust
import IoMon.Merge.Narrowing
import IoMon.Merge.OrderFree
import IoMon.Shim.Vfork
import IoMon.Shim.RunStamp
import IoMon.Shim.InlineTraps
import IoMon.Shim.LibraryScan
import IoMon.Writer.KillHonesty
import IoMon.Host.WrittenFile
import IoMon.Host.SetDedup
import IoMon.File.Corruption
import IoMon.Shim.PodTables
import IoMon.Shim.ExecutableMappings
import IoMon.Shim.ChildEnv
import IoMon.File.VerdictOrder
import IoMon.Host.NestedCapture
import IoMon.Host.Lifecycle
import IoMon.Shim.FdReads
import IoMon.Shim.RawClassifier
import IoMon.DepReads
import IoMon.File.Render
import IoMon.File.ScopeStamps
import IoMon.Shim.WindowsChildEnv
import IoMon.Shim.WindowsListings
import IoMon.Shim.WindowsSpawn
import IoMon.Host.DescendantScan
import IoMon.Merge.RunSeparation
import IoMon.Merge.FoldLaws
import IoMon.Merge.LossSubjects
import IoMon.File.ProfileRoundTrip
import IoMon.Host.IsolatedEnv
import IoMon.Writer.RetiredFragment
import IoMon.Writer.ByteCap
import IoMon.Writer.Shutdown
import IoMon.Writer.Delivery
import IoMon.Host.RequestChannel
import IoMon.Host.CommandLine
import IoMon.Shim.PointerSessions
import IoMon.Host.DescendantGrace
import IoMon.Shim.CallerDlopen
import IoMon.Shim.Promotions
import IoMon.Shim.ProcessTree
import IoMon.Merge.TreeVerdict
