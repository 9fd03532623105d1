import SlopOS.Proofs.Descriptors
import SlopOS.Proofs.ElfBounds
import SlopOS.Proofs.Delivery
import SlopOS.Proofs.ServiceTable
import SlopOS.Proofs.DiscReads
import SlopOS.Proofs.TouchedMemory
import SlopOS.Proofs.DiscNames
import SlopOS.Proofs.Mailboxes
import SlopOS.Proofs.TaskRuns
import SlopOS.Proofs.MountRuns
import SlopOS.Proofs.StoreRuns
import SlopOS.Proofs.EchoLines
import SlopOS.Proofs.DriveReads
import SlopOS.Proofs.InterruptRuns
import SlopOS.Proofs.Keystrokes
import SlopOS.Proofs.Spellings
import SlopOS.Proofs.Appends
import SlopOS.Support.PathText
import SlopOS.Support.Chains
import SlopOS.Proofs.HeapBlocks
import SlopOS.Proofs.MemStreams
import SlopOS.Proofs.FailedOpens
import SlopOS.Proofs.LoadedImages
import SlopOS.Proofs.SharedTable
import SlopOS.Proofs.Rollback
import SlopOS.Proofs.Closing
import SlopOS.Proofs.UserStrings
import SlopOS.Proofs.ChangingDirs
import SlopOS.Proofs.StatReads
import SlopOS.Proofs.ReferenceWalk
import SlopOS.Proofs.RecordBounds
import SlopOS.Proofs.TaskSlots
import SlopOS.Proofs.ResumeOrder
import SlopOS.Proofs.ArgStack
import SlopOS.Proofs.ProcLedger
import SlopOS.Proofs.ServiceSlots
import SlopOS.Proofs.Tokens
import SlopOS.Proofs.PrintfBuffer
import SlopOS.Proofs.OutputCalls
import SlopOS.Proofs.Vsnprintf
import SlopOS.Proofs.Strtol
import SlopOS.Proofs.Numerals
import SlopOS.Proofs.PixelScreen
import SlopOS.Proofs.MemMove
import SlopOS.Proofs.PathBuffer
import SlopOS.Proofs.PixelBytes
import SlopOS.Proofs.StreamGrowth
import SlopOS.Proofs.BufferBounds
import SlopOS.Kernel.Mounts
import SlopOS.Proofs.DeviceTables
import SlopOS.Proofs.CatRuns
