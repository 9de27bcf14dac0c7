import OsHw.Run
import OsHw.Fold
import OsHw.AddressSpace
import OsHw.Hlist
import OsHw.KvStore
import OsHw.KvSystem
import OsHw.KvLayout
import OsHw.KvInvariant
import OsHw.KvStep
import OsHw.KvTasks
import OsHw.KvRefine
import OsHw.KvMemory
import OsHw.KvAccounting
import OsHw.KvExec
import OsHw.KvLinearizable
import OsHw.KvLifetime
import OsHw.KvIsolation
import OsHw.KvUser
import OsHw.Fairness
import OsHw.FairnessLookup
import OsHw.SocketCounts
import OsHw.SocketInterference
import OsHw.SocketThreads
import OsHw.SocketTotals
import OsHw.FairnessProc
import OsHw.SocketLimit
import OsHw.FairnessInit
import OsHw.VTaskPid
import OsHw.MapVdso
import OsHw.MapVdsoPlaced
import OsHw.VdsoAddr
import OsHw.GptAnswers
import OsHw.GptfsIsolation
import OsHw.RamfsBackup
import OsHw.TcpdumpFilter
import OsHw.XattrHiding
import OsHw.AcpiOemId
import OsHw.AcpiReplace
import OsHw.AcpiPointers
import OsHw.FileMmapWrites
import OsHw.TcpdumpRange
import OsHw.XattrValue
import OsHw.AcpiEntries
import OsHw.VTaskFields
import OsHw.GptOutputs
import OsHw.GptWrites
import OsHw.Volumes
import OsHw.TcpdumpFiles
import OsHw.Extents
import OsHw.Keyed
import OsHw.RefCount
import OsHw.XattrArea
import OsHw.XattrSlots
import OsHw.XattrValues
import OsHw.XattrSet
import OsHw.XattrPlace
import OsHw.XattrShare
import OsHw.XattrStore
import OsHw.XattrContents
import OsHw.XattrHandle
import OsHw.XattrSharing
import OsHw.XattrWriters
import OsHw.XattrRuns
import OsHw.XattrCalls
import OsHw.XattrProgress
