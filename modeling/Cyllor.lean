import Cyllor.Drivers.Input
import Cyllor.Drivers.VirtioBlock
import Cyllor.Fs.DirScan
import Cyllor.Fs.Ext4
import Cyllor.Fs.Ext4Steps
import Cyllor.Fs.FileBytes
import Cyllor.Fs.Pipe
import Cyllor.Fs.RenameExact
import Cyllor.Fs.ResolveAt
import Cyllor.Fs.TimerFd
import Cyllor.Fs.VfsLinks
import Cyllor.Ipc.FutexQueues
import Cyllor.Ipc.FutexRequeue
import Cyllor.Ipc.SignalDeath
import Cyllor.Mm.Attachments
import Cyllor.Mm.Break
import Cyllor.Mm.CopyOut
import Cyllor.Mm.FileMapping
import Cyllor.Mm.Fork
import Cyllor.Mm.Framing
import Cyllor.Net.ControlData
import Cyllor.Net.ErrorsKeep
import Cyllor.Net.LockOrder
import Cyllor.Net.Paths
import Cyllor.Net.SelfLock
import Cyllor.Net.SocketFile
import Cyllor.Proc.ClearTid
import Cyllor.Proc.CloneRace
import Cyllor.Proc.Credentials
import Cyllor.Proc.Groups
import Cyllor.Proc.Sessions
import Cyllor.Sched.Death
import Cyllor.Sched.Fairness
import Cyllor.Sched.Phases
import Cyllor.Sched.Switch
