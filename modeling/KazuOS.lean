import KazuOS.Task.Resume
import KazuOS.Kernel.LastThread
import KazuOS.Kernel.LockOrder
import KazuOS.Kernel.PipeEof
import KazuOS.Kernel.ChannelRefs
import KazuOS.Kernel.ChannelWaiters
import KazuOS.Kernel.IrqLine
import KazuOS.Kernel.ReentrantLock
import KazuOS.User.ArenaReturn
import KazuOS.Task.RoundRobin
import KazuOS.Kernel.DriverLoad
import KazuOS.Kernel.ShmSearch
import KazuOS.Kernel.Rollback
import KazuOS.Kernel.FdRollback
import KazuOS.Kernel.Screen
import KazuOS.Kernel.ConsoleText
import KazuOS.Kernel.KeyModifiers
import KazuOS.Kernel.AudioWrite
import KazuOS.Kernel.Listing
import KazuOS.Kernel.FileContents
import KazuOS.User.Hda
import KazuOS.User.LineEditor
import KazuOS.Kernel.Enumeration
import KazuOS.Kernel.Madt
import KazuOS.Kernel.PciBar
import KazuOS.Kernel.PageAccess
import KazuOS.Kernel.ConsoleCursor
import KazuOS.Kernel.PciConfig
import KazuOS.User.Arguments
import KazuOS.Kernel.ProcessFate
