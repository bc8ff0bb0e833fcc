import Pintos.Foundations.LittleEndian
import Pintos.Foundations.WordBits
import Pintos.Foundations.Words
import Pintos.Foundations.SlotMap
import Pintos.Foundations.Runs
import Pintos.Foundations.Ring
import Pintos.Foundations.IntCmp
import Pintos.Foundations.HeapSort
import Pintos.Foundations.DivEstimate
import Pintos.Foundations.NaturalMerge
import Pintos.Foundations.Links
import Pintos.Foundations.Scans
import Pintos.Lib.Memory
import Pintos.Lib.String
import Pintos.Lib.StringSpec
import Pintos.Lib.Arithmetic
import Pintos.Lib.ArithmeticSpec
import Pintos.Lib.Stdlib
import Pintos.Lib.StdlibSpec
import Pintos.Lib.Stdio
import Pintos.Lib.StdioSpec
import Pintos.Lib.Ustar
import Pintos.Lib.UstarSpec
import Pintos.Devices.Block
import Pintos.Devices.Partition
import Pintos.Devices.PartitionSpec
import Pintos.Devices.Intq
import Pintos.Devices.IntqSafety
import Pintos.Kernel.Bitmap
import Pintos.Kernel.List
import Pintos.Kernel.ListSpec
import Pintos.Kernel.ListSort
import Pintos.Kernel.ListOps
import Pintos.Kernel.ListOrdered
import Pintos.Threads.Vaddr
import Pintos.Threads.Palloc
import Pintos.Userprog.UserMemory
import Pintos.Threads.Malloc
import Pintos.Threads.MallocSpec
import Pintos.Threads.Synch
import Pintos.Threads.SynchSafety
import Pintos.Filesys.InodeDisk
import Pintos.Filesys.InodeIO
import Pintos.Filesys.FreeMap
import Pintos.Filesys.InodeCreate
import Pintos.Filesys.InodeOpen
import Pintos.Filesys.InodeClose
import Pintos.Lib.KeyedList
import Pintos.Filesys.File
import Pintos.Filesys.OpenTable
import Pintos.Filesys.Directory
import Pintos.Filesys.DirectoryMap
import Pintos.Filesys.Filesys
import Pintos.Filesys.Fsutil
import Pintos.Filesys.FsutilSpec
import Pintos.Userprog.FileSyscalls
import Pintos.Userprog.Syscall
import Pintos.Userprog.Process
