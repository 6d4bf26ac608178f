import Berk162.Devices.PartitionChain
import Berk162.Devices.SerialRuns
import Berk162.Devices.Ide
import Berk162.Devices.BlockBytes
import Berk162.Filesys.InodeData
import Berk162.Filesys.FileSys
import Berk162.Filesys.FsLeaks
import Berk162.Filesys.FsRefines
import Berk162.Filesys.FsSession
import Berk162.LibKernel.HashRuns
import Berk162.LibKernel.HashLinks
import Berk162.MapReduce.Job
import Berk162.MapReduceRs.RsJob
import Berk162.MapReduceRs.Client
import Berk162.Lib.Framing
import Berk162.Lib.Runs
import Berk162.Lib.Transition
import Berk162.Lib.Machine
import Berk162.Lib.Extent
import Berk162.Lib.Tally
import Berk162.LibKernel.Bitmap
import Berk162.Threads.Vaddr
import Berk162.Threads.Palloc
import Berk162.Threads.PallocRuns
import Berk162.Threads.Malloc
import Berk162.Threads.MallocInv
import Berk162.Threads.MallocSteps
import Berk162.Threads.MallocCalls
import Berk162.Threads.MallocRuns
import Berk162.Threads.MallocRealloc
import Berk162.Userprog.PagedirRuns
import Berk162.Userprog.LoadRuns
import Berk162.Userprog.StartRuns
import Berk162.Threads.RwLock
import Berk162.Threads.RwLockRuns
import Berk162.Threads.SynchRuns
import Berk162.Threads.SchedRuns
import Berk162.MapReduce.ByKey
import Berk162.Filesys.DenyWrite
import Berk162.Filesys.InodeBytes
import Berk162.HwHttp.Wq
import Berk162.Lib.CText
import Berk162.LibKernel.Random
import Berk162.LibKernel.Console
import Berk162.Threads.Options
import Berk162.Devices.IntqRuns
import Berk162.Filesys.FsMapCopies
import Berk162.HwKvsrv.Rpc
import Berk162.HwKvsrv.RpcCalls
import Berk162.HwKvsrv.RpcTruncated
import Berk162.HwKvsrv.Persister
import Berk162.HwList.WordCount
import Berk162.HwList.WordCountRuns
import Berk162.Filesys.DirCalls
import Berk162.Filesys.DirMemory
import Berk162.HwHttpRs.ParseRequest
import Berk162.Devices.Rtc
import Berk162.Devices.Vga
import Berk162.Filesys.BitmapFile
import Berk162.Lib.Heap
import Berk162.Lib.Links
import Berk162.LibC.Arithmetic
import Berk162.LibC.Stdio
import Berk162.LibC.StdioScan
import Berk162.LibC.StdioOutput
import Berk162.LibC.StdioSpecs
import Berk162.LibC.StdioDigits
import Berk162.LibC.StdioIntegers
import Berk162.LibC.StdioBuffers
import Berk162.LibC.Stdlib
import Berk162.LibKernel.List
import Berk162.LibKernel.ListOps
import Berk162.LibKernel.ListSortLinks
import Berk162.MapReduceRs.PacketReader
import Berk162.Threads.FixedPoint
import Berk162.HwHttp.Libhttp
import Berk162.HwShell.Tokenizer
import Berk162.Lib.Lines
import Berk162.LibC.String
import Berk162.LibC.Strtok
import Berk162.LibC.Ustar
import Berk162.MapReduce.CompareFns
import Berk162.MapReduce.Grep
import Berk162.MapReduce.Wc
import Berk162.MapReduceRs.RsGrep
import Berk162.Threads.CommandLine
import Berk162.HwMemory.UserAccess
import Berk162.HwMemory.ProcessRuns
import Berk162.Lib.Ranking
import Berk162.Threads.SchedFair
import Berk162.Userprog.ProcessLifeRuns
import Berk162.Userprog.ProcessExit
import Berk162.LibC.UstarFormat
import Berk162.Filesys.FsutilRoundTrip
import Berk162.Devices.Kbd
import Berk162.Devices.KbdRuns
import Berk162.Devices.Timer
