import Dxgmx.Library.Runs
import Dxgmx.Library.Exec
import Dxgmx.Library.InPlace
import Dxgmx.Library.Buffer
import Dxgmx.Library.BubbleSort
import Dxgmx.Library.Spans
import Dxgmx.Library.LastMax
import Dxgmx.Library.LongDivision
import Dxgmx.Library.Components
import Dxgmx.Utils.Bitwise
import Dxgmx.Mem.Region
import Dxgmx.Mem.Falloc
import Dxgmx.Mem.FallocLending
import Dxgmx.Mem.FallocInit
import Dxgmx.Mem.FallocCount
import Dxgmx.Mem.FallocCursor
import Dxgmx.Mem.Mregmap
import Dxgmx.Mem.MregmapSweep
import Dxgmx.Mem.MregmapCuts
import Dxgmx.Mem.MregmapRemoval
import Dxgmx.Mem.MregmapBounds
import Dxgmx.Mem.MregmapInsertion
import Dxgmx.Mem.MregmapAlignment
import Dxgmx.Utils.Bitmap
import Dxgmx.Utils.BitmapLending
import Dxgmx.Utils.BitmapCompleteness
import Dxgmx.Utils.Words
import Dxgmx.Utils.Hashtable
import Dxgmx.Utils.HashtableMap
import Dxgmx.Mem.Gallocator
import Dxgmx.Mem.GallocatorBits
import Dxgmx.Mem.GallocatorSearch
import Dxgmx.Mem.GallocatorHeap
import Dxgmx.Mem.GallocatorCalls
import Dxgmx.Mem.GallocatorInvariant
import Dxgmx.Mem.GallocatorLayout
import Dxgmx.Mem.GallocatorRuns
import Dxgmx.Mem.GallocatorCompleteness
import Dxgmx.Mem.Kmalloc
import Dxgmx.Mem.KmallocInvariant
import Dxgmx.Mem.KmallocRuns
import Dxgmx.Mem.Krealloc
import Dxgmx.Mem.KmallocStatistics
import Dxgmx.Fs.VfsDrivers
import Dxgmx.Crypto.Hashing
import Dxgmx.Crypto.HashedTables
import Dxgmx.Tools.ConfigMenus
import Dxgmx.Tools.ConfRoundTrip
import Dxgmx.Mem.Paging
import Dxgmx.Mem.PagingTranslation
import Dxgmx.Mem.PagingTables
import Dxgmx.Mem.PagingTeardown
import Dxgmx.Mem.UserPages
import Dxgmx.Mem.UserPageFailure
import Dxgmx.Mem.PageRights
import Dxgmx.Mem.PageAccess
import Dxgmx.Mem.PageFaults
import Dxgmx.Elf.ElfReturns
import Dxgmx.Proc.StaleMemory
import Dxgmx.Elf.SegmentWrites
import Dxgmx.Elf.LoadedImage
import Dxgmx.Mem.Dma
import Dxgmx.Mem.DmaLending
import Dxgmx.Mem.DmaFailure
import Dxgmx.Mem.DmaTranslation
import Dxgmx.Acpi.AcpiTables
import Dxgmx.Acpi.AcpiSafety
import Dxgmx.Storage.Atapio
import Dxgmx.Storage.AtapioTransfers
import Dxgmx.Kstdlib.String
import Dxgmx.Kstdlib.Stdlib
import Dxgmx.Kstdlib.Stdio
import Dxgmx.Kstdlib.StdioBound
import Dxgmx.Kstdlib.Strdup
import Dxgmx.Fs.VfsFdt
import Dxgmx.Fs.Path
import Dxgmx.Fs.Fs
import Dxgmx.Fs.Mount
import Dxgmx.Fs.PathSpelling
import Dxgmx.Fs.PathInPlace
import Dxgmx.Fs.PathResolution
import Dxgmx.Proc.Proc
import Dxgmx.Fs.Vfs
import Dxgmx.Proc.Procm
import Dxgmx.Proc.DescriptorIsolation
import Dxgmx.Proc.ProcTable
import Dxgmx.Proc.PidPool
import Dxgmx.Proc.Ringsched
import Dxgmx.Proc.RingOrder
import Dxgmx.Proc.SchedStates
import Dxgmx.Proc.SchedRuns
import Dxgmx.Library.Grouped
import Dxgmx.Proc.TableTeardown
import Dxgmx.User.Access
import Dxgmx.User.User32
import Dxgmx.User.UserCopies
import Dxgmx.Video.FbWrites
import Dxgmx.Video.Fbsink
import Dxgmx.Video.FbsinkSafety
import Dxgmx.Fs.Ramfs
import Dxgmx.Fs.Fat
import Dxgmx.Fs.FatReadFile
import Dxgmx.Fs.FatDirWalk
import Dxgmx.Fs.ReadGuard
import Dxgmx.Fs.FileOffsets
import Dxgmx.Fs.OverlongPath
import Dxgmx.Fs.MountCleanup
import Dxgmx.Fs.MountUndo
import Dxgmx.Fs.MountedFiles
import Dxgmx.Fs.SoundMounts
import Dxgmx.Fs.VnodeCounts
import Dxgmx.Fs.VnodeReferences
import Dxgmx.Fs.UnmountedVnodes
import Dxgmx.Fs.VnodeTree
import Dxgmx.Fs.PathBuffer
import Dxgmx.Fs.PathRelative
import Dxgmx.Fs.PathCreation
import Dxgmx.Fs.FileCreation
import Dxgmx.Fs.FileCreationRuns
import Dxgmx.Fs.FileLookup
import Dxgmx.Fs.OpenCreation
import Dxgmx.Fs.OpenFailure
import Dxgmx.Fs.DevfsDevices
import Dxgmx.Fs.NameBuffers
import Dxgmx.Library.Blocks
import Dxgmx.Fs.FsMemory
import Dxgmx.Fs.CachedVnodes
import Dxgmx.Fs.FsTeardown
import Dxgmx.Storage.BlkdevmPartitions
import Dxgmx.Storage.TrackedDrive
import Dxgmx.Storage.PartitionAccess
import Dxgmx.Library.Traversal
import Dxgmx.Library.ScrolledText
import Dxgmx.Sinks.VgaText
import Dxgmx.Input.SerialLinks
import Dxgmx.Input.KbdDelivery
import Dxgmx.Library.Sha1
import Dxgmx.Crypto.Sha1
import Dxgmx.Crypto.Sha1Digest
import Dxgmx.Fs.FatGeometry
import Dxgmx.Fs.FatDirMemory
import Dxgmx.Fs.RamfsFiles
import Dxgmx.Kstdlib.StdioText
import Dxgmx.Storage.Mbr
import Dxgmx.Storage.BlkdevmLookup
import Dxgmx.Storage.AtapioFailures
import Dxgmx.Storage.AtaCommands
import Dxgmx.Proc.FdTable
import Dxgmx.Proc.RingRounds
import Dxgmx.Utils.HashtableMemory
import Dxgmx.Utils.HashtableGrowth
import Dxgmx.Kstdlib.StdioReads
import Dxgmx.Library.Numerals
import Dxgmx.Kstdlib.Numerals
import Dxgmx.Kstdlib.StdioFields
import Dxgmx.Kstdlib.Strtoul
import Dxgmx.Kstdlib.UltoaMemory
import Dxgmx.Sinks.Kstdio
import Dxgmx.Library.BinarySearch
import Dxgmx.Utils.Ksyms
import Dxgmx.Input.KbdDecoder
import Dxgmx.Input.SerialRollback
import Dxgmx.Utils.LinkedListCalls
import Dxgmx.Mem.TrackedPages
import Dxgmx.Fs.FatLegacyNames
import Dxgmx.Library.OrderedVisits
import Dxgmx.Tools.ConfigImplies
import Dxgmx.Core.Builtins
import Dxgmx.Tools.KconfigHeader
import Dxgmx.Library.StackMachine
import Dxgmx.Proc.TaskSwitch
import Dxgmx.Core.InterruptEntry
import Dxgmx.Core.Syscalls
import Dxgmx.Core.Idt
import Dxgmx.Core.Pic
import Dxgmx.Core.IrqService
import Dxgmx.Core.Modules
import Dxgmx.Core.Multiboot
import Dxgmx.Buses.Pci
import Dxgmx.Buses.PciDrivers
