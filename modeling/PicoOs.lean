import PicoOs.Library.Machine
import PicoOs.Library.Outcome
import PicoOs.Library.Memory
import PicoOs.Library.LinkedList
import PicoOs.Library.Tiling
import PicoOs.Library.Packing
import PicoOs.Std.MemoryAllocator
import PicoOs.Kernel.PageAllocator
import PicoOs.Kernel.OwnedPageRanges
import PicoOs.Kernel.Regions
import PicoOs.Kernel.System
import PicoOs.Proofs.HeapRuns
import PicoOs.Proofs.PageRuns
import PicoOs.Proofs.PageOwners
import PicoOs.Proofs.PageOwnerRuns
import PicoOs.Proofs.PageAlignment
import PicoOs.Proofs.PageExhaustion
import PicoOs.Library.Lines
import PicoOs.Userland.Abi
import PicoOs.Proofs.Memmove
import PicoOs.Userland.Editor
import PicoOs.Proofs.EditorBuffers
import PicoOs.Proofs.EditorRuns
import PicoOs.Proofs.References
import PicoOs.Proofs.Idling
import PicoOs.Proofs.Placement
import PicoOs.Proofs.Overflow
import PicoOs.Proofs.HandOver
import PicoOs.Proofs.Exclusion
import PicoOs.Proofs.Exits
import PicoOs.Proofs.SystemCalls
import PicoOs.Proofs.HeapCanonical
import PicoOs.Proofs.HeapContents
import PicoOs.Kernel.GlobalMemoryAllocator
import PicoOs.Proofs.HeapLocking
import PicoOs.Proofs.HeapRequests
import PicoOs.Library.Ring
import PicoOs.Std.CircularQueue
import PicoOs.Proofs.CircularQueues
import PicoOs.Kernel.Process
import PicoOs.Proofs.ProcessSteps
import PicoOs.Proofs.Spawning
import PicoOs.Proofs.ExitStatuses
import PicoOs.Kernel.StackWrapper
import PicoOs.Proofs.ProgramArguments
import PicoOs.Std.SortedSet
import PicoOs.Proofs.SortedSets
import PicoOs.Proofs.SetIteration
import PicoOs.Proofs.SetOperations
import PicoOs.Proofs.SetSteps
import PicoOs.Std.HashMap
import PicoOs.Proofs.RefPtrs
import PicoOs.Proofs.HashMaps
import PicoOs.Proofs.VectorRuns
import PicoOs.Proofs.VectorAliases
import PicoOs.Proofs.SpanCopies
import PicoOs.Proofs.ConsoleInput
import PicoOs.Proofs.QueueRuns
import PicoOs.Library.Custody
import PicoOs.Kernel.UART
import PicoOs.Library.Directories
import PicoOs.Kernel.FileSystem.FileHandles
import PicoOs.Kernel.FileSystem.FlashFileSystem
import PicoOs.Kernel.FileSystem.VirtualFileSystem
import PicoOs.Kernel.FileSystem.MemoryFileSystem
import PicoOs.Kernel.Threads.FileCalls
import PicoOs.Proofs.FileSystems
import PicoOs.Proofs.FileBoot
import PicoOs.Proofs.Opens
import PicoOs.Proofs.FileRuns
import PicoOs.Proofs.FileOffsets
import PicoOs.Proofs.ConsoleCalls
import PicoOs.Proofs.DeviceFiles
import PicoOs.Proofs.HashEntries
import PicoOs.Proofs.FileSteps
import PicoOs.Proofs.FileCalls
import PicoOs.Library.Blocks
import PicoOs.Library.Elf
import PicoOs.Tools.LibElf
import PicoOs.Proofs.Descriptions
import PicoOs.Proofs.ObjectFiles
import PicoOs.Kernel.Loader
import PicoOs.Proofs.Confinement
import PicoOs.Userland.Malloc
import PicoOs.Proofs.MallocBlocks
import PicoOs.Userland.Store
import PicoOs.Library.Tokens
import PicoOs.Userland.Strings
import PicoOs.Proofs.Tokenizer
import PicoOs.Proofs.ShellArguments
import PicoOs.Std.Format
import PicoOs.Proofs.Formatting
import PicoOs.Userland.Stdio
import PicoOs.Proofs.Printf
import PicoOs.Proofs.FileWrites
import PicoOs.Proofs.FileKinds
import PicoOs.Proofs.OpenFlags
import PicoOs.Proofs.SetInsertions
import PicoOs.Proofs.HashIterators
import PicoOs.Kernel.FileSystem.DirectoryHandles
import PicoOs.Proofs.DirectoryListings
import PicoOs.Proofs.CreatedNames
import PicoOs.Proofs.PathTexts
import PicoOs.Library.BackLinks
import PicoOs.Proofs.DirectoryLinks
import PicoOs.Tools.FileSystem
import PicoOs.Proofs.FlashAlignment
import PicoOs.Proofs.PathLookups
import PicoOs.Proofs.PageCoverage
import PicoOs.Kernel.HardwareSpinLock
import PicoOs.Proofs.SpinLocks
import PicoOs.Proofs.UARTReads
import PicoOs.Userland.Readline
import PicoOs.Proofs.ReadlineEdits
import PicoOs.Proofs.ArgumentBlocks
import PicoOs.Proofs.SequentialReads
import PicoOs.Std.ObjectGraph
import PicoOs.Proofs.RefPtrAssignments
import PicoOs.Library.Linking
import PicoOs.Tools.FlashImage
import PicoOs.Proofs.FlashLayouts
import PicoOs.Proofs.FlashTrees
import PicoOs.Proofs.FlashImages
import PicoOs.Proofs.FlashReaders
import PicoOs.Proofs.FlashRoundTrips
import PicoOs.Kernel.ContextSwitch
import PicoOs.Proofs.ContextSwitches
import PicoOs.Proofs.ContextRuns
import PicoOs.Proofs.ContextRestoring
import PicoOs.Kernel.Protection
import PicoOs.Proofs.Turns
import PicoOs.Library.Protection
import PicoOs.Library.Shares
import PicoOs.Proofs.ProtectionUnits
import PicoOs.Proofs.ThreadAssets
import PicoOs.Proofs.Isolation
import PicoOs.Proofs.IsolationRuns
import PicoOs.Proofs.EmbeddedBoot
import PicoOs.Proofs.EmbeddedFiles
import PicoOs.Kernel.Threads.CallPaths
import PicoOs.Proofs.CallPaths
import PicoOs.Proofs.ShellCommands
