import DemandPaging.Address
import DemandPaging.AddressSpace
import DemandPaging.Bytes
import DemandPaging.Bytes.Row
import DemandPaging.Bytes.Sparse
import DemandPaging.CommandLine
import DemandPaging.CommandLine.Options
import DemandPaging.Config
import DemandPaging.CoreMap
import DemandPaging.Entry
import DemandPaging.Event
import DemandPaging.Fault
import DemandPaging.FrameTable
import DemandPaging.History
import DemandPaging.Host
import DemandPaging.Host.Device
import DemandPaging.Host.Directory
import DemandPaging.Host.Path
import DemandPaging.Image
import DemandPaging.Image.Elf
import DemandPaging.Image.Section
import DemandPaging.Journal
import DemandPaging.Kernel
import DemandPaging.Machine
import DemandPaging.Main
import DemandPaging.Memory
import DemandPaging.PageKey
import DemandPaging.PageRange
import DemandPaging.PageTable
import DemandPaging.Pager
import DemandPaging.Paging
import DemandPaging.PidAllocator
import DemandPaging.Piece
import DemandPaging.Process
import DemandPaging.Processor
import DemandPaging.Proofs.Accesses
import DemandPaging.Proofs.Account
import DemandPaging.Proofs.Agreement
import DemandPaging.Proofs.Ample
import DemandPaging.Proofs.ArgumentBlock
import DemandPaging.Proofs.Arguments
import DemandPaging.Proofs.Changes
import DemandPaging.Proofs.Coherence
import DemandPaging.Proofs.Conservation
import DemandPaging.Proofs.Copies
import DemandPaging.Proofs.Courses
import DemandPaging.Proofs.EagerLoad
import DemandPaging.Proofs.ElfLoading
import DemandPaging.Proofs.Errands
import DemandPaging.Proofs.Exits
import DemandPaging.Proofs.Extents
import DemandPaging.Proofs.FaultAnswers
import DemandPaging.Proofs.FaultUndone
import DemandPaging.Proofs.FlatMemory
import DemandPaging.Proofs.FrameSupply
import DemandPaging.Proofs.Holdings
import DemandPaging.Proofs.IdOwners
import DemandPaging.Proofs.InOrder
import DemandPaging.Proofs.Isolation
import DemandPaging.Proofs.KernelChanges
import DemandPaging.Proofs.KernelOrder
import DemandPaging.Proofs.KernelSteps
import DemandPaging.Proofs.Ledger
import DemandPaging.Proofs.LoadAnswers
import DemandPaging.Proofs.LoadStages
import DemandPaging.Proofs.LoadUndone
import DemandPaging.Proofs.MachineChanges
import DemandPaging.Proofs.MachineOrder
import DemandPaging.Proofs.MirrorSteps
import DemandPaging.Proofs.Mirrors
import DemandPaging.Proofs.Obtainable
import DemandPaging.Proofs.PageContents
import DemandPaging.Proofs.PagerStages
import DemandPaging.Proofs.PagerSteps
import DemandPaging.Proofs.PidReuse
import DemandPaging.Proofs.Pinned
import DemandPaging.Proofs.PlainMemory
import DemandPaging.Proofs.Preloaded
import DemandPaging.Proofs.Preloading
import DemandPaging.Proofs.Processes
import DemandPaging.Proofs.ProgramReach
import DemandPaging.Proofs.Ranges
import DemandPaging.Proofs.Reach
import DemandPaging.Proofs.ReadOnly
import DemandPaging.Proofs.Reload
import DemandPaging.Proofs.Retries
import DemandPaging.Proofs.SealedContents
import DemandPaging.Proofs.SealedPages
import DemandPaging.Proofs.SectionLoading
import DemandPaging.Proofs.Sections
import DemandPaging.Proofs.Settings
import DemandPaging.Proofs.Shootdowns
import DemandPaging.Proofs.SmoothRun
import DemandPaging.Proofs.Solo
import DemandPaging.Proofs.SwapContents
import DemandPaging.Proofs.SwapFiles
import DemandPaging.Proofs.SwapHistory
import DemandPaging.Proofs.SwapPartition
import DemandPaging.Proofs.SwapSlots
import DemandPaging.Proofs.Switching
import DemandPaging.Proofs.TablesAgree
import DemandPaging.Proofs.Teardown
import DemandPaging.Proofs.Texts
import DemandPaging.Proofs.TornDown
import DemandPaging.Proofs.Transparency
import DemandPaging.Proofs.TrapOrder
import DemandPaging.Proofs.Underway
import DemandPaging.Proofs.UniformChoice
import DemandPaging.Proofs.UsageBits
import DemandPaging.Proofs.UsageExact
import DemandPaging.Proofs.UsageHistory
import DemandPaging.Proofs.Verified
import DemandPaging.Proofs.VictimChoice
import DemandPaging.Random.ChaCha
import DemandPaging.Random.Generator
import DemandPaging.Random.Seed
import DemandPaging.Random.Xoshiro
import DemandPaging.Simulation
import DemandPaging.Swap.File
import DemandPaging.Swap.HostFile
import DemandPaging.Swap.Store
import DemandPaging.Text.Blank
import DemandPaging.Text.Lines
import DemandPaging.Text.Numeral
import DemandPaging.Tlb
import DemandPaging.Tlb.Bank
import DemandPaging.Tlb.Snapshot
import DemandPaging.Trap
import DemandPaging.Volume
