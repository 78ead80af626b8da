import Coht.Lib.System
import Coht.Lib.Word
import Coht.Lib.Count
import Coht.Vmebridge.Vmebus
import Coht.Vmebridge.Tsi148
import Coht.Vmebridge.Decode
import Coht.Vmebridge.Window
import Coht.Vmebridge.WindowSpec
import Coht.Vmebridge.WindowTable
import Coht.Vmebridge.WindowLists
import Coht.Vmebridge.WindowAttr
import Coht.Vmebridge.Coverage
import Coht.Vmebridge.Atomicity
import Coht.Vmebridge.Ownership
import Coht.Vmebridge.Interleaving
import Coht.Vmebridge.ForceFlag
import Coht.Vmebridge.DmaChannel
import Coht.Vmebridge.DmaShutdown
import Coht.Lib.Pointers
import Coht.Lib.Tiling
import Coht.Vmebridge.DmaChain
import Coht.Vmebridge.DmaLinks
import Coht.Vmebridge.DmaTiling
import Coht.Lib.Fifo
import Coht.Lib.Staging
import Coht.Lib.Numeral
import Coht.Cdcm.Semaphore
import Coht.Cdcm.WaitList
import Coht.Cdcm.Permits
import Coht.Cdcm.Timers
import Coht.Skel.Queue
import Coht.Skel.Connections
import Coht.Skel.EnableMask
import Coht.Skel.Events
import Coht.Skel.Close
import Coht.Skel.ModuleLock
import Coht.Skel.RawIo
import Coht.Skel.RawIoBlock
import Coht.Skel.RawIoItems
import Coht.Lib.Stride
import Coht.Skel.Window
import Coht.Mttn.Opcodes
import Coht.Mttn.Emu
import Coht.Mttn.Emulate
import Coht.Mttn.Object
import Coht.Mttn.Atoms
import Coht.Mttn.AtomLines
import Coht.Lib.Segments
import Coht.Mttn.AtomRuns
import Coht.Mttn.AtomComments
import Coht.Mttn.Expression
import Coht.Mttn.Asm
import Coht.Mttn.Symbols
import Coht.Mttn.AsmRun
import Coht.Mttn.AsmEmission
import Coht.Mttn.AsmSymbols
import Coht.Lib.FirstFit
import Coht.Lib.Ledger
import Coht.Mttn.Tasks
import Coht.Mttn.Wait
import Coht.Mttn.Ioctls
import Coht.Mttn.AsmBuffer
import Coht.Mttn.Brackets
import Coht.Mttn.BracketStacks
import Coht.Skel.AddModule
import Coht.Sis33.Core
import Coht.Sis33.Capacity
import Coht.Sis33.Sis3300
import Coht.Sis33.EventCount
import Coht.Sis33.Caches
import Coht.Sis33.Sis3320
import Coht.Sis33.FetchedData
import Coht.Sis33.Protocol
import Coht.InsLib.ConfigData
import Coht.InsLib.Clone
import Coht.InsLib.DeepCopy
import Coht.InsLib.Attributes
import Coht.InsLib.InstallFile
import Coht.InsLib.InstallDoc
import Coht.InsLib.InstallTree
import Coht.InsLib.InstallItems
import Coht.InsLib.InstallParse
import Coht.Lib.Packing
import Coht.Cvorg.Channel
import Coht.Cvorg.StoreSeq
import Coht.Cvorg.SeqLayout
import Coht.Cvorg.LoadSeq
import Coht.Cvorg.LoadBooks
import Coht.Cvorg.LoadSafe
import Coht.Cvorg.PlayCount
import Coht.Cvorg.Clkgen
import Coht.Cvorg.PllConf
import Coht.Cvorg.SampFreq
import Coht.Lib.Access
import Coht.Xmem.Markers
import Coht.Xmem.MarkersLinear
import Coht.Xmem.Torn
import Coht.XmemDrvr.Segments
import Coht.XmemDrvr.SegmentAccess
import Coht.XmemDrvr.SegmentBooks
import Coht.XmemDrvr.ClientQueue
import Coht.XmemDrvr.Connections
import Coht.XmemDrvr.Interrupts
import Coht.XmemDrvr.Messages
import Coht.XmemDrvr.Discovery
import Coht.Lib.KeyedList
import Coht.Lib.Visits
import Coht.Ctr.ModuleContext
import Coht.Ctr.ClientQueue
import Coht.Ctr.Connect
import Coht.Ctr.Ioctl
import Coht.Ctr.Driver
import Coht.Ctr.Steps
import Coht.Ctr.Tables
import Coht.Ctr.Slots
import Coht.Ctr.SlotSteps
import Coht.Ctr.UpLock
import Coht.Ctr.Ctims
import Coht.Ctr.Bindings
import Coht.Ctr.BusBit
import Coht.Ctr.Raw
import Coht.Ctr.Clients
import Coht.Ctr.Sources
import Coht.Ctr.Armed
import Coht.Ctr.Delivery
import Coht.Ctr.Simulated
import Coht.Ipack.Ipoctal
import Coht.Ipack.TransmitRing
import Coht.Lib.Buffers
import Coht.Cvorb.Driver
import Coht.Cvorb.Vectors
import Coht.Cvorb.Transfer
import Coht.Cvorb.RoundTrip
import Coht.Cvorb.Accesses
import Coht.Cvorb.Slots
import Coht.Ctr.Inquiries
import Coht.Lib.Calls
import Coht.Timlib.Libctr
import Coht.Timlib.Ioctls
import Coht.Timlib.SetCcv
import Coht.Timlib.Ccv
import Coht.Timlib.Connecting
import Coht.Timlib.Payload
import Coht.Lib.Collecting
import Coht.Ctr.Connections
import Coht.Ctr.Accesses
import Coht.Ctr.AccessValues
import Coht.Ctr.InsideTables
import Coht.Ctr.Contained
import Coht.Timlib.Disconnect
import Coht.Vmebridge.MmapRegion
import Coht.Vmebridge.DmaSetup
import Coht.Vmebridge.DmaPages
import Coht.Vmebridge.DmaCleanup
import Coht.Vmebridge.DmaComplete
import Coht.Lib.Jtag
import Coht.Ctr.HptdcJtag
import Coht.Ctr.HptdcCommand
import Coht.Icv196.Driver
import Coht.Icv196.Consistency
import Coht.Tpci200.Carrier
import Coht.Tpci200.Slots
import Coht.Tpci200.LifeCycle
import Coht.Vmod.Vmodttl
import Coht.Vmod.Readers
import Coht.Ipoctal.Driver
import Coht.Ipoctal.Writes
import Coht.Sis33.TimeStamps
import Coht.Sis33.Pages
import Coht.Sis33.Normalise
import Coht.Sis33.RoundUint
import Coht.Sis33.Probe
import Coht.Vmic.Wait
import Coht.Extest.Splitting
import Coht.InsLib.SpaceList
import Coht.Lib.Scanf
import Coht.XmemTables.Files
import Coht.XmemTables.Entries
import Coht.XmemTables.Lookups
import Coht.Ipack.Probe
import Coht.Tpci200.Install
import Coht.Vd80.ReadSample
import Coht.RawIoctl.Ioctl
import Coht.RawIoctl.Served
