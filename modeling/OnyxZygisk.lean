import OnyxZygisk.Daemon.ApatchEdits
import OnyxZygisk.Daemon.ApplyServed
import OnyxZygisk.Daemon.CompanionFresh
import OnyxZygisk.Daemon.CompanionLoop
import OnyxZygisk.Daemon.DeferredServices
import OnyxZygisk.Daemon.FnContained
import OnyxZygisk.Daemon.FnOrder
import OnyxZygisk.Daemon.FnRecords
import OnyxZygisk.Daemon.FnRemoval
import OnyxZygisk.Daemon.FnToggle
import OnyxZygisk.Daemon.FrameworkBudget
import OnyxZygisk.Daemon.FrameworkComments
import OnyxZygisk.Daemon.GuardRuns
import OnyxZygisk.Daemon.ModuleDir
import OnyxZygisk.Daemon.NamespaceCache
import OnyxZygisk.Daemon.ProcessScan
import OnyxZygisk.Daemon.ServiceOnce
import OnyxZygisk.Daemon.SwapAtomic
import OnyxZygisk.Daemon.SwapCrash
import OnyxZygisk.Daemon.Unplug
import OnyxZygisk.Lib.GnuHash
import OnyxZygisk.Lib.PackedRelocs
import OnyxZygisk.Loader.Atexit
import OnyxZygisk.Loader.ChunkedReads
import OnyxZygisk.Loader.CleanMounts
import OnyxZygisk.Loader.CompanionIds
import OnyxZygisk.Loader.FdSanitize
import OnyxZygisk.Loader.FnScope
import OnyxZygisk.Loader.FnStream
import OnyxZygisk.Loader.FossilSpoof
import OnyxZygisk.Loader.GnuLookup
import OnyxZygisk.Loader.HookContext
import OnyxZygisk.Loader.IpcCodec
import OnyxZygisk.Loader.JniHooks
import OnyxZygisk.Loader.LiveFramework
import OnyxZygisk.Loader.LiveHistory
import OnyxZygisk.Loader.LiveWakeups
import OnyxZygisk.Loader.MapsScan
import OnyxZygisk.Loader.MapsSpoof
import OnyxZygisk.Loader.ModuleCalls
import OnyxZygisk.Loader.MountLines
import OnyxZygisk.Loader.MountMode
import OnyxZygisk.Loader.PltElf
import OnyxZygisk.Loader.Requests
import OnyxZygisk.Loader.Seccomp
import OnyxZygisk.Loader.TracerLines
import OnyxZygisk.Loader.UnmountOrder
import OnyxZygisk.Monitor.Candidates
import OnyxZygisk.Monitor.Control
import OnyxZygisk.Monitor.CrashLoop
import OnyxZygisk.Monitor.ZigMonitor
import OnyxZygisk.Ptracer.AbiRelocs
import OnyxZygisk.Ptracer.ArgumentBlock
import OnyxZygisk.Ptracer.DynInfo
import OnyxZygisk.Ptracer.DynSymbols
import OnyxZygisk.Ptracer.FileLibrary
import OnyxZygisk.Ptracer.InjectFailures
import OnyxZygisk.Ptracer.LoaderMmaps
import OnyxZygisk.Ptracer.LoaderResidue
import OnyxZygisk.Ptracer.RelocPatches
import OnyxZygisk.Ptracer.RelocValues
import OnyxZygisk.Ptracer.RelocsComplete
import OnyxZygisk.Ptracer.RemoteCall
import OnyxZygisk.Ptracer.RemoteImage
import OnyxZygisk.Ptracer.SyscallStops
import OnyxZygisk.Ptracer.WideHash
import OnyxZygisk.Scripts.FailSafe
import OnyxZygisk.WebUi.FnRows
import OnyxZygisk.WebUi.FnSwitch
import OnyxZygisk.WebUi.HistorySync
import OnyxZygisk.WebUi.ModulesShown
import OnyxZygisk.WebUi.Overall
import OnyxZygisk.WebUi.OverlayHistory
import OnyxZygisk.WebUi.OverlaySync
import OnyxZygisk.WebUi.ShellQuote
