import EspAmp.VirtqueueCommute
import EspAmp.VirtqueueOwnership
import EspAmp.SysInfo
import EspAmp.SysInfoInvariant
import EspAmp.QueueMemory
import EspAmp.QueueLayout
import EspAmp.QueueTable
import EspAmp.AtomicWord
import EspAmp.SoftwareInterrupt
import EspAmp.EventBaremetal
import EspAmp.Rpmsg
import EspAmp.RpmsgChannel
import EspAmp.RpmsgPair
import EspAmp.RpmsgDelivery
import EspAmp.RpmsgDrain
import EspAmp.EventBinding
import EspAmp.SleepLock
import EspAmp.SleepLockCalls
import EspAmp.LightSleep
import EspAmp.RpmsgLength
import EspAmp.Rpc
import EspAmp.RpcLifecycle
import EspAmp.RpcService
import EspAmp.RpcMatching
import EspAmp.QueueCalls
import EspAmp.RpmsgAttach
import EspAmp.CpuCycle
import EspAmp.EventTimeout
import EspAmp.LinkedList
import EspAmp.RpcServiceTable
import EspAmp.RpmsgEndpoints
import EspAmp.Loader
import EspAmp.LoaderSafety
import EspAmp.LoaderFaithful
import EspAmp.LoaderHeap
import EspAmp.RpcBounds
import EspAmp.RpcRoundTrip
import EspAmp.RpcRefinement
import EspAmp.EventRefusal
import EspAmp.PmuInterrupt
import EspAmp.Printf
import EspAmp.QueueInitFailure
import EspAmp.RpcInit
import EspAmp.SubcoreBoot
import EspAmp.VirtqueueFailure
import EspAmp.PrintfConvert
import EspAmp.PrintfPieces
import EspAmp.PrintfCompose
import EspAmp.PrintfStandard
import EspAmp.PrintfSafety
import EspAmp.ConsoleLines
import EspAmp.Panic
import EspAmp.PanicReport
import EspAmp.AssertDetails
import EspAmp.ServiceBuffers
import EspAmp.ServiceConsole
import EspAmp.ServicePanic
import EspAmp.InterruptMatrix
import EspAmp.Arith64
import EspAmp.RpmsgBuilds
import EspAmp.CriticalSection
import EspAmp.RpcSystemRuns
import EspAmp.SubcoreStart
