import CoroutineRpc.Library.Sums
import CoroutineRpc.Library.KeyedSet
import CoroutineRpc.Library.Transition
import CoroutineRpc.Library.Text
import CoroutineRpc.Library.CBuffer
import CoroutineRpc.Rpc.Header
import CoroutineRpc.Coroutine.Timer
import CoroutineRpc.Coroutine.TimerSpec
import CoroutineRpc.Coroutine.Armed
import CoroutineRpc.Coroutine.IOManager
import CoroutineRpc.Coroutine.Registration
import CoroutineRpc.Coroutine.Operations
import CoroutineRpc.Coroutine.Dispatcher
import CoroutineRpc.Coroutine.Pool
import CoroutineRpc.Coroutine.PoolSteps
import CoroutineRpc.Coroutine.Wakeup
import CoroutineRpc.Coroutine.Stranded
import CoroutineRpc.Coroutine.Accounts
import CoroutineRpc.Coroutine.FiberUse
import CoroutineRpc.Coroutine.Conservation
import CoroutineRpc.Coroutine.Carrying
import CoroutineRpc.Coroutine.TimerLife
import CoroutineRpc.Coroutine.Hook
import CoroutineRpc.Coroutine.HookSteps
import CoroutineRpc.Coroutine.Waits
import CoroutineRpc.Coroutine.WokenOnce
import CoroutineRpc.Coroutine.FiberSafety
import CoroutineRpc.Coroutine.FdGrowth
import CoroutineRpc.Coroutine.ResetGap
import CoroutineRpc.Registry.Server
import CoroutineRpc.Registry.System
import CoroutineRpc.Registry.Expiry
import CoroutineRpc.Registry.Answers
import CoroutineRpc.Registry.Renewal
import CoroutineRpc.Library.Varint
import CoroutineRpc.Rpc.HeaderWire
import CoroutineRpc.Rpc.CodedStream
import CoroutineRpc.Rpc.Channel
import CoroutineRpc.Rpc.Provider
import CoroutineRpc.Rpc.Delivery
import CoroutineRpc.Registry.Process
import CoroutineRpc.Registry.ReadSafety
import CoroutineRpc.Rpc.BinaryFrames
import CoroutineRpc.Registry.Noninterference
import CoroutineRpc.Rpc.Segmentation
import CoroutineRpc.Rpc.Separation
import CoroutineRpc.Coroutine.CloseSafety
import CoroutineRpc.Coroutine.Abandoned
import CoroutineRpc.Coroutine.Oversleep
import CoroutineRpc.Coroutine.HookedSleep
import CoroutineRpc.Coroutine.Draining
import CoroutineRpc.Coroutine.TimerCalls
import CoroutineRpc.Coroutine.Removal
import CoroutineRpc.Coroutine.FdLayer
import CoroutineRpc.Coroutine.KernelNonblock
import CoroutineRpc.Coroutine.UserView
import CoroutineRpc.Coroutine.SocketTimeouts
import CoroutineRpc.Coroutine.Connect
import CoroutineRpc.Coroutine.ConnectResult
import CoroutineRpc.Coroutine.ConnectSafety
import CoroutineRpc.Rpc.FrameOrder
import CoroutineRpc.Registry.Programs
import CoroutineRpc.Rpc.SocketSafety
import CoroutineRpc.Address.Lookup
import CoroutineRpc.Address.Subnet
import CoroutineRpc.Address.Subnet6
import CoroutineRpc.Library.Ipv6Text
import CoroutineRpc.Address.Insert
import CoroutineRpc.Coroutine.FdSharing
import CoroutineRpc.Coroutine.BracketSafety
import CoroutineRpc.Registry.HandlerRefinement
import CoroutineRpc.Server.Lifecycle
import CoroutineRpc.Registry.Heartbeat
import CoroutineRpc.Registry.ExampleCall
import CoroutineRpc.Coroutine.StartupProgress
import CoroutineRpc.Address.Printed
import CoroutineRpc.Address.Interfaces
import CoroutineRpc.Coroutine.TimedOut
import CoroutineRpc.Coroutine.Delivered
import CoroutineRpc.Coroutine.Pacing
