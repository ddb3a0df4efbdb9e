import RocketCo.Lib.Bytes
import RocketCo.Lib.Chain
import RocketCo.Lib.Tiling
import RocketCo.MemoryPool.Alloctor
import RocketCo.MemoryPool.Layout
import RocketCo.MemoryPool.Surgery
import RocketCo.MemoryPool.Merge
import RocketCo.MemoryPool.Grow
import RocketCo.MemoryPool.Refill
import RocketCo.Lib.Run
import RocketCo.MemoryPool.Client
import RocketCo.MemoryPool.Region
import RocketCo.MemoryPool.Conservation
import RocketCo.MemoryPool.Neighbour
import RocketCo.CoRoutine.Links
import RocketCo.CoRoutine.TimeWheel
import RocketCo.Lib.Buckets
import RocketCo.CoRoutine.Deadline
import RocketCo.CoRoutine.EventLoop
import RocketCo.CoRoutine.Effect
import RocketCo.CoRoutine.Suspension
import RocketCo.CoRoutine.HookPoll
import RocketCo.CoRoutine.Condition
import RocketCo.Lib.X86
import RocketCo.CoSwap.Context
import RocketCo.CoSwap.Switch
import RocketCo.CoSwap.CallStack
import RocketCo.CoSwap.Lifetime
import RocketCo.CoSwap.SharedStack
import RocketCo.CoSwap.PollItem
import RocketCo.CoRoutine.Interest
import RocketCo.CoRoutine.ProductConsumers
import RocketCo.Hook.Attributes
import RocketCo.Lib.Keyed
import RocketCo.Hook.PollMerge
import RocketCo.Hook.CallBack
import RocketCo.Hook.Flags
import RocketCo.Hook.TableIndex
import RocketCo.MemoryPool.Delegated
import RocketCo.EpollWrapper.EventResult
import RocketCo.Lib.Prog
import RocketCo.Hook.Transfer
import RocketCo.Hook.Blocking
import RocketCo.Hook.Receive
import RocketCo.CoRoutine.Drain
import RocketCo.CoRoutine.Revents
import RocketCo.CoSwap.FirstResume
import RocketCo.MemoryPool.SlotChoice
import RocketCo.CoRoutine.SizedWheel
import RocketCo.CoRoutine.Stall
import RocketCo.Hook.Sysenv
import RocketCo.CoRoutine.ThreadEnv
import RocketCo.Lib.Alloc
import RocketCo.Lib.Scheduler
import RocketCo.CoRoutine.Scheduling
import RocketCo.CoRoutine.EchoServer
import RocketCo.Lib.Heap
import RocketCo.MemoryPool.Contents
import RocketCo.CoSwap.Control
import RocketCo.Hook.Connect
import RocketCo.CoRoutine.Stacks
import RocketCo.MemoryPool.Resources
import RocketCo.Hook.Echo
import RocketCo.CoRoutine.Expiry
import RocketCo.Lib.Slots
import RocketCo.CoSwap.SavedStacks
import RocketCo.Hook.EchoClient
