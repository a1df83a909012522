import Zeos.Lib.ByteMem
import Zeos.Lib.CircList
import Zeos.Lib.Disk
import Zeos.Lib.Gates
import Zeos.Lib.Loop
import Zeos.Lib.Memories
import Zeos.Lib.PageWalk
import Zeos.Lib.Paging
import Zeos.Lib.Pool
import Zeos.Lib.Positional
import Zeos.Lib.RingBuffer
import Zeos.Lib.Rings
import Zeos.Lib.RoundRobin
import Zeos.Lib.Saves
import Zeos.Lib.Terminal
import Zeos.Lib.Transition
import Zeos.Lib.Walk
import Zeos.Lib.X86
import Zeos.Common.Bootsect
import Zeos.Common.Build
import Zeos.Common.Copy
import Zeos.Common.Entry
import Zeos.Common.Frames
import Zeos.Common.Interrupt
import Zeos.Common.Libc
import Zeos.Common.Library
import Zeos.Common.List
import Zeos.Common.Lists
import Zeos.Common.Mm
import Zeos.Common.Resume
import Zeos.Common.Space
import Zeos.Common.Switch
import Zeos.Common.Task
import Zeos.Common.Ticks
import Zeos.Common.Utils
import Zeos.Base.Boot
import Zeos.Base.Console
import Zeos.Base.Entry
import Zeos.Base.Frames
import Zeos.Base.Idt
import Zeos.Base.Image
import Zeos.Base.Kernel
import Zeos.Base.PageFault
import Zeos.Base.Screen
import Zeos.Base.Space
import Zeos.Base.Switch
import Zeos.Base.UserMain
import Zeos.Base.UserPages
import Zeos.Base.Wrappers
import Zeos.Base.Write
import Zeos.Game.Access
import Zeos.Game.Accounting
import Zeos.Game.Boot
import Zeos.Game.Entry
import Zeos.Game.FailedFork
import Zeos.Game.Frames
import Zeos.Game.Kernel
import Zeos.Game.KeyEvents
import Zeos.Game.Keyboard
import Zeos.Game.Owned
import Zeos.Game.Pids
import Zeos.Game.Polled
import Zeos.Game.Private
import Zeos.Game.Protection
import Zeos.Game.Quantum
import Zeos.Game.Queues
import Zeos.Game.Quiet
import Zeos.Game.Resume
import Zeos.Game.Sched
import Zeos.Game.Sys
import Zeos.Game.Ticks
import Zeos.Game.Turns
import Zeos.Game.UserUtils
import Zeos.Game.Waiting
import Zeos.E1E2.AddressSpace
import Zeos.E1E2.Alone
import Zeos.E1E2.Boot
import Zeos.E1E2.Entry
import Zeos.E1E2.Exit
import Zeos.E1E2.ForkReturn
import Zeos.E1E2.Kernel
import Zeos.E1E2.Kids
import Zeos.E1E2.Library
import Zeos.E1E2.Lists
import Zeos.E1E2.Policy
import Zeos.E1E2.Print
import Zeos.E1E2.Protection
import Zeos.E1E2.Sched
import Zeos.E1E2.Stacks
import Zeos.E1E2.Sys
import Zeos.E1E2.Turns
import Zeos.E1E2.Unblock
import Zeos.E1E2.Wrapper
import Zeos.E1E2.Write
import Zeos.Exam.Kernel
import Zeos.Exam.Pipes
import Zeos.Protection
