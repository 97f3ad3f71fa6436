import IoUring.Foundation.ByteField
import IoUring.Foundation.ByteMemory
import IoUring.Foundation.Cast
import IoUring.Foundation.FlagWord
import IoUring.Foundation.HandleTable
import IoUring.Foundation.LastWrite
import IoUring.Foundation.Ownership
import IoUring.Foundation.Packed
import IoUring.Foundation.Progress
import IoUring.Foundation.Region
import IoUring.Foundation.RingWindow
import IoUring.Foundation.StoreBuffer
import IoUring.Foundation.Tickets
import IoUring.Foundation.Transition
import IoUring.Foundation.Usize
import IoUring.Foundation.WrappingCounter
import IoUring.Sys
import IoUring.Types
import IoUring.Timespec
import IoUring.Parameters
import IoUring.Mmap
import IoUring.RingSize
import IoUring.Squeue.Queue
import IoUring.Squeue.Fifo
import IoUring.Squeue.Batch
import IoUring.Squeue.Debug
import IoUring.Squeue.Entry
import IoUring.Squeue.ByteImage
import IoUring.Squeue.Indirection
import IoUring.Cqueue.Queue
import IoUring.Cqueue.Iterator
import IoUring.Cqueue.Delivery
import IoUring.Cqueue.Status
import IoUring.Cqueue.Entry
import IoUring.Opcode.Basic
import IoUring.Opcode.File
import IoUring.Opcode.Net
import IoUring.Opcode.Control
import IoUring.Opcode.Op
import IoUring.Opcode.FileTarget
import IoUring.Opcode.FileSlot
import IoUring.Opcode.Length
import IoUring.Opcode.TwoFiles
import IoUring.Opcode.Receive
import IoUring.Opcode.Command
import IoUring.Opcode.Setters
import IoUring.Submit.Submitter
import IoUring.Submit.Decision
import IoUring.Submit.Length
import IoUring.Submit.Args
import IoUring.Submit.Register
import IoUring.Submit.RegisteredRing
import IoUring.Submit.Designation
import IoUring.Submit.Cancel
import IoUring.Submit.Count
import IoUring.Sqpoll.Protocol
import IoUring.Sqpoll.WakeUp
import IoUring.Sqpoll.Progress
import IoUring.Ring.System
import IoUring.Ring.Conservation
import IoUring.Ring.Progress
import IoUring.Ring.Setup
import IoUring.Ring.Bounds
import IoUring.Ring.Builder
import IoUring.Ring.Live
import IoUring.Ring.Owned
import IoUring.Ring.Mapped
import IoUring.Ring.Refinement
import IoUring.Ring.Start
import IoUring.RecvMsg.Parse
import IoUring.RecvMsg.Layout
import IoUring.BufRing.Ring
import IoUring.BufRing.Protocol
import IoUring.BufRing.Handles
import IoUring.BufRing.Bundle
import IoUring.Opcode.Decode
import IoUring.Opcode.RoundTrip
import IoUring.Opcode.Marks
import IoUring.TcpEcho.Server
import IoUring.TcpEcho.Sessions
import IoUring.TcpEcho.Desk
import IoUring.TcpEcho.Custody
import IoUring.TcpEcho.Agreement
import IoUring.TcpEcho.Answers
import IoUring.TcpEcho.Arms
import IoUring.TcpEcho.Echo
import IoUring.TcpEcho.System
import IoUring.TcpEcho.Queues
import IoUring.TcpEcho.Connections
import IoUring.TcpEcho.Lost
import IoUring.TcpEcho.Withheld
import IoUring.TcpEcho.Rounds
