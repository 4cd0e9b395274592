import UnixNetProg.FileLock.CreatLock
import UnixNetProg.FileLock.FileRecord
import UnixNetProg.MessageQueue.Transfer
import UnixNetProg.Semaphore.Creation
import UnixNetProg.Semaphore.Removal
import UnixNetProg.Semaphore.SeqNo
import UnixNetProg.SharedMemory.SingleBuffer
import UnixNetProg.Handshake.Agreement
import UnixNetProg.Inetd.Rearm
import UnixNetProg.StreamMessages.Untrusted
import UnixNetProg.TcpEcho.InStep
import UnixNetProg.TwoFifos.NoDeadlock
import UnixNetProg.UdpEcho.Faithful
import UnixNetProg.AsyncIo.Wakeup
import UnixNetProg.MyCat.Descriptors
import UnixNetProg.Select.Copier
import UnixNetProg.Writev.Gather
import UnixNetProg.Readv.Failing
import UnixNetProg.Strtol.Stops
import UnixNetProg.UndoLock.Lock
import UnixNetProg.Exchange.Indices
import UnixNetProg.MyCat.MyOpen
import UnixNetProg.DgService.Quit
import UnixNetProg.DgService.Peer
import UnixNetProg.Inetd.StrEcho
import UnixNetProg.Inetd.Launch
import UnixNetProg.Rresvport.Descriptors
import UnixNetProg.Semaphore.Amount
import UnixNetProg.StreamIo.Annotated
import UnixNetProg.Connectionless.Server
import UnixNetProg.OpenFile.Copy
import UnixNetProg.ErrRoutine.Overflow
import UnixNetProg.Strlcpy.Bounds
import UnixNetProg.Strcmp.Order
import UnixNetProg.Semaphore.Numbers
import UnixNetProg.Semaphore.Budget
import UnixNetProg.FileLock.Abandoned
import UnixNetProg.UndoLock.NoUndo
import UnixNetProg.Inetd.Handover
import UnixNetProg.TcpDaemon.Reaping
import UnixNetProg.StreamMessages.Answered
import UnixNetProg.Pipes.AsFifos
import UnixNetProg.MessageQueue.AnyOrder
import UnixNetProg.LineService.Served
import UnixNetProg.UdpEcho.Copies
import UnixNetProg.TcpEcho.Ends
import UnixNetProg.TcpEcho.Exact
