import NetEngine.Lib.OrderedMap
import NetEngine.Lib.Machine
import NetEngine.Lib.Memory
import NetEngine.Lib.Blocks
import NetEngine.Lib.Positions
import NetEngine.Lib.FreeList
import NetEngine.Lib.Regions
import NetEngine.Lib.Layout
import NetEngine.Lib.Dictionary
import NetEngine.Lib.Items
import NetEngine.Lib.Fallible
import NetEngine.Net.Message
import NetEngine.Net.ClientSocket
import NetEngine.Net.Framing
import NetEngine.Net.RecvSafety
import NetEngine.Net.SendBuffer
import NetEngine.Net.SendImm
import NetEngine.Net.SendImage
import NetEngine.Net.ReadWriteData
import NetEngine.Net.CellLoop
import NetEngine.Net.EchoServer
import NetEngine.Net.TCPClient
import NetEngine.Net.TCPClientCalls
import NetEngine.Net.TCPClientFraming
import NetEngine.Net.CellLog
import NetEngine.Net.Reconnect
import NetEngine.LockStep.Proto
import NetEngine.LockStep.World
import NetEngine.LockStep.WorldRun
import NetEngine.LockStep.Reception
import NetEngine.LockStep.HandOff
import NetEngine.LockStep.FrameHistory
import NetEngine.LockStep.StartOfGame
import NetEngine.LockStep.LoginBook
import NetEngine.LockStep.Identities
import NetEngine.LockStep.SightList
import NetEngine.LockStep.MessageSize
import NetEngine.LockStep.HandedMessages
import NetEngine.LockStep.Server
import NetEngine.LockStep.ServerRun
import NetEngine.LockStep.SessionTable
import NetEngine.LockStep.JoinExit
import NetEngine.LockStep.LiveCells
import NetEngine.LockStep.FrameStream
import NetEngine.Threads.ThreadService
import NetEngine.Threads.SemaphoreCounts
import NetEngine.Threads.CloseJoins
import NetEngine.Threads.OneWorker
import NetEngine.Threads.Deadlock
import NetEngine.Threads.TaskService
import NetEngine.Threads.TaskOrder
import NetEngine.Pools.ObjectPool
import NetEngine.Pools.MemManager
import NetEngine.Pools.MemIntegrity
import NetEngine.Pools.PoolLayout
import NetEngine.Unity.Frames
import NetEngine.Unity.FrameExecution
import NetEngine.Unity.FrameGate
import NetEngine.Unity.Sights
import NetEngine.Unity.Registry
import NetEngine.Unity.Identity
import NetEngine.Unity.IoBuffer
import NetEngine.Unity.CPacket
import NetEngine.Unity.PacketContract
import NetEngine.Unity.CTcpClient
import NetEngine.Unity.ClientFraming
import NetEngine.Unity.ClientLag
import NetEngine.Unity.ClientSend
import NetEngine.Unity.SendQueue
import NetEngine.Unity.ProtoSerialize
import NetEngine.Unity.KeyInput
import NetEngine.Unity.SizeLimits
import NetEngine.Unity.IntHashPool
import NetEngine.LockStep.Handshake
import NetEngine.Unity.Agreement
import NetEngine.Wire.CodedStream
import NetEngine.Wire.UnknownFields
import NetEngine.Wire.Parsing
import NetEngine.Wire.MessageClass
import NetEngine.Wire.WireFormatLite
import NetEngine.Wire.PlayerProto
import NetEngine.Wire.RoundTrip
import NetEngine.Wire.ServerCodec
import NetEngine.Mina.Buffer
import NetEngine.Mina.ByteBuffer
import NetEngine.Mina.Contract
import NetEngine.Mina.Strings
import NetEngine.Mina.Heap
import NetEngine.Mina.HeapSafety
import NetEngine.Mina.Contents
import NetEngine.Mina.Prefixed
import NetEngine.Mina.Filling
import NetEngine.Mina.Compaction
