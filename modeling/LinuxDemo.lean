import LinuxDemo.Lib.Blocks
import LinuxDemo.Lib.Words
import LinuxDemo.Rfc1321
import LinuxDemo.HashMd5Stream
import LinuxDemo.Lib.Runs
import LinuxDemo.Lib.CInt
import LinuxDemo.Cond
import LinuxDemo.LockQueue
import LinuxDemo.SimpleTask
import LinuxDemo.SimpleTaskDispatch
import LinuxDemo.SimpleTaskWake
import LinuxDemo.Lib.Retry
import LinuxDemo.FdIo
import LinuxDemo.FdWrite
import LinuxDemo.FdRead
import LinuxDemo.Lib.Handles
import LinuxDemo.FdObject
import LinuxDemo.FdOwner
import LinuxDemo.Lib.Compact
import LinuxDemo.ReadFileECC
import LinuxDemo.Lib.CStr
import LinuxDemo.Base16
import LinuxDemo.Licence
import LinuxDemo.LicenceRoundTrip
import LinuxDemo.TcpDestroy
import LinuxDemo.LicenceOnDisk
import LinuxDemo.HexRoundTrip
import LinuxDemo.ReadHexPairs
import LinuxDemo.Base16Contract
import LinuxDemo.Ecdh
import LinuxDemo.ReadFileECCExact
import LinuxDemo.CreateECDSAKey
import LinuxDemo.XmlRpc
import LinuxDemo.SimpleTaskPipe
import LinuxDemo.Lib.Locked
import LinuxDemo.LockQueueThreads
import LinuxDemo.NetIo
import LinuxDemo.FdSetRange
import LinuxDemo.SocketAddress
import LinuxDemo.HexPathsAgree
import LinuxDemo.Lib.Decimal
import LinuxDemo.Lib.OrdMap
import LinuxDemo.Lib.JsonGrammar
import LinuxDemo.JsonTool
import LinuxDemo.JsonValue
import LinuxDemo.JsonReader
import LinuxDemo.JsonReaderRun
import LinuxDemo.JsonReaderTokens
import LinuxDemo.JsonReaderPast
import LinuxDemo.JsonReaderNumber
import LinuxDemo.JsonComplete
import LinuxDemo.JsonDocument
import LinuxDemo.JsonWriter
import LinuxDemo.JsonWriterTree
import LinuxDemo.JsonStyledTree
import LinuxDemo.JsonRoundTrip
import LinuxDemo.Lib.LexCode
import LinuxDemo.JsonOrder
import LinuxDemo.Lib.Sparse
import LinuxDemo.JsonArray
import LinuxDemo.JsonMembers
import LinuxDemo.Lib.PrefixCode
import LinuxDemo.Main
import LinuxDemo.DBusConn
import LinuxDemo.Debugx
import LinuxDemo.Lib.Marks
import LinuxDemo.JsonLocation
import LinuxDemo.JsonPath
