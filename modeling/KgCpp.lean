import KgCpp.Lib.Copy
import KgCpp.Lib.Store
import KgCpp.Lib.Run
import KgCpp.Lib.Action
import KgCpp.Lib.Framing
import KgCpp.Lib.Pull
import KgCpp.Types
import KgCpp.Bytes.Fragmentation
import KgCpp.Bytes.Buffer
import KgCpp.Bytes.BufferContent
import KgCpp.Bytes.BufferRuns
import KgCpp.Crypto.K3xsxSalt
import KgCpp.Net.EchoCodec
import KgCpp.Net.EchoServer
import KgCpp.Net.EchoServerRuns
import KgCpp.Net.EchoClient
import KgCpp.Net.EchoClientFeed
import KgCpp.Net.EchoAgreement
import KgCpp.Net.BasicServer
import KgCpp.Net.BasicServerRuns
import KgCpp.Slice.Memory
import KgCpp.Slice.SliceImpl
import KgCpp.Slice.SliceRuns
import KgCpp.Net.ServiceThread
import KgCpp.Net.ServiceThreadRuns
import KgCpp.Net.CoroutineRead
import KgCpp.Net.CoroutineReadTimer
import KgCpp.Net.CoroutineReadRuns
import KgCpp.Lib.Trail
import KgCpp.Net.EchoSession
import KgCpp.Bytes.BufferShape
import KgCpp.Bytes.BufferSkip
import KgCpp.Lib.Shared
import KgCpp.Scripts.Duktape
import KgCpp.Lib.Stack
import KgCpp.Scripts.Text
import KgCpp.Lib.Assoc
import KgCpp.Scripts.Loader
import KgCpp.Scripts.Module
import KgCpp.Scripts.ModuleSearch
import KgCpp.Scripts.ModuleTable
import KgCpp.Scripts.ModuleSpec
import KgCpp.Scripts.ModuleRules
import KgCpp.Scripts.ModuleRefinement
import KgCpp.Scripts.ModuleHistory
import KgCpp.Scripts.ModuleHistoryRuns
import KgCpp.Lib.Rank
import KgCpp.Scripts.ModuleGraph
import KgCpp.Scripts.ModuleLoading
import KgCpp.Scripts.ModuleOnce
import KgCpp.Scripts.ModuleOwners
import KgCpp.Lib.Overlap
import KgCpp.Slice.Places
import KgCpp.Slice.SliceContent
import KgCpp.Slice.SliceAppend
import KgCpp.Slice.SliceFrame
import KgCpp.Slice.SliceAppendArray
import KgCpp.Slice.SliceCopy
import KgCpp.Slice.SliceEqual
import KgCpp.Lib.Least
import KgCpp.Net.BasicServerBalance
import KgCpp.Net.BasicServerRetry
import KgCpp.Net.CoroutineTeardown
import KgCpp.Net.EchoSessionPointer
import KgCpp.Net.EchoClientRaw
import KgCpp.Net.EchoClientHeader
import KgCpp.Lib.Fifo
import KgCpp.Bytes.FragmentationRuns
import KgCpp.Windows.Firewall
import KgCpp.Slice.SliceRange
import KgCpp.Net.EchoClientRetry
import KgCpp.Lib.Blocks
import KgCpp.Net.BasicServerBlocks
import KgCpp.Bytes.BufferCache
import KgCpp.Lib.Exchange
import KgCpp.Net.EchoSystem
import KgCpp.Lib.Ledger
import KgCpp.Windows.FirewallCom
import KgCpp.Windows.FirewallRuns
import KgCpp.Lib.Doubling
import KgCpp.Slice.SliceGrowth
import KgCpp.Bytes.BufferMemory
import KgCpp.Net.BasicServerSpread
import KgCpp.Crypto.K3xsxSaltInPlace
import KgCpp.Net.EchoClientRuns
import KgCpp.Net.AcceptThread
import KgCpp.Net.AcceptThreadShare
import KgCpp.Net.AcceptThreadFirst
import KgCpp.Scripts.CLoader
import KgCpp.Crypto.K3xsxSaltKnownByte
import KgCpp.Net.EchoMemory
import KgCpp.Net.ServerShutdown
import KgCpp.Net.ServerShutdownRuns
import KgCpp.Slice.SliceLoop
import KgCpp.Crypto.K3xsxSaltOtherSalt
import KgCpp.Net.ServerCalls
