import GoEthereum.Data.BigEndian
import GoEthereum.Data.Splice
import GoEthereum.Rlp.Value
import GoEthereum.Rlp.Encode
import GoEthereum.Rlp.EncodeCorrect
import GoEthereum.Rlp.Outputs
import GoEthereum.Rlp.Stream
import GoEthereum.Rlp.StreamSpec
import GoEthereum.Rlp.RoundTrip
import GoEthereum.Rlp.StreamInv
import GoEthereum.Rlp.Canonical
import GoEthereum.Data.Memo
import GoEthereum.Data.Scan
import GoEthereum.Data.StateM
import GoEthereum.Vm.Common
import GoEthereum.Vm.Machine
import GoEthereum.Vm.Analysis
import GoEthereum.Vm.JumpTable
import GoEthereum.Vm.Env
import GoEthereum.Vm.Instructions
import GoEthereum.Vm.Gas
import GoEthereum.Vm.Interpreter
import GoEthereum.Vm.Frame
import GoEthereum.Vm.Calls
import GoEthereum.Vm.Boundaries
import GoEthereum.Vm.StackSafety
import GoEthereum.Types.TransactionSigning
import GoEthereum.Core.StateTransition
import GoEthereum.Swarm.Chunker
import GoEthereum.Core.DatabaseUtil
import GoEthereum.Core.HeaderChain
import GoEthereum.Data.LastByKey
import GoEthereum.P2p.Peer
import GoEthereum.Crypto.Ecies
import GoEthereum.P2p.Rlpx
import GoEthereum.Swarm.Kademlia
import GoEthereum.Data.Digits
import GoEthereum.Common.Hexutil
import GoEthereum.Data.SortedStore
import GoEthereum.Swarm.Database
import GoEthereum.Swarm.DbStore
import GoEthereum.Swarm.SyncDb
import GoEthereum.Swarm.NetStore
import GoEthereum.Swarm.Manifest
import GoEthereum.Data.Mutex
import GoEthereum.Downloader.Queue
import GoEthereum.P2p.Table
import GoEthereum.Data.Word
import GoEthereum.Vm.WordSemantics
import GoEthereum.Vm.MemoryGas
import GoEthereum.Data.Search
import GoEthereum.Data.Nearest
import GoEthereum.Data.XorDistance
import GoEthereum.Swarm.FindClosest
import GoEthereum.P2p.Lookup
import GoEthereum.Compression.Rle
import GoEthereum.Trie.Encoding
import GoEthereum.Rlp.Raw
import GoEthereum.Trie.Node
import GoEthereum.Les.FlowControl
import GoEthereum.Whisper.Message
import GoEthereum.Contracts.Chequebook
import GoEthereum.Swarm.Swap
import GoEthereum.P2p.Neighbors
import GoEthereum.Data.Float64
import GoEthereum.Types.Bloom
import GoEthereum.Eth.Filter
import GoEthereum.Trie.Trie
import GoEthereum.Trie.Hasher
import GoEthereum.Trie.CacheFlags
import GoEthereum.Trie.Iterator
import GoEthereum.Trie.Walk
import GoEthereum.Rlp.StreamCalls
import GoEthereum.Data.WeightedPick
import GoEthereum.Les.RandSelect
import GoEthereum.Les.RandSelectSet
import GoEthereum.Data.PrefixMap
import GoEthereum.Trie.InMemory
import GoEthereum.Trie.Update
import GoEthereum.Trie.Contents
import GoEthereum.Core.BlockValidator
import GoEthereum.Miner.Worker
import GoEthereum.Accounts.AddrCache
import GoEthereum.State.ManagedState
import GoEthereum.Miner.Unconfirmed
import GoEthereum.Whisper.Pool
import GoEthereum.Les.ServerPool
import GoEthereum.Les.ServerPoolRuns
