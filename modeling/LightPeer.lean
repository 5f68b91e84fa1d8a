import LightPeer.Bytes
import LightPeer.Download.BlockTracker
import LightPeer.Download.Requests
import LightPeer.Endpoint.Basic
import LightPeer.Endpoint.Ipv4
import LightPeer.Endpoint.Ipv6
import LightPeer.Endpoint.Parts
import LightPeer.Error
import LightPeer.FiniteSet
import LightPeer.Hash
import LightPeer.Header
import LightPeer.Hex
import LightPeer.Log
import LightPeer.Merkle.PartialTree
import LightPeer.Merkle.Shape
import LightPeer.Merkle.Tree
import LightPeer.Merkle.Walk
import LightPeer.Merkle.Words
import LightPeer.MerkleBlock
import LightPeer.Message
import LightPeer.Numeral
import LightPeer.Session.Call
import LightPeer.Session.Callback
import LightPeer.Session.Client
import LightPeer.Session.Run
import LightPeer.Session.Script
import LightPeer.Session.State
import LightPeer.Session.Tally
import LightPeer.Session.Trackers
import LightPeer.Settings.Basic
import LightPeer.Settings.File
import LightPeer.Sha256
import LightPeer.Stall.Preload
import LightPeer.Stall.State
import LightPeer.Stall.Watchdog
import LightPeer.Toml.Integer
import LightPeer.Toml.Key
import LightPeer.Toml.Table
import LightPeer.Word
import LightPeer.Proofs.Merkle.Level
import LightPeer.Proofs.Merkle.Walk
import LightPeer.Proofs.MerkleBlock.Reading
import LightPeer.Proofs.MerkleBlock.PrefixFree
import LightPeer.Proofs.Merkle.Soundness
import LightPeer.Proofs.Merkle.Twins
import LightPeer.Proofs.MerkleBlock.Soundness
import LightPeer.Proofs.MerkleBlock.Twins
import LightPeer.Proofs.Merkle.Agreement
import LightPeer.Proofs.MerkleBlock.Agreement
import LightPeer.Proofs.Bits
import LightPeer.Proofs.Merkle.Pruning
import LightPeer.Proofs.MerkleBlock.Encoding
import LightPeer.Proofs.Session.Books
import LightPeer.Proofs.Session.Completion
import LightPeer.Proofs.Outstanding
import LightPeer.Proofs.Stall.Unanswered
import LightPeer.Proofs.Stall.Patience
import LightPeer.Proofs.Stall.HangUp
import LightPeer.Proofs.Session.Arrivals
import LightPeer.Proofs.Session.Feed
import LightPeer.Proofs.Session.Rounds
import LightPeer.Proofs.Session.Expectations
import LightPeer.Proofs.Session.Requests
import LightPeer.Proofs.Session.Counts
import LightPeer.Proofs.Download.Lifecycle
import LightPeer.Proofs.Download.Crew
import LightPeer.Proofs.Session.Dispatch
import LightPeer.Proofs.Session.Filters
import LightPeer.Proofs.Session.Lasting
import LightPeer.Proofs.Session.Height
import LightPeer.Proofs.Session.Shutdown
import LightPeer.Proofs.Session.Heartbeat
import LightPeer.Proofs.Stall.Preload
import LightPeer.Proofs.Merkle.Words
import LightPeer.Proofs.MerkleBlock.Words
import LightPeer.Proofs.Hex
import LightPeer.Proofs.Hash
import LightPeer.Proofs.Header
import LightPeer.Proofs.Session.Sending
import LightPeer.Proofs.Download.Requests
import LightPeer.Proofs.Session.History
import LightPeer.Proofs.Session.BlockQueue
import LightPeer.Proofs.Session.Replacement
import LightPeer.Proofs.Session.Tally
import LightPeer.Proofs.Session.FalsePositives
import LightPeer.Proofs.Stall.Cadence
import LightPeer.Proofs.Settings
import LightPeer.Proofs.Log
import LightPeer.Proofs.Stall.Patrol
import LightPeer.Proofs.Session.Recast
import LightPeer.Proofs.Session.Logging
