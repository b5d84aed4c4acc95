import ReplicaRing.Address
import ReplicaRing.Automaton
import ReplicaRing.Blake3
import ReplicaRing.Blob
import ReplicaRing.Blob.Root
import ReplicaRing.Blob.Span
import ReplicaRing.Bytes
import ReplicaRing.Cbor.Header
import ReplicaRing.Cbor.Item
import ReplicaRing.Cbor.Record
import ReplicaRing.Client
import ReplicaRing.Effect
import ReplicaRing.Entry
import ReplicaRing.Error
import ReplicaRing.Level
import ReplicaRing.Membership
import ReplicaRing.Message
import ReplicaRing.Message.Layout
import ReplicaRing.Message.Specimen
import ReplicaRing.Network
import ReplicaRing.Node
import ReplicaRing.Outcome
import ReplicaRing.Peer
import ReplicaRing.Ping
import ReplicaRing.Position
import ReplicaRing.Program
import ReplicaRing.Proofs.Automaton.History
import ReplicaRing.Proofs.Automaton.Moves
import ReplicaRing.Proofs.Automaton.Order
import ReplicaRing.Proofs.Automaton.Refinement
import ReplicaRing.Proofs.Automaton.Timed
import ReplicaRing.Proofs.Blob.Bounds
import ReplicaRing.Proofs.Blob.Calls
import ReplicaRing.Proofs.Blob.Flat
import ReplicaRing.Proofs.Blob.FlatArray
import ReplicaRing.Proofs.Blob.Independence
import ReplicaRing.Proofs.Blob.PageKey
import ReplicaRing.Proofs.Blob.Pages
import ReplicaRing.Proofs.Blob.Ranges
import ReplicaRing.Proofs.Blob.Separation
import ReplicaRing.Proofs.Blob.Service
import ReplicaRing.Proofs.Blob.Steps
import ReplicaRing.Proofs.Blob.Tiling
import ReplicaRing.Proofs.Blob.Visits
import ReplicaRing.Proofs.Client.Interleaving
import ReplicaRing.Proofs.Client.Programs
import ReplicaRing.Proofs.Client.Transcripts
import ReplicaRing.Proofs.Codec.Consumption
import ReplicaRing.Proofs.Codec.Decoding
import ReplicaRing.Proofs.Codec.Encoding
import ReplicaRing.Proofs.Codec.Envelope
import ReplicaRing.Proofs.Codec.Record
import ReplicaRing.Proofs.Codec.Spelling
import ReplicaRing.Proofs.Codec.Utf8
import ReplicaRing.Proofs.Codec.Wire
import ReplicaRing.Proofs.Fleet.Completion
import ReplicaRing.Proofs.Fleet.Execution
import ReplicaRing.Proofs.Fleet.Fetching
import ReplicaRing.Proofs.Fleet.Findings
import ReplicaRing.Proofs.Fleet.Finished
import ReplicaRing.Proofs.Fleet.Finite
import ReplicaRing.Proofs.Fleet.Operations
import ReplicaRing.Proofs.Fleet.Order
import ReplicaRing.Proofs.Fleet.Persistence
import ReplicaRing.Proofs.Fleet.Progress
import ReplicaRing.Proofs.Fleet.ReadBack
import ReplicaRing.Proofs.Fleet.Receipts
import ReplicaRing.Proofs.Fleet.Rehearsal
import ReplicaRing.Proofs.Fleet.Reliability
import ReplicaRing.Proofs.Fleet.Repair
import ReplicaRing.Proofs.Fleet.Replies
import ReplicaRing.Proofs.Fleet.Routing
import ReplicaRing.Proofs.Fleet.Served
import ReplicaRing.Proofs.Fleet.Sessions
import ReplicaRing.Proofs.Fleet.Soundness
import ReplicaRing.Proofs.Fleet.Sparing
import ReplicaRing.Proofs.Fleet.Stages
import ReplicaRing.Proofs.Fleet.Steps
import ReplicaRing.Proofs.Fleet.Traffic
import ReplicaRing.Proofs.Membership.Changes
import ReplicaRing.Proofs.Membership.Subscriber
import ReplicaRing.Proofs.Node.Acknowledgements
import ReplicaRing.Proofs.Node.Isolation
import ReplicaRing.Proofs.Node.Moves
import ReplicaRing.Proofs.Node.Relay
import ReplicaRing.Proofs.Node.Requests
import ReplicaRing.Proofs.Node.Room
import ReplicaRing.Proofs.Node.Writes
import ReplicaRing.Proofs.Ping.Conduct
import ReplicaRing.Proofs.Ping.Deciding
import ReplicaRing.Proofs.Ping.Ending
import ReplicaRing.Proofs.Ping.Orderly
import ReplicaRing.Proofs.Ping.Verdict
import ReplicaRing.Proofs.Replication.Classification
import ReplicaRing.Proofs.Replication.Completion
import ReplicaRing.Proofs.Replication.Conduct
import ReplicaRing.Proofs.Replication.Exact
import ReplicaRing.Proofs.Replication.FanOut
import ReplicaRing.Proofs.Replication.Orderly
import ReplicaRing.Proofs.Replication.Reactions
import ReplicaRing.Proofs.Replication.Records
import ReplicaRing.Proofs.Replication.Sending
import ReplicaRing.Proofs.Replication.Settling
import ReplicaRing.Proofs.Replication.Steady
import ReplicaRing.Proofs.Replication.Targets
import ReplicaRing.Proofs.Replication.Verdict
import ReplicaRing.Proofs.Replication.Waiting
import ReplicaRing.Proofs.Ring.Canonical
import ReplicaRing.Proofs.Ring.CyclicOrder
import ReplicaRing.Proofs.Ring.Leaving
import ReplicaRing.Proofs.Ring.Lookup
import ReplicaRing.Proofs.Ring.Placement
import ReplicaRing.Proofs.Ring.Selection
import ReplicaRing.Proofs.Server.Answers
import ReplicaRing.Proofs.Server.Serving
import ReplicaRing.Proofs.Server.Storing
import ReplicaRing.Proofs.Server.Willing
import ReplicaRing.Proofs.Simulation.Agenda
import ReplicaRing.Proofs.Simulation.Clients
import ReplicaRing.Proofs.Simulation.Clusters
import ReplicaRing.Proofs.Simulation.Ledger
import ReplicaRing.Proofs.Simulation.Mirrors
import ReplicaRing.Proofs.Simulation.Network
import ReplicaRing.Replication
import ReplicaRing.Request
import ReplicaRing.Ring
import ReplicaRing.Routes
import ReplicaRing.Server
import ReplicaRing.Settings
import ReplicaRing.Simulation.Agenda
import ReplicaRing.Simulation.Bench
import ReplicaRing.Simulation.Call
import ReplicaRing.Simulation.Cluster
import ReplicaRing.Simulation.Medium
import ReplicaRing.Simulation.ScriptedPeers
import ReplicaRing.Simulation.Session
import ReplicaRing.Simulation.Simulator
import ReplicaRing.Simulation.Trial
import ReplicaRing.Simulation.World
import ReplicaRing.Storage
import ReplicaRing.Table
import ReplicaRing.Text.Hex
import ReplicaRing.Text.Utf8
