import QueueDpdk.Chain.Checksum
import QueueDpdk.Chain.FullShard
import QueueDpdk.Chain.Shutdown
import QueueDpdk.Chain.Sketch
import QueueDpdk.Chain.Solicited
import QueueDpdk.Chain.Verdicts
import QueueDpdk.Chain.WanLookup
import QueueDpdk.Chain.Wire
import QueueDpdk.LibVig.Cht
import QueueDpdk.LibVig.LongestMatch
import QueueDpdk.LibVig.VigorTime
import QueueDpdk.Locality.Capture
import QueueDpdk.Mehcached.Locks
import QueueDpdk.Mehcached.Recent
import QueueDpdk.Mica.Store
import QueueDpdk.NatFlow.Expiry
import QueueDpdk.NatFlow.Idle
import QueueDpdk.NatFlow.Layouts
import QueueDpdk.NatFlow.Shared
import QueueDpdk.Options.Numbers
import QueueDpdk.PollLoop.MicaPartition
import QueueDpdk.PollLoop.MicaTransmit
import QueueDpdk.PollLoop.Modes
import QueueDpdk.PollLoop.Penalty
import QueueDpdk.Rules.Ipv6
import QueueDpdk.Rules.Priorities
import QueueDpdk.Stats.PrintStats
import QueueDpdk.Trex.Latency
