import ClusterNats.Config.Caps
import ClusterNats.Kv.Backfilled
import ClusterNats.Kv.Claim
import ClusterNats.Kv.Delete
import ClusterNats.Kv.Fold
import ClusterNats.Kv.Gated
import ClusterNats.Kv.Indexed
import ClusterNats.Kv.Invisible
import ClusterNats.Kv.Lapse
import ClusterNats.Kv.Lifetime
import ClusterNats.Kv.Listed
import ClusterNats.Kv.Ranges
import ClusterNats.Kv.Readers
import ClusterNats.Kv.Refine
import ClusterNats.Kv.Refused
import ClusterNats.Kv.Streams
import ClusterNats.Kv.Subjects
import ClusterNats.Kv.Swept
import ClusterNats.Lease.Codes
import ClusterNats.Lease.Expiry
import ClusterNats.Lease.Failures
import ClusterNats.Lease.Mint
import ClusterNats.Lease.Names
import ClusterNats.Lease.Timing
import ClusterNats.Lease.Exclusion
import ClusterNats.Peer.Detector
import ClusterNats.Pubsub.Forwarded
