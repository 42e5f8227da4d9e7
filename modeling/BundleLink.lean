import BundleLink.Channel.Script
import BundleLink.Generation
import BundleLink.Monitor.Run
import BundleLink.Pool.Run
import BundleLink.Proofs.Calling
import BundleLink.Proofs.Gathering
import BundleLink.Proofs.Lossy.Integrity
import BundleLink.Proofs.Monitor.Claims
import BundleLink.Proofs.Network.Lifecycle
import BundleLink.Proofs.Pair.Quieting
import BundleLink.Proofs.Pair.Wedging
import BundleLink.Proofs.Parsing
import BundleLink.Proofs.Piping
import BundleLink.Proofs.Pool.Wakeups
import BundleLink.Proofs.Reassembly.Delivery
import BundleLink.Proofs.Resync
import BundleLink.Proofs.RoundTrip
import BundleLink.Proofs.Session.Acks
import BundleLink.Proofs.Session.Retention
import BundleLink.Proofs.Session.Safety
import BundleLink.Proofs.Session.Separation
import BundleLink.Proofs.Session.Silence
import BundleLink.Proofs.Session.Tampering
import BundleLink.Proofs.Session.Traffic
import BundleLink.Proofs.Sliding
