import AutonomiWebrtc.Upstream.Sample
import AutonomiWebrtc.Retrieval.Confluence
import AutonomiWebrtc.Retrieve.Convergence
import AutonomiWebrtc.Retrieve.Content
import AutonomiWebrtc.Retrieve.Repeats
import AutonomiWebrtc.Retrieve.Shrunk
import AutonomiWebrtc.Wire.Carried
import AutonomiWebrtc.Proxy.Source
import AutonomiWebrtc.EndToEnd
import AutonomiWebrtc.Proxy.Identity
import AutonomiWebrtc.Retrieve.Tasks
import AutonomiWebrtc.Library.Segments
import AutonomiWebrtc.Retrieve.Progress
import AutonomiWebrtc.Retrieve.Stopping
import AutonomiWebrtc.Wire.Reads
import AutonomiWebrtc.Address
import AutonomiWebrtc.App.Connection
import AutonomiWebrtc.App.Nodes
import AutonomiWebrtc.Build
import AutonomiWebrtc.Dtls.Stale
import AutonomiWebrtc.Dtls.Plaintext
import AutonomiWebrtc.Dtls.Caches
import AutonomiWebrtc.Dtls.Admission
import AutonomiWebrtc.Dtls.Transcript
import AutonomiWebrtc.Dtls.Unchecked
import AutonomiWebrtc.Dtls.Negotiation
