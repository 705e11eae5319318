import LatticeMesh.Agent.IpcStats
import LatticeMesh.Agent.McpProxy
import LatticeMesh.Agent.NetmapOrigin
import LatticeMesh.Agent.NetmapSync
import LatticeMesh.Agent.RateLimits
import LatticeMesh.Agent.RouteGrants
import LatticeMesh.Agent.SignalingFrame
import LatticeMesh.Apple.Routes
import LatticeMesh.Apple.Unreachable
import LatticeMesh.Controller.AddressOwnership
import LatticeMesh.Controller.Convergence
import LatticeMesh.Controller.Peering
import LatticeMesh.Controller.PolicyOrder
import LatticeMesh.Controller.Reconciler
import LatticeMesh.Firewall.Provision
import LatticeMesh.Ipam.AllocateSubnet
import LatticeMesh.License.Validator
import LatticeMesh.Media.Close
import LatticeMesh.Monitor.AlertEngine
import LatticeMesh.Netmap.Notifications
import LatticeMesh.Netmap.OverlayHost
import LatticeMesh.Netmap.Visibility
import LatticeMesh.Reconcile.IdentityGC
import LatticeMesh.Reconcile.Liveness
import LatticeMesh.Reconcile.Resync
import LatticeMesh.Reconcile.Retries
import LatticeMesh.Registry.Addresses
import LatticeMesh.Registry.Credentials
import LatticeMesh.Registry.Disabling
import LatticeMesh.Registry.Enrollment
import LatticeMesh.Registry.TokenService
import LatticeMesh.Relay.Challenges
import LatticeMesh.Relay.FailLimiter
import LatticeMesh.Relay.Forwarding
import LatticeMesh.Relay.Isolation
import LatticeMesh.Relay.Lifecycle
import LatticeMesh.Relay.RegisterFirst
import LatticeMesh.Relay.SessionStream
import LatticeMesh.Relay.URLToken
import LatticeMesh.Server.Attenuation
import LatticeMesh.Server.Invitation
import LatticeMesh.Server.PeerPages
import LatticeMesh.Server.PolicyPreview
import LatticeMesh.Server.Workflow
import LatticeMesh.Split.Apnic
import LatticeMesh.Transport.Agents
import LatticeMesh.Transport.Agreement
import LatticeMesh.Transport.Configurator
import LatticeMesh.Transport.Correlation
import LatticeMesh.Transport.Epochs
import LatticeMesh.Transport.GiveUp
import LatticeMesh.Transport.LivenessTracker
import LatticeMesh.Transport.PathPing
import LatticeMesh.Transport.Removal
import LatticeMesh.Transport.Senders
import LatticeMesh.Transport.Shadow
