import SpecterComs.Verification.MlsStore.Ownership
import SpecterComs.Verification.MlsSession.Requests
import SpecterComs.Verification.Chat.Requests
import SpecterComs.Verification.Chat.Bundle
import SpecterComs.Verification.Chat.Gaps
import SpecterComs.Verification.Chat.Backfill
import SpecterComs.Verification.Chat.Retries
import SpecterComs.Verification.MediaServer.Ownership
import SpecterComs.Verification.MediaServer.Duck
import SpecterComs.Verification.MlsSession.Divergence
import SpecterComs.Verification.MlsStore.Legacy
import SpecterComs.Verification.IdentityNode.Revocation
import SpecterComs.Verification.Desktop.Users
import SpecterComs.Verification.Events.Launches
import SpecterComs.Verification.DeliveryService.Audience
import SpecterComs.Verification.Billing.Credits
import SpecterComs.Verification.Billing.UsageCycle
import SpecterComs.Verification.MediaServer.Activation
import SpecterComs.Verification.IdentityNode.Roles
import SpecterComs.Verification.MlsSession.Leaves
import SpecterComs.Verification.IdentityNode.Discovery
import SpecterComs.Verification.RelayAudio.Capacity
import SpecterComs.Verification.IdentityNode.Moves
import SpecterComs.Verification.IdentityNode.Invites
import SpecterComs.Verification.IdentityNode.EventStream
import SpecterComs.Verification.IdentityNode.Friends
import SpecterComs.Verification.IdentityNode.PasswordReset
import SpecterComs.Verification.Desktop.SingleFlight
import SpecterComs.Verification.Portal.RosterStream
import SpecterComs.Verification.Portal.AnnexB
import SpecterComs.Verification.Portal.SendPump
import SpecterComs.Verification.Portal.Tokens
import SpecterComs.Verification.MlsCrypto.Framing
import SpecterComs.Verification.MlsSession.Reconcile
import SpecterComs.Verification.MlsCrypto.GroupStorage
import SpecterComs.Verification.Desktop.EventFrames
import SpecterComs.Verification.MlsStore.CacheRuns
import SpecterComs.Verification.MlsStore.KeyCreation
import SpecterComs.Verification.MlsSession.LoggedRuns
import SpecterComs.Verification.MlsSession.StaleWrites
import SpecterComs.Verification.MediaServer.Descendants
import SpecterComs.Verification.RelayAudio.Lanes
import SpecterComs.Verification.RelayAudio.FrameProto
import SpecterComs.Verification.Audio.Vad
import SpecterComs.Verification.Audio.Resample
import SpecterComs.Verification.Events.Seats
import SpecterComs.Verification.MediaServer.Ssrc
import SpecterComs.Verification.MediaServer.VersionGate
import SpecterComs.Verification.IdentityNode.StreamCleanup
import SpecterComs.Verification.Portal.Frequencies
import SpecterComs.Verification.Portal.TreeLayout
import SpecterComs.Verification.MlsSession.Agreement
