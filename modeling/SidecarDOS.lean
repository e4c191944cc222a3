import SidecarDOS.Protocol.Framing
import SidecarDOS.Protocol.Codec
import SidecarDOS.Video.Completeness
import SidecarDOS.Client.PairingSafety
import SidecarDOS.Client.Recovery
import SidecarDOS.Pairing.HostAgreement
import SidecarDOS.Pairing.StoredSecrets
import SidecarDOS.Host.Teardown
import SidecarDOS.Host.InForce
import SidecarDOS.Host.Modes
import SidecarDOS.Host.Monitor
import SidecarDOS.Host.Presses
import SidecarDOS.Host.Touches
import SidecarDOS.Host.Sessions
import SidecarDOS.Client.Disconnect
import SidecarDOS.Driver.Registrations
import SidecarDOS.Driver.Wired
import SidecarDOS.Host.Retries
import SidecarDOS.Host.Overlaps
import SidecarDOS.Host.Preferences
import SidecarDOS.Video.Losses
import SidecarDOS.Protocol.Envelopes
import SidecarDOS.Client.Decoding
import SidecarDOS.Pairing.Devices
import SidecarDOS.Pairing.Code
import SidecarDOS.Host.Contacts
import SidecarDOS.Host.Reports
import SidecarDOS.Video.Traps
import SidecarDOS.Native.Samples
import SidecarDOS.Native.Frames
import SidecarDOS.Host.Restored
import SidecarDOS.Host.InputPath
import SidecarDOS.Video.VideoPath
