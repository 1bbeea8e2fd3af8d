import OpenScreen.Network.Soundness
import OpenScreen.Network.VerifiedStatus
import OpenScreen.Crypto.Confirmation
import OpenScreen.Network.TranscriptBinding
import OpenScreen.Network.Completeness
import OpenScreen.Network.Poisoning
import OpenScreen.Network.TokenGate
import OpenScreen.Network.Configuring
import OpenScreen.Network.Buffering
import OpenScreen.Network.RoundTrip
import OpenScreen.Network.Secrecy
import OpenScreen.Network.Driven
import OpenScreen.Application.RoundTrip
import OpenScreen.Application.Simulation
import OpenScreen.Application.Safety
import OpenScreen.Application.Sending
import OpenScreen.Application.Lossless
import OpenScreen.Application.MandatoryFields
import OpenScreen.Application.Gate
import OpenScreen.Application.Announcement
import OpenScreen.Network.Acceptance
import OpenScreen.Quinn.Reconnect
import OpenScreen.Quinn.Streams
import OpenScreen.Discovery.Browser
import OpenScreen.Discovery.Advertising
import OpenScreen.Discovery.Publisher
import OpenScreen.Application.Certificate
import OpenScreen.Application.TextLimits
import OpenScreen.Application.RequestIds
import OpenScreen.Network.BufferBudget
import OpenScreen.Application.Identity
import OpenScreen.Application.MapOrder
import OpenScreen.Application.DecoderWork
import OpenScreen.Discovery.Snapshot
import OpenScreen.Discovery.Apart
import OpenScreen.Quinn.Meeting
import OpenScreen.Programs.Setup
import OpenScreen.Application.TwoMachines
import OpenScreen.Crypto.History
import OpenScreen.Quinn.Agreement
