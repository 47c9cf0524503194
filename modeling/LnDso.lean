import LnDso.Lib.Packets
import LnDso.Lib.Ring
import LnDso.Theorems.Decompression
import LnDso.Logic.Packing
import LnDso.Theorems.ImageCheck
import LnDso.Theorems.PacketLayout
import LnDso.Theorems.RoundTrip
import LnDso.Theorems.ChunkSizes
import LnDso.Theorems.Commands
import LnDso.Logic.Dispatch
import LnDso.Logic.Pages
import LnDso.Logic.Stable
import LnDso.Logic.Steps
import LnDso.Logic.Transactions
import LnDso.Theorems.Acknowledge
import LnDso.Theorems.AddressGuards
import LnDso.Theorems.BusReset
import LnDso.Theorems.Confidentiality
import LnDso.Theorems.Downloads
import LnDso.Theorems.EndpointIndex
import LnDso.Theorems.Handshake
import LnDso.Theorems.InStage
import LnDso.Theorems.ManifestReset
import LnDso.Theorems.OutStage
import LnDso.Theorems.OwnData
import LnDso.Theorems.PageMap
import LnDso.Theorems.Protection
import LnDso.Theorems.ReplyBounds
import LnDso.Theorems.Session
import LnDso.Theorems.StoredExactly
import LnDso.Theorems.TotalWipe
import LnDso.Theorems.UploadBack
import LnDso.Theorems.FlashDiscipline
import LnDso.Theorems.DeviceAddress
import LnDso.Theorems.RefusedWrite
import LnDso.Theorems.OwnBytes
import LnDso.Theorems.Leftovers
import LnDso.Theorems.EpMacros
import LnDso.Theorems.PmCopies
import LnDso.Theorems.Delay
import LnDso.Theorems.RefusedRequest
import LnDso.Theorems.Corruption
import LnDso.Theorems.LifeCycle
import LnDso.Theorems.Server
import LnDso.Theorems.Pins
import LnDso.Theorems.Wires
import LnDso.Theorems.Encoded
import LnDso.Theorems.MainLoop
import LnDso.Theorems.Marker
import LnDso.Theorems.Serial
import LnDso.Theorems.Setup
import LnDso.Theorems.Recovery
