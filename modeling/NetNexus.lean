import NetNexus.Netconf.Proofs.RoundTripProofs
import NetNexus.Rpki.Proofs.CacheProofs
import NetNexus.Rpki.Proofs.NormalizeProofs
import NetNexus.Rpki.Proofs.RouterProofs
import NetNexus.Rpki.Proofs.IntegrityProofs
import NetNexus.Bmp.Proofs.FramingProofs
import NetNexus.Bgp.Proofs.AsPathProofs
import NetNexus.Bgp.Proofs.AttributeProofs
import NetNexus.Bgp.Proofs.AttrStoreProofs
import NetNexus.Netconf.Proofs.ClientProofs
import NetNexus.Bgp.Proofs.FsmProofs
import NetNexus.Bgp.Proofs.NlriProofs
import NetNexus.Bgp.Proofs.OpenProofs
import NetNexus.Bgp.Proofs.UpdateProofs
import NetNexus.Bmp.Proofs.PersistenceClientProofs
import NetNexus.Bmp.Proofs.IngestPoolProofs
import NetNexus.Bmp.Proofs.StoreCounterProofs
import NetNexus.Bmp.Proofs.StoreDivisionProofs
import NetNexus.Bmp.Proofs.StoreGarbageProofs
import NetNexus.Dhcp.Proofs.WorkerProofs
import NetNexus.Dhcp6.Proofs.WorkerProofs
import NetNexus.Tftp.Proofs.DownloadProofs
import NetNexus.Tftp.Proofs.UploadProofs
import NetNexus.Ftp.Proofs.ReceiverProofs
import NetNexus.Ftp.Proofs.SessionProofs
import NetNexus.TcpAuth.Proofs.HandoffProofs
import NetNexus.Worker.Proofs.RequestClientProofs
import NetNexus.Radius.Proofs.PacketProofs
import NetNexus.Bmp.Proofs.RouteTlvProofs
import NetNexus.Bmp.Proofs.InterningProofs
import NetNexus.Rpki.Proofs.HistoryProofs
import NetNexus.Rpki.Proofs.SendingProofs
