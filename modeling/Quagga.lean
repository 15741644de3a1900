import Quagga.Bgpd.VotedSelection
import Quagga.Bgpd.MaxPrefix
import Quagga.Bgpd.VoteAccounting
import Quagga.Bgpd.TrustIsolation
import Quagga.Bgpd.Delivery
import Quagga.Bgpd.VoteTransfer
import Quagga.Bgpd.Startup
import Quagga.Bgpd.AspathLoop
import Quagga.Bgpd.DeterministicMed
import Quagga.Bgpd.TreatAsWithdraw
import Quagga.Bgpd.Collision
import Quagga.Bgpd.ZebraWithdraw
import Quagga.Bgpd.AspathIntern
import Quagga.Bgpd.ClearAdjacency
import Quagga.Bgpd.RadixTable
import Quagga.Bgpd.RouteRefresh
import Quagga.Bgpd.Aggregates
import Quagga.Bgpd.ProcessQueue
import Quagga.Bgpd.CapabilityEntries
import Quagga.Lib.RouteMap
import Quagga.Zebra.RibProcess
import Quagga.Lib.StreamInvariant
import Quagga.Bgpd.DampLists
import Quagga.Bgpd.PrefixListLinks
import Quagga.Bgpd.TrustAverage
import Quagga.Bgpd.ClearRsclient
import Quagga.Bgpd.PassedOver
import Quagga.Bgpd.As4Merge
import Quagga.Bgpd.Ecommunity
import Quagga.Bgpd.AspathRoundTrip
