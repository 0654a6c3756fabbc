import Ns3.Aodv.RequestQueue
import Ns3.Aodv.ReverseRoute
import Ns3.Core.Int64x64Invert
import Ns3.Core.Object
import Ns3.Core.SimulatorScheduler
import Ns3.FlowMonitor.FlowMonitor
import Ns3.Internet.Ipv4AddressGenerator
import Ns3.Internet.RipTimers
import Ns3.Internet.RttEstimator
import Ns3.Internet.TcpOptionArea
import Ns3.Internet.TcpPrrRecovery
import Ns3.Internet.TcpSackList
import Ns3.Internet.TcpRxWindow
import Ns3.Internet.Ipv4StaticRouting
import Ns3.Internet.TcpTxDiscard
import Ns3.Internet.TcpTxInFlight
import Ns3.Internet.TcpTxNextSeg
import Ns3.Lte.Asn1Header
import Ns3.Lte.LteRlcFraming
import Ns3.Lte.LteRlcAmReceiver
import Ns3.Lte.LteRlcUmReceiver
import Ns3.Mesh.HwmpProtocol
import Ns3.Mpi.DistributedSimulatorImpl
import Ns3.Mpi.NullMessageSimulatorImpl
import Ns3.Network.DynamicQueueLimits
import Ns3.Network.Ipv6AddressPrint
import Ns3.Network.PacketSerialize
import Ns3.Network.BufferConcat
import Ns3.Network.PbbAddressTlvBlock
import Ns3.Network.SequenceNumberWindow
import Ns3.Olsr.OlsrHeader
import Ns3.Olsr.HnaRoutes
import Ns3.Olsr.TopologyInformation
import Ns3.Olsr.NeighborTracking
import Ns3.SixLowPan.Reassembly
import Ns3.Internet.Ipv4PartialPacket
import Ns3.Internet.Ipv6Fragmentation
import Ns3.Internet.Ipv4EndPointDemux
import Ns3.TrafficControl.CoDelNewton
import Ns3.TrafficControl.FqCoDelFairness
import Ns3.TrafficControl.FqCoDelOrder
import Ns3.TrafficControl.TbfWakeUp
import Ns3.TrafficControl.QueueDiscAccounting
import Ns3.Wifi.MacLowFragments
import Ns3.Wifi.CtrlBAckResponseHeader
import Ns3.Wifi.MsduAggregator
import Ns3.Wifi.MacRxMiddle
import Ns3.Wifi.ChannelAccessTimeout
import Ns3.Wifi.WifiMacQueueInsert
import Ns3.Wimax.WimaxMacQueue
