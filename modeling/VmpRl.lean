import VmpRl.Base.Transition
import VmpRl.PbrpcFraming
import VmpRl.PbrpcWire
import VmpRl.FilterCalls
import VmpRl.PbrpcCalls
import VmpRl.PbrpcSession
import VmpRl.PbrpcAnswers
import VmpRl.Callouts
import VmpRl.Registrations
import VmpRl.Services
import VmpRl.ServiceClients
import VmpRl.RegistryClient
import VmpRl.IpcShared
import VmpRl.LoadChild
import VmpRl.Watchdog
import VmpRl.Nmon
import VmpRl.NmonNet
import VmpRl.NmonLines
import VmpRl.NmonStat
import VmpRl.NmonMem
import VmpRl.LoadSystem
import VmpRl.WatchLoop
import VmpRl.StreamReports
import VmpRl.Tasks
import VmpRl.Handlers
import VmpRl.SupervisorStop
import VmpRl.Shutdown
import VmpRl.ServerHandle
import VmpRl.ClientHandle
import VmpRl.FilterArrivals
import VmpRl.ReadVisits
import VmpRl.IpcSetup
import VmpRl.WholeWrites
import VmpRl.NmonSnapshots
import VmpRl.CpuLabels
import VmpRl.LoadIndependence
import VmpRl.Base.Scan
import VmpRl.StripSpaces
import VmpRl.ProcRead
import VmpRl.ProcReadLines
import VmpRl.MemKeys
import VmpRl.NetTable
import VmpRl.Base.Traced
import VmpRl.NetStreams
import VmpRl.LoadInterfaces
import VmpRl.LoadFigures
import VmpRl.RequestBlocks
import VmpRl.Base.Ring
import VmpRl.OutstandingRing
import VmpRl.Base.Chain
import VmpRl.CalloutChain
import VmpRl.NodeStateReads
import VmpRl.Connections
import VmpRl.Lanes
import VmpRl.Conversation
import VmpRl.Base.Guarded
import VmpRl.SharedSections
import VmpRl.RemoteCalls
