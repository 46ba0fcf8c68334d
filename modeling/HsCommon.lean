import HsCommon.Library.Cells
import HsCommon.Library.Windows
import HsCommon.Library.LabelSetting
import HsCommon.Library.Distances
import HsCommon.Library.Runs
import HsCommon.Library.Framing
import HsCommon.Library.Histories
import HsCommon.Library.Outcome
import HsCommon.Library.Loops
import HsCommon.Library.Texts
import HsCommon.Library.Tables
import HsCommon.Library.ValueStack
import HsCommon.Define
import HsCommon.Astar.Grid
import HsCommon.Astar.Coordinates
import HsCommon.Astar.Allocator
import HsCommon.Astar.FindPath
import HsCommon.Astar.SearchSteps
import HsCommon.Astar.Exploration
import HsCommon.Astar.Refinement
import HsCommon.Astar.ParentLinks
import HsCommon.Astar.Search
import HsCommon.Astar.ShortestPath
import HsCommon.Astar.Capacity
import HsCommon.Astar.Queries
import HsCommon.Astar.Distances
import HsCommon.Astar.Reopening
import HsCommon.Astar.ResultList
import HsCommon.Astar.AllocatorRuns
import HsCommon.Astar.SharedArray
import HsCommon.Astar.MinimalF
import HsCommon.Dijkstra.GetPath
import HsCommon.Dijkstra.Settle
import HsCommon.Dijkstra.LoadData
import HsCommon.Dijkstra.ShortestPath
import HsCommon.Dijkstra.Distances
import HsCommon.Dijkstra.Overflow
import HsCommon.Dijkstra.SettledPrefix
import HsCommon.Transform2d
import HsCommon.Rotations
import HsCommon.Viewing
import HsCommon.Buffer
import HsCommon.BufferQueue
import HsCommon.BufferCursors
import HsCommon.PacketWorker
import HsCommon.PacketRoundTrip
import HsCommon.Session
import HsCommon.SessionWrite
import HsCommon.SessionHandlers
import HsCommon.SessionClear
import HsCommon.SessionSend
import HsCommon.SessionRead
import HsCommon.SessionLoop
import HsCommon.SessionSafe
import HsCommon.SessionRoom
import HsCommon.ClientConnector
import HsCommon.SendPacker
import HsCommon.ConnectorRuns
import HsCommon.ConnectorSends
import HsCommon.ConnectorLog
import HsCommon.ConnectorUnpack
import HsCommon.ConnectorTold
import HsCommon.ConnectorSockets
import HsCommon.ConnectorInit
import HsCommon.ConnectorCloses
import HsCommon.ConnectorTypestate
import HsCommon.ConnectorLost
import HsCommon.SameFraming
import HsCommon.SessionManager
import HsCommon.SessionLog
import HsCommon.SessionLink
import HsCommon.ConnectorLink
import HsCommon.ClientServer
import HsCommon.ServerRest
import HsCommon.SessionIds
import HsCommon.Disconnects
import HsCommon.Rearmed
import HsCommon.ServiceRuns
import HsCommon.Reuse
import HsCommon.SessionSocket
import HsCommon.HandlerAllocator
import HsCommon.Channel
import HsCommon.ChannelRuns
import HsCommon.ChannelListening
import HsCommon.ChannelPair
import HsCommon.ServerChannel
import HsCommon.LinkedList
import HsCommon.ListQueue
import HsCommon.ListNodes
import HsCommon.Odbc
import HsCommon.OdbcQueue
import HsCommon.OdbcLoop
import HsCommon.OdbcHandles
import HsCommon.OdbcCallbacks
import HsCommon.OdbcDrain
import HsCommon.OdbcConnect
import HsCommon.ConfigReader
import HsCommon.ConfigRows
import HsCommon.ConfigLines
import HsCommon.ConfigFile
import HsCommon.ConfigValues
import HsCommon.ConfigSound
import HsCommon.ConfigLookup
import HsCommon.ConfigUse
import HsCommon.ConfigWriting
import HsCommon.ConfigKeys
import HsCommon.Singleton
import HsCommon.MyLuaWrapper
import HsCommon.LuaRuns
