import UmnProjects.Evaluator.Eval
import UmnProjects.Evaluator.Closures
import UmnProjects.Evaluator.Trimming
import UmnProjects.Evaluator.UnboundVariables
import UmnProjects.Evaluator.Recursion
import UmnProjects.Foundations.Runs
import UmnProjects.Server.ConnectionQueue
import UmnProjects.Foundations.Circular
import UmnProjects.Server.QueueInvariant
import UmnProjects.Server.QueueOrder
import UmnProjects.Foundations.Descriptors
import UmnProjects.Server.QueueShutdown
import UmnProjects.Swish.Pipeline
import UmnProjects.Swish.PipelineDescriptors
import UmnProjects.Transit.Entities
import UmnProjects.Transit.Simulation
import UmnProjects.Foundations.History
import UmnProjects.Transit.Frames
import UmnProjects.Transit.UpdateCount
import UmnProjects.Transit.Reachable
import UmnProjects.Transit.Riders
import UmnProjects.Foundations.BestFirst
import UmnProjects.Routing.Graph
import UmnProjects.Routing.Pathing
import UmnProjects.Routing.SearchInvariant
import UmnProjects.Routing.Euclidean
import UmnProjects.Routing.ShortestPath
import UmnProjects.Foundations.Components
import UmnProjects.Foundations.Tables
import UmnProjects.Osm.OSMGraph
import UmnProjects.Osm.Xml
import UmnProjects.Osm.OsmParser
import UmnProjects.Osm.ReadNodes
import UmnProjects.Osm.Adjacency
import UmnProjects.Osm.Components
import UmnProjects.Osm.LargestComponent
import UmnProjects.Osm.Filter
import UmnProjects.Osm.LoadGraph
import UmnProjects.Foundations.Handover
import UmnProjects.Server.Connections
import UmnProjects.Transit.Movement
import UmnProjects.Transit.Assignment
import UmnProjects.Transit.DroneStates
import UmnProjects.Transit.RobotTrips
import UmnProjects.Foundations.Objects
import UmnProjects.Foundations.Text
import UmnProjects.Loafr.Events
import UmnProjects.Loafr.Operations
import UmnProjects.Loafr.Script
import UmnProjects.Loafr.LogfileReader
import UmnProjects.Foundations.Rows
import UmnProjects.Litter.Queries
import UmnProjects.Litter.Requests
import UmnProjects.Litter.Ownership
import UmnProjects.Foundations.Flights
import UmnProjects.Litter.PostCount
import UmnProjects.Litter.LoginCalls
import UmnProjects.Litter.LoginRuns
import UmnProjects.Server.QueueClosed
import UmnProjects.Foundations.Segments
import UmnProjects.Server.Http
import UmnProjects.Server.ServedPaths
import UmnProjects.Loafr.LogfileWriter
import UmnProjects.Loafr.RoundTrip
import UmnProjects.Swish.PipelineCommands
import UmnProjects.Foundations.Paging
import UmnProjects.Litter.Pages
import UmnProjects.Transit.Sessions
import UmnProjects.Loafr.Controller
import UmnProjects.Loafr.Failures
import UmnProjects.Loafr.Analysis
import UmnProjects.Evaluator.FreeVariables
import UmnProjects.Evaluator.Sums
import UmnProjects.Evaluator.References
import UmnProjects.Evaluator.OperandOrder
import UmnProjects.Evaluator.Placeholder
import UmnProjects.Foundations.BreadthFirst
import UmnProjects.Routing.DepthFirstSearch
import UmnProjects.Routing.SimplePaths
import UmnProjects.Routing.GraphBase
import UmnProjects.Routing.Endings
import UmnProjects.Routing.ObjGraph
import UmnProjects.Routing.PositionPaths
import UmnProjects.Foundations.Strides
import UmnProjects.Transit.Arrival
import UmnProjects.Transit.Celebrations
import UmnProjects.Foundations.Rounds
import UmnProjects.Transit.CommandOutcomes
import UmnProjects.Transit.DecoratorBalance
import UmnProjects.Transit.RobotPositions
import UmnProjects.Transit.Statistics
import UmnProjects.Foundations.Words
import UmnProjects.Loafr.Searches
import UmnProjects.Foundations.Splits
import UmnProjects.Loafr.Filters
import UmnProjects.Loafr.Grammar
import UmnProjects.Loafr.OutputFiles
import UmnProjects.Loafr.OutputNames
import UmnProjects.Foundations.Tokens
import UmnProjects.Server.Requests
import UmnProjects.Server.Headers
import UmnProjects.Server.ContentTypes
import UmnProjects.Server.Replies
import UmnProjects.Server.QueueErrors
import UmnProjects.Server.Streams
import UmnProjects.Swish.PipelineWaits
import UmnProjects.Swish.PipelineCleanup
import UmnProjects.Litter.PageNumbers
import UmnProjects.Osm.RepeatedNodes
import UmnProjects.Osm.AdjacencyList
import UmnProjects.Routing.ObjRecords
import UmnProjects.Viewer.BoundingBox
import UmnProjects.Viewer.DrawLine
import UmnProjects.Viewer.GraphViewer
import UmnProjects.Viewer.LoadedGraphs
import UmnProjects.Server.Barrier
import UmnProjects.Swish.CommandLines
import UmnProjects.Swish.StringVector
import UmnProjects.Swish.StringSlices
import UmnProjects.Swish.StringFailures
import UmnProjects.Osm.ComponentLabels
import UmnProjects.Osm.FilteredGraph
import UmnProjects.Foundations.Worlds
import UmnProjects.Evaluator.Types
import UmnProjects.Evaluator.TypeSoundness
import UmnProjects.Evaluator.Termination
import UmnProjects.Server.Exchanges
import UmnProjects.Loafr.OutputContents
import UmnProjects.Loafr.UI
import UmnProjects.Loafr.Dialogues
import UmnProjects.Litter.PostHistories
import UmnProjects.Litter.Accounts
import UmnProjects.Osm.MapRoutes
import UmnProjects.Transit.PageViews
import UmnProjects.Foundations.Progress
import UmnProjects.Transit.DroneFlights
import UmnProjects.Transit.Fleet
import UmnProjects.Transit.Trips
import UmnProjects.Server.Standstill
import UmnProjects.Server.Settling
import UmnProjects.Transit.Deliveries
import UmnProjects.Transit.MapTrips
