import Krafters.Executor.ParserUnroll
import Krafters.Executor.ParserBlocks
import Krafters.Executor.Unwrapper
import Krafters.Executor.LinkIds
import Krafters.Executor.LocalMode
import Krafters.Executor.RandomLinks
import Krafters.Executor.ParserForms
import Krafters.Executor.ParserParams
import Krafters.Executor.Main
import Krafters.Executor.MainStages
import Krafters.Lib.Hoare
import Krafters.Lib.Voting
import Krafters.Paxos.Cluster
import Krafters.Paxos.Durability
import Krafters.Paxos.InstanceChange
import Krafters.Paxos.Restart
import Krafters.Paxos.Updates
import Krafters.Paxos.StateFile
import Krafters.Paxos.Driving
import Krafters.Netem.NetemMaster
import Krafters.Plots.ResultsFile
import Krafters.Plots.MassPlot
import Krafters.Netem.TrafficClasses
import Krafters.TestDaemon.TestManager
import Krafters.TestDaemon.ClusterAck
import Krafters.TestGenerator.RoundTrip
import Krafters.TestGenerator.NodeGroup
import Krafters.Pysyncobj.Refusals
import Krafters.Pysyncobj.Callbacks
import Krafters.Pysyncobj.Connection
