import Bhf.FuzzEngine.Mutator
import Bhf.FuzzEngine.Coverage
import Bhf.FuzzEngine.Persistent
import Bhf.FuzzEngine.RoundRobin
import Bhf.FuzzEngine.TomlStrings
import Bhf.FuzzEngine.BinFrameCorruption
import Bhf.FuzzEngine.GrammarLanguage
import Bhf.FuzzEngine.Curation
import Bhf.ProtocolSession.Drives
import Bhf.ProjectProfile.Dictionary
import Bhf.Iiop.Lockstep
import Bhf.Iiop.RequestRoundTrip
import Bhf.Iiop.Reassembly
import Bhf.Iiop.Dispatch
import Bhf.IdlParser.LineMap
import Bhf.IdlParser.AdaString
import Bhf.IdlParser.Literal
import Bhf.EventLog.Grouping
import Bhf.TargetTransport.Coverage
import Bhf.TargetTransport.GdbConnection
import Bhf.RuntraceShim.Log
import Bhf.Instrumenter.ReportedLines
import Bhf.StaticAnalysis.TaintClosure
import Bhf.Corpus.Cluster
import Bhf.MulticoreFuzz.MergeRuns
import Bhf.MulticoreFuzz.CorpusSync
import Bhf.ReplayMin.Minimize
import Bhf.ReplayMin.TypedValues
import Bhf.Results.MigrateRaces
import Bhf.Results.Csv
import Bhf.Relational.Redact
import Bhf.Relational.Minimize
import Bhf.ExtensionHost.SessionChild
import Bhf.ExtensionHost.Restarts
import Bhf.ContinuousDaemon.Restart
import Bhf.ContinuousDaemon.ResultsRefresh
import Bhf.Daemon.JsonRpc
import Bhf.RuntimeCollector.Attribute
