import VertexDB.Common.Comparisons
import VertexDB.Execution.Interpreter
import VertexDB.Execution.Isolation
import VertexDB.Indexing.BTreeLayout
import VertexDB.Execution.Clients
import VertexDB.Execution.Crashes
import VertexDB.Execution.InsertCrash
import VertexDB.Execution.JoinReferences
import VertexDB.Execution.Limits
import VertexDB.Execution.Locking
import VertexDB.Execution.Literals
import VertexDB.Execution.PreparedBinding
import VertexDB.Execution.Shell
import VertexDB.Execution.Restarts
import VertexDB.Execution.TransactionReads
import VertexDB.Execution.WriteAhead
import VertexDB.Parser.Numbers
import VertexDB.Parser.SqlGrammar
import VertexDB.Parser.Termination
import VertexDB.Persistence.SaveFaults
import VertexDB.Persistence.SnapshotFile
import VertexDB.Persistence.TornFiles
import VertexDB.Storage.PageDecoding
import VertexDB.Storage.TableHistory
