import VoloDB.AccessPath
import VoloDB.Answers
import VoloDB.Atomicity
import VoloDB.BatchAnswers
import VoloDB.CacheRace
import VoloDB.ClientExecutor
import VoloDB.ClientReplies
import VoloDB.ConcurrentStore
import VoloDB.Configuration
import VoloDB.CreateTable
import VoloDB.Drain
import VoloDB.EndToEnd
import VoloDB.Hints
import VoloDB.Lifecycle
import VoloDB.SchemaRuns
import VoloDB.Startup
import VoloDB.TupleOutcome
