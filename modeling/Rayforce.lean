import Rayforce.Serde.Reencode
import Rayforce.Journal.Snapshot
import Rayforce.Journal.Validate
import Rayforce.Journal.Compression
import Rayforce.Selection.Streaming
import Rayforce.Symbol.Segments
import Rayforce.Symbol.Loaded
import Rayforce.Lang.Numparse
import Rayforce.Leapfrog.Pattern
import Rayforce.Datalog.Perfect
import Rayforce.Index.Exact
import Rayforce.Vm.Safety
import Rayforce.Pool.Dispatch
import Rayforce.Expr.Materialised
import Rayforce.Idiom.Pass
import Rayforce.Temporal.Agreement
import Rayforce.Temporal.Truncate
import Rayforce.Join.Broadcast
import Rayforce.Datalog.Stratify
import Rayforce.Datalog.Datoms
import Rayforce.Symvec.Compare
import Rayforce.Env.Laws
import Rayforce.Parted.Laws
import Rayforce.Affine.Agreement
import Rayforce.Store.Accepted
import Rayforce.Glob.Search
import Rayforce.Hll.Kernels
import Rayforce.Collection.Take
import Rayforce.Csv.Rows
import Rayforce.Group.Radix
import Rayforce.Window.Routes
import Rayforce.Graph.Components
import Rayforce.Graph.Clustering
import Rayforce.Graph.Spanning
import Rayforce.Graph.DepthFirst
import Rayforce.Graph.Communities
import Rayforce.Group.Dense
import Rayforce.Sort.Strings
import Rayforce.Memory.Scratch
