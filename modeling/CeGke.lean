import CeGke.Lib.Bytes
import CeGke.Lib.Codec
import CeGke.Lib.Greedy
import CeGke.Lib.Lists
import CeGke.Lib.Logs
import CeGke.Lib.Runs
import CeGke.Lib.SortedMap
import CeGke.Lib.Json
import CeGke.Lib.Topological
import CeGke.Secrets
import CeGke.Spec
import CeGke.Image
import CeGke.Revision
import CeGke.Command
import CeGke.Reconcile
import CeGke.Rollout.Plan
import CeGke.Rollout.Tally
import CeGke.Rollout.Kills
import CeGke.Rollout.Steady
import CeGke.Rollout.Budget
import CeGke.Rollout.Converge
import CeGke.Deps
import CeGke.Placement
import CeGke.Placement.Rank
import CeGke.Driver
import CeGke.Controller
import CeGke.Controller.Stages
import CeGke.Controller.Bounds
import CeGke.Controller.Floor
import CeGke.Controller.Tracking
import CeGke.Controller.Misses
import CeGke.Controller.Calls
import CeGke.Controller.Keeps
import CeGke.Controller.Offers
import CeGke.Controller.Spread
import CeGke.Controller.Recreate
import CeGke.Controller.Done
import CeGke.Controller.Hold
import CeGke.Controller.History
import CeGke.Controller.Held
import CeGke.Controller.Serving
import CeGke.Controller.Converge
import CeGke.Protocol
import CeGke.Serve
import CeGke.Auth
import CeGke.Serve.Loop
import CeGke.CeDriver
import CeGke.FakeDriver
import CeGke.FakeDriver.Converge
import CeGke.Controller.Retries
import CeGke.Controller.Verdict
import CeGke.Controller.Probes
import CeGke.State
import CeGke.State.Tracked
import CeGke.State.Migrate
import CeGke.State.Serde
import CeGke.Daemon
import CeGke.Stack
import CeGke.Stack.TopoSort
import CeGke.Stack.Order
import CeGke.Cli
import CeGke.Cli.Recorded
import CeGke.Cli.Leak
import CeGke.Cli.Edits
import CeGke.Cli.Session
import CeGke.Cli.Alike
import CeGke.Cli.WellFormed
import CeGke.Cli.Ownership
import CeGke.Cli.Startup
import CeGke.Cli.NoneLost
import CeGke.Cli.History
import CeGke.Cli.Paused
import CeGke.Cli.Delete
import CeGke.Cli.Undo
import CeGke.Cli.Preflight
import CeGke.Cli.Converge
import CeGke.Daemon.Converge
import CeGke.CeDriver.Deploy
import CeGke.CeDriver.Secrets
import CeGke.Lock.Machine
import CeGke.Lock.Exclusion
import CeGke.Lock.Serial
import CeGke.Lock.Daemon
import CeGke.Cli.Printed
