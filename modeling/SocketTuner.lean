import SocketTuner.Router.Scaler
import SocketTuner.Router.WarmPool
import SocketTuner.Router.WatchLoop
import SocketTuner.Router.Lifecycle
import SocketTuner.Router.Stale
import SocketTuner.System.Stack
import SocketTuner.System.Steps
import SocketTuner.Agent.Fresh
import SocketTuner.Agent.Actions
import SocketTuner.Agent.Isolation
import SocketTuner.Agent.Durations
import SocketTuner.Agent.Commands
import SocketTuner.Env.Inference
import SocketTuner.Env.Budget
import SocketTuner.Env.Curriculum
import SocketTuner.Env.EpisodeScore
import SocketTuner.System.Units
import SocketTuner.System.Codec
import SocketTuner.System.Deployment
import SocketTuner.System.Provenance
import SocketTuner.Env.Traffic
import SocketTuner.Agent.Abi
import SocketTuner.Env.Log
import SocketTuner.Router.Startup
import SocketTuner.System.Measured
import SocketTuner.System.Rewards
import SocketTuner.Env.Told
import SocketTuner.Router.Shutdown
import SocketTuner.Env.Seen
