import KitRpc.Caller.Answer
import KitRpc.Caller.Lookup
import KitRpc.Caller.Stream
import KitRpc.Config.Application
import KitRpc.Config.History
import KitRpc.Config.Incremental
import KitRpc.Config.Interior
import KitRpc.Config.Reload
import KitRpc.Config.Typed
import KitRpc.Example.UserService
import KitRpc.Log.Channel
import KitRpc.Log.Exit
import KitRpc.Log.Records
import KitRpc.Muduo.Buffer
import KitRpc.Provider.Cuts
import KitRpc.Provider.Exact
import KitRpc.Provider.Genuine
import KitRpc.Provider.Wrap
import KitRpc.System.Dialling
import KitRpc.System.Endpoint
import KitRpc.System.OneResponse
import KitRpc.System.Routing
import KitRpc.System.Server
import KitRpc.System.Stall
import KitRpc.Zookeeper.Rivals
import KitRpc.Zookeeper.Start
