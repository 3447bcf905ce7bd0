import TickGrinder.Uuid

/-!
# Commands and responses

The message types of `util/src/transport/commands.rs`. `SimBrokerSettings` is defined outside src;
the types are parametric in it (`σ`). A `usize` is a `UInt64`, as on the 64-bit targets the
platform runs on.
-/

namespace TickGrinder

/-- Where to save the recorded ticks to. -/
inductive HistTickDst
  | flatfile (filename : String)
  | postgres (table : String)
  | redisChannel (host channel : String)
  | redisSet (host setName : String)
  | console
deriving DecidableEq

/-- A `Command` that can be serde'd and sent over Redis. -/
inductive Command (σ : Type)
  | ping
  | shutdown
  | kill
  | register (channel : String)
  | type
  | ready (instanceType : String) (uuid : Uuid)
  | addSMA (period : UInt64)
  | removeSMA (period : UInt64)
  | spawnMM
  | census
  | spawnOptimizer (strategy : String)
  | spawnTickParser (symbol : String)
  | spawnBacktester
  | spawnFxcmDataDownloader
  | killInstance (uuid : Uuid)
  | killAllInstances
  | startBacktest (definition : String)
  | pauseBacktest (uuid : Uuid)
  | resumeBacktest (uuid : Uuid)
  | stopBacktest (uuid : Uuid)
  | listBacktests
  | listSimbrokers
  | spawnSimbroker (settings : σ)
  | downloadTicks (startTime endTime symbol : String) (dst : HistTickDst)
  | listRunningDownloads
  | downloadComplete (startTime endTime symbol : String) (dst : HistTickDst)
deriving DecidableEq

inductive Response
  | ok
  | error (status : String)
  | pong (args : List String)
  | info (info : String)
deriving DecidableEq

/-- A command bound to the uuid its response will carry. -/
structure WrappedCommand (σ : Type) where
  uuid : Uuid
  cmd : Command σ
deriving DecidableEq

structure WrappedResponse where
  uuid : Uuid
  res : Response
deriving DecidableEq

/-- Whether the command is `Kill`: both listeners answer it and spawn a thread that ends the
process three seconds later. -/
def Command.isKill {σ : Type} : Command σ → Bool
  | .kill => true
  | _ => false

/-- `Response::wrap`. -/
def Response.wrap (r : Response) (uuid : Uuid) : WrappedResponse := ⟨uuid, r⟩

end TickGrinder
