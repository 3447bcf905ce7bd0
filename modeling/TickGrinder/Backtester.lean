import TickGrinder.Tick
import TickGrinder.Codec
import Mathlib.Data.List.AList

/-!
# The backtester

`backtester/src/main.rs`. A `Backtester` keeps the handles of its running backtests and its
SimBrokers in two maps keyed by uuid. `start_backtest` opens a tick generator, wires its stream to
a sink through the tick pump (or hands it to a SimBroker) and registers a handle;
`send_backtest_cmd` forwards a control event to a backtest and `remove_backtest` forgets its handle.

The tick generators and the SimBroker are defined outside src and are modelled from the spec: a
generator opens paused, takes `Pause`, `Resume` and `Stop` from its control channel
(`sync_channel(5)`), emits ticks only while running, and ends on `Stop` or when its data runs out;
a SimBroker takes at most one tickstream per symbol. The backtester is a state machine whose
events are the listener's commands and each backtest's own steps, in any interleaving.

`listen` reads messages from the backtester's channels and publishes a response to each command
it reads; a message that is not a `WrappedCommand` ends it. `Kill` is answered at once, and the
thread it spawns ends the process three seconds later.
-/

namespace TickGrinder

/-- What kind of method used to time the output of data. -/
inductive BacktestType
  | fast (delayMs : ℕ)
  | live
deriving DecidableEq

/-- Where to get the data to drive the backtest. -/
inductive DataSource
  | flatfile
  | redisChannel (host channel : String)
  | postgres
  | random
deriving DecidableEq

/-- Where to send the backtest's generated data. -/
inductive DataDest
  | redisChannel (host channel : String)
  | console
  | null
  | simBroker (uuid : Uuid)
deriving DecidableEq

/-- Modelled from the spec: the control events of a running backtest. -/
inductive BacktestCommand
  | pause
  | resume
  | stop
deriving DecidableEq

/-- Modelled from the spec: `BacktestDefinition`, without `broker_settings`, which nothing
modelled here reads. -/
structure BacktestDefinition where
  startTime : Option ℕ
  maxTickN : Option ℕ
  maxTimestamp : Option ℕ
  symbol : String
  backtestType : BacktestType
  dataSource : DataSource
  dataDest : DataDest
deriving DecidableEq

/-- `check_early_exit`: whether the backtest has met a stop condition at its `i`-th tick `t`. -/
def checkEarlyExit (t : Tick) (d : BacktestDefinition) (i : ℕ) : Bool :=
  d.maxTickN.any (fun n => n ≤ i) || d.maxTimestamp.any (fun m => m ≤ t.timestamp)

/-- One call of the tick-pump closure of `start_backtest`: it counts the tick, hands it to the
sink, and returns `Err(())` (here `true`) when the backtest must exit. -/
def pumpTick (d : BacktestDefinition) (i : ℕ) (t : Tick) : ℕ × Bool :=
  (i + 1, checkEarlyExit t d (i + 1))

/-- `for_each` of the tick-pump closure over a finite stream, from the count `i`: the ticks handed
to `dst.tick`, and whether the closure ended the loop with `Err`. -/
def tickPump (d : BacktestDefinition) (i : ℕ) : List Tick → List Tick × Bool
  | [] => ([], false)
  | t :: ts =>
    if (pumpTick d i t).2 then ([t], true)
    else
      let r := tickPump d (pumpTick d i t).1 ts
      (t :: r.1, r.2)

/-! ## Engines -/

/-- Modelled from the spec: the phase of a backtest's tick generator. -/
inductive Phase
  | paused
  | running
  | stopped
deriving DecidableEq

/-- What takes the ticks of a backtest's stream: the tick pump with the count of its closure, the
pump once its closure has returned `Err` and before `or_else` has sent `Stop`, the pump once
`or_else` has sent it, the pump once its `for_each` has completed with `Ok` at the end of the
stream, or a SimBroker. -/
inductive Consumer
  | pump (i : ℕ)
  | exiting
  | exited
  | done
  | simBroker
deriving DecidableEq

/-- A started backtest: its generator (`phase`, the events waiting on its control channel, the
ticks it has still to emit) and what consumes its stream, with the ticks handed to the sink. -/
structure Engine where
  definition : BacktestDefinition
  phase : Phase
  control : List BacktestCommand
  stream : List Tick
  consumer : Consumer
  delivered : List Tick
deriving DecidableEq

namespace Engine

/-- `SyncSender::send` on the control channel of capacity 5: the event is lost once the generator
has ended, and the sender blocks (`none`) while five events wait. -/
def send (e : Engine) (c : BacktestCommand) : Option Engine :=
  if e.phase = .stopped then some e
  else if e.control.length < 5 then some { e with control := e.control ++ [c] }
  else none

/-- The generator ends: it drops its control channel and closes the stream, which completes a
running pump's `for_each` with `Ok`. -/
def halt (e : Engine) : Engine :=
  { e with
    phase := .stopped
    control := []
    consumer := match e.consumer with
      | .pump _ => .done
      | c => c }

/-- Modelled from the spec: the generator takes the next control event. -/
def consume (e : Engine) : Option Engine :=
  if e.phase = .stopped then none
  else match e.control with
    | [] => none
    | .pause :: cs => some { e with phase := .paused, control := cs }
    | .resume :: cs => some { e with phase := .running, control := cs }
    | .stop :: _ => some e.halt

/-- The running generator emits its next tick, which the pump's closure or the SimBroker takes. -/
def tick (e : Engine) : Option Engine :=
  match e.phase, e.stream, e.consumer with
  | .running, t :: ts, .pump i =>
    some { e with
      stream := ts
      delivered := e.delivered ++ [t]
      consumer :=
        if (pumpTick e.definition i t).2 then .exiting else .pump (pumpTick e.definition i t).1 }
  | .running, _ :: ts, .simBroker => some { e with stream := ts }
  | _, _, _ => none

/-- After an early exit, `or_else` sends `Stop` on the internal sender. -/
def exitSend (e : Engine) : Option Engine :=
  match e.consumer with
  | .exiting => (fun e : Engine => { e with consumer := .exited }) <$> e.send .stop
  | _ => none

/-- Modelled from the spec: a running generator whose data has run out ends. -/
def finish (e : Engine) : Option Engine :=
  if e.phase = .running ∧ e.stream = [] then some e.halt else none

end Engine

/-! ## The backtester -/

/-- `BacktestHandle`. Its sender `handle` is, in the model, the control channel of the engine
stored under the same uuid. -/
structure BacktestHandle where
  symbol : String
  backtestType : BacktestType
  dataSource : DataSource
  endpoint : DataDest
deriving DecidableEq

/-- A `Backtester`: its uuid, `running_backtests`, `simbrokers` (each SimBroker modelled from the
spec by the symbols it holds a tickstream for), and the engine of every backtest started. -/
structure Backtester where
  uuid : Uuid
  runningBacktests : AList fun _ : Uuid => BacktestHandle
  simbrokers : AList fun _ : Uuid => List String
  engines : AList fun _ : Uuid => Engine

namespace Backtester

/-- `Backtester::new`, without its command server. -/
def new (uuid : Uuid) : Backtester := ⟨uuid, ∅, ∅, ∅⟩

/-- `init_simbroker`, given the uuid `Uuid::new_v4` draws. -/
def initSimbroker (b : Backtester) (uuid : Uuid) : Backtester :=
  { b with simbrokers := b.simbrokers.insert uuid [] }

/-- The end of `start_backtest`: the handle is registered under `uuid`, and the engine starts
paused with the stream's ticks and its consumer. -/
def register (b : Backtester) (d : BacktestDefinition) (ticks : List Tick) (c : Consumer)
    (uuid : Uuid) : Backtester :=
  { b with
    runningBacktests :=
      b.runningBacktests.insert uuid ⟨d.symbol, d.backtestType, d.dataSource, d.dataDest⟩
    engines := b.engines.insert uuid ⟨d, .paused, [], ticks, c, []⟩ }

/-- Modelled from the spec: `SimBroker::register_tickstream`, over the symbols the SimBroker
already takes a tickstream for; it is callable at most once per symbol, and `Err` on a symbol it
holds. -/
def registerTickstream (held : List String) (symbol : String) : Except Unit (List String) :=
  if symbol ∈ held then .error () else .ok (symbol :: held)

/-- `start_backtest`, given what the generator's `get` returns (the ticks of its stream, or its
error) and the uuid `Uuid::new_v4` draws. `none` is the panic of `register_tickstream(..).unwrap()`
on an `Err`. -/
def startBacktest (b : Backtester) (d : BacktestDefinition) (tickstream : Except String (List Tick))
    (uuid : Uuid) : Option (Backtester × Except String Uuid) :=
  match tickstream with
  | .error e => some (b, .error ("Error creating tickstream: " ++ e))
  | .ok ticks =>
    match d.dataDest with
    | .simBroker sb =>
      match b.simbrokers.lookup sb with
      | none => some (b, .error "No SimBroker running with that Uuid!")
      | some held =>
        match registerTickstream held d.symbol with
        | .error () => none
        | .ok held => some (register { b with simbrokers := b.simbrokers.insert sb held }
          d ticks .simBroker uuid, .ok uuid)
    | _ => some (register b d ticks (.pump 0) uuid, .ok uuid)

/-- `remove_backtest`. -/
def removeBacktest (b : Backtester) (uuid : Uuid) : Backtester :=
  { b with runningBacktests := b.runningBacktests.erase uuid }

/-- `send_backtest_cmd`; `none` while the control channel is full. -/
def sendBacktestCmd (b : Backtester) (uuid : Uuid) (cmd : BacktestCommand) :
    Option (Backtester × Except Unit Unit) :=
  match b.runningBacktests.lookup uuid with
  | none => some (b, .error ())
  | some _ =>
    match b.engines.lookup uuid with
    | none => some (b, .ok ())
    | some e => (fun e => ({ b with engines := b.engines.insert uuid e }, .ok ())) <$> e.send cmd

/-- The listener's arm for `PauseBacktest` and `ResumeBacktest`. -/
def forwardBacktestCmd (b : Backtester) (uuid : Uuid) (cmd : BacktestCommand) :
    Option (Backtester × Response) :=
  (sendBacktestCmd b uuid cmd).map fun
    | (b, .ok ()) => (b, .ok)
    | (b, .error ()) => (b, .error "No backtest with that uuid!")

/-- The listener's arm for `StopBacktest`: after forwarding `Stop` it deregisters the handle. -/
def stopBacktest (b : Backtester) (uuid : Uuid) : Option (Backtester × Response) :=
  (sendBacktestCmd b uuid .stop).map fun
    | (b, .ok ()) => (b.removeBacktest uuid, .ok)
    | (b, .error ()) => (b, .error "No backtest with that uuid!")

/-- Applies an engine's step to the engine stored under `uuid`. -/
def stepEngine (b : Backtester) (uuid : Uuid) (f : Engine → Option Engine) : Option Backtester := do
  let e ← b.engines.lookup uuid
  let e ← f e
  pure { b with engines := b.engines.insert uuid e }

/-! ## Runs -/

/-- The events of a backtester: the listener's commands that touch backtests, with the uuid
`Uuid::new_v4` draws, and each backtest's own steps. -/
inductive Event
  | startBacktest (d : BacktestDefinition) (tickstream : Except String (List Tick)) (uuid : Uuid)
  | pauseBacktest (uuid : Uuid)
  | resumeBacktest (uuid : Uuid)
  | stopBacktest (uuid : Uuid)
  | spawnSimbroker (uuid : Uuid)
  | consume (uuid : Uuid)
  | tick (uuid : Uuid)
  | exitSend (uuid : Uuid)
  | finish (uuid : Uuid)

/-- One event; `none` when it cannot happen. A uuid drawn by `Uuid::new_v4` is one no backtest or
SimBroker has had (the spec's uniqueness of identifiers). -/
def step (b : Backtester) : Event → Option Backtester
  | .startBacktest d tickstream uuid =>
    if uuid ∈ b.engines then none else Prod.fst <$> b.startBacktest d tickstream uuid
  | .pauseBacktest uuid => Prod.fst <$> b.forwardBacktestCmd uuid .pause
  | .resumeBacktest uuid => Prod.fst <$> b.forwardBacktestCmd uuid .resume
  | .stopBacktest uuid => Prod.fst <$> b.stopBacktest uuid
  | .spawnSimbroker uuid => if uuid ∈ b.simbrokers then none else some (b.initSimbroker uuid)
  | .consume uuid => b.stepEngine uuid Engine.consume
  | .tick uuid => b.stepEngine uuid Engine.tick
  | .exitSend uuid => b.stepEngine uuid Engine.exitSend
  | .finish uuid => b.stepEngine uuid Engine.finish

/-- The backtester after a run of events. -/
def run (b : Backtester) : List Event → Option Backtester
  | [] => some b
  | e :: es => step b e >>= fun b => run b es

/-! ## The listener -/

/-- What the world supplies to the handling of a message: the uuid `Uuid::new_v4` draws, and
what the generator's `get` returns for a `StartBacktest`. -/
structure Draw where
  uuid : Uuid
  tickstream : Except String (List Tick)

/-- A step a backtest takes on its own. -/
inductive EngineStep
  | consume
  | tick
  | exitSend
  | finish

def EngineStep.apply : EngineStep → Engine → Option Engine
  | .consume => Engine.consume
  | .tick => Engine.tick
  | .exitSend => Engine.exitSend
  | .finish => Engine.finish

/-- What the listener sees: a message on one of its channels, a backtest taking a step, which
lets an arm waiting on that backtest's full control channel go on, or the thread a `Kill` spawned
waking after its three seconds to call `process::exit(0)` (before any `Kill` there is no such
thread, and nothing happens). -/
inductive Input
  | message (raw : String) (draw : Draw)
  | step (uuid : Uuid) (s : EngineStep)
  | exit

/-- How an arm of `listen` ends: with the new state and a response, or in a panic, which ends the
process. -/
inductive Reply
  | respond (b : Backtester) (res : Response)
  | panic

/-- How a run of `listen` ends: still listening, returned after a message it could not parse,
with the process panicked, or with the process ended by the thread of a `Kill`. -/
inductive Ending
  | listening
  | returned
  | panicked
  | exited
deriving DecidableEq

section Listen

variable {σ : Type} (dec : Json → Option σ)
  (parseDefinition : String → Except String BacktestDefinition)
  (serializeHandle : Uuid → BacktestHandle → Option Json)

/-- The `ListBacktests` arm: the handles, each as its `SerializableBacktestHandle` serializes,
in a JSON array. -/
def listBacktests (b : Backtester) : Response :=
  match Serde.toString (fun hs => (hs.mapM fun h => serializeHandle h.1 h.2).map .arr)
      b.runningBacktests.entries with
  | .ok msg => .info msg
  | .error () => .error "Unable to convert backtest list into String."

/-- The `ListSimbrokers` arm: the uuids of the SimBrokers in a JSON array. -/
def listSimbrokers (b : Backtester) : Response :=
  .info (Json.arr (b.simbrokers.keys.map fun u => .str u.hyphenated)).toString

/-- The arms of `listen` on one command; `none` while the arm waits on a full control channel.
`serde_json::from_str` reads a `BacktestDefinition` with `parseDefinition`. The thread the `Kill`
arm spawns to end the process is the input `exit` of `listen`. -/
def respond (b : Backtester) (cmd : Command σ) (draw : Draw) : Option Reply :=
  match cmd with
  | .ping => some (.respond b (.pong [b.uuid.hyphenated]))
  | .type => some (.respond b (.info "Backtester"))
  | .startBacktest definitionStr =>
    match parseDefinition definitionStr with
    | .error e => some (.respond b (.error ("Can't parse backtest defition from String: " ++ e)))
    | .ok d =>
      match b.startBacktest d draw.tickstream draw.uuid with
      | none => some .panic
      | some (b, .ok uuid) => some (.respond b (.info uuid.hyphenated))
      | some (b, .error err) => some (.respond b (.error err))
  | .kill => some (.respond b (.info "Backtester will self-destruct in 3 seconds."))
  | .pauseBacktest uuid => (b.forwardBacktestCmd uuid .pause).map fun (b, res) => .respond b res
  | .resumeBacktest uuid => (b.forwardBacktestCmd uuid .resume).map fun (b, res) => .respond b res
  | .stopBacktest uuid => (b.stopBacktest uuid).map fun (b, res) => .respond b res
  | .listBacktests => some (.respond b (b.listBacktests serializeHandle))
  | .spawnSimbroker _ => some (.respond (b.initSimbroker draw.uuid) (.info draw.uuid.hyphenated))
  | .listSimbrokers => some (.respond b b.listSimbrokers)
  | _ => some (.respond b (.error "Backtester doesn't recognize that command."))

/-- `listen` over what it sees, from a backtester and whether a `Kill` has started the thread
that ends the process: the backtester it leaves, the texts it publishes, in order, and how the run
ends; `none` when the run cannot happen (a backtest's step that it cannot take, or a message left
waiting on a full control channel). -/
def listen (b : Backtester) (killed : Bool) :
    List Input → Option (Backtester × List String × Ending)
  | [] => some (b, [], .listening)
  | .exit :: rest => if killed then some (b, [], .exited) else listen b killed rest
  | .step uuid s :: rest => (b.stepEngine uuid s.apply).bind fun b => listen b killed rest
  | .message raw draw :: rest =>
    match WrappedCommand.fromStr dec raw with
    | .error () => some (b, [], .returned)
    | .ok wrCmd =>
      (b.respond parseDefinition serializeHandle wrCmd.cmd draw).bind fun
        | .panic => some (b, [], .panicked)
        | .respond b res =>
          match (res.wrap wrCmd.uuid).toString with
          | .ok msg =>
            (listen b (killed || wrCmd.cmd.isKill) rest).map fun (b, out, e) => (b, msg :: out, e)
          | .error () => some (b, [], .panicked)

end Listen

end Backtester

end TickGrinder
