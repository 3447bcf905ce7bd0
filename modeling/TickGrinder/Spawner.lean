import TickGrinder.Codec

/-!
# The instance spawner's living list

`spawner/src/main.rs`. The `InstanceManager` keeps the instances it thinks are alive in `living`.
Each turn of the heartbeat in `init` broadcasts `Ping`, takes the first record that no well-formed
`Pong` names (`get_missing_instance`), deregisters it (`remove_instance`), and asks it its `Type`:
an `Info` reply registers it again (`add_instance`).

`listen` reads messages from the spawner's channels and publishes the response `handle_command`
gives to each command it reads; a message that is not a `WrappedCommand` is logged and skipped.
`Kill` is answered at once, and the thread it spawns ends the process three seconds later.
-/

namespace TickGrinder

/-- An instance of a platform module. -/
structure Instance where
  instanceType : String
  uuid : Uuid
deriving DecidableEq

/-- `Instance`'s derived `Serialize`. -/
def Instance.serialize (inst : Instance) : Json :=
  .obj [("instance_type", .str inst.instanceType), ("uuid", Serde.serializeUuid inst.uuid)]

namespace InstanceManager

/-- Whether a response to the heartbeat's `Ping` is a well-formed `Pong` whose first argument is
the uuid's hyphenated text. -/
def namesInstance (uuid : Uuid) : Response → Bool
  | .pong (a :: _) => uuid.hyphenated == a
  | _ => false

/-- `get_missing_instance`: the first living instance that no response names. -/
def getMissingInstance (living : List Instance) (responses : List Response) : Option Instance :=
  living.find? fun inst => !responses.any (namesInstance inst.uuid)

/-- The loop of `remove_instance`: the index of the last record with the uuid. -/
def lastIndexOf (living : List Instance) (uuid : Uuid) : Option ℕ :=
  living.enum.foldl (fun i p => if p.2.uuid = uuid then some p.1 else i) none

/-- `remove_instance`. -/
def removeInstance (living : List Instance) (uuid : Uuid) : List Instance :=
  match lastIndexOf living uuid with
  | some i => living.eraseIdx i
  | none => living

/-- `add_instance`. -/
def addInstance (living : List Instance) (inst : Instance) : List Instance :=
  living ++ [inst]

/-- One turn of the heartbeat loop of `init`, given the responses to the broadcast `Ping` and
what the confirming `Type` query returns (`Err` when it times out). -/
def heartbeat (living : List Instance) (responses : List Response)
    (typeReply : Except String Response) : List Instance :=
  match getMissingInstance living responses with
  | none => living
  | some dead =>
    let living := removeInstance living dead.uuid
    match typeReply with
    | .ok (.info info) => addInstance living ⟨info, dead.uuid⟩
    | _ => living

/-- The heartbeat loop of `init` over its first turns, each given the responses to its `Ping` and
what its `Type` query returns. -/
def heartbeats (living : List Instance) :
    List (List Response × Except String Response) → List Instance
  | [] => living
  | (responses, typeReply) :: turns => heartbeats (heartbeat living responses typeReply) turns

/-- `census`: the living instances, each as `serde_json::to_string` writes it, joined by `", "`
within brackets. Serializing an `Instance` cannot fail, so the arm that reports an error is
never taken. -/
def census (living : List Instance) : Response :=
  .info ("[" ++ ", ".intercalate (living.map fun inst => inst.serialize.toString) ++ "]")

/-- `spawn_mm`, `spawn_optimizer`, `spawn_tick_parser`, `spawm_backtester` and `spawn_fxcm_dd`:
each spawns its module's process and answers `Ok`; `expect` panics (`none`) when the process does
not start. -/
def spawn (spawned : Bool) : Option Response :=
  if spawned then some .ok else none

/-- `handle_command`, given whether the process a spawn command starts does start; `none` is a
panic, which ends the listener's thread. `kill_all` empties `living`. The thread the `Kill` arm
spawns to end the process is the input `exit` of `listen`. -/
def handleCommand {σ : Type} (uuid : Uuid) (living : List Instance) (cmd : Command σ)
    (spawned : Bool) : Option (List Instance × Response) :=
  match cmd with
  | .ping => some (living, .pong [uuid.hyphenated])
  | .kill => some (living, .info "Shutting down in 3 seconds...")
  | .type => some (living, .info "Spawner")
  | .ready instanceType uuid => some (addInstance living ⟨instanceType, uuid⟩, .ok)
  | .killAllInstances => some ([], .ok)
  | .census => some (living, census living)
  | .spawnMM | .spawnOptimizer _ | .spawnTickParser _ | .spawnBacktester
  | .spawnFxcmDataDownloader => (spawn spawned).map (living, ·)
  | _ => some (living, .error "Command not accepted by the instance spawner")

/-- What the spawner sees: a message on one of its channels, with whether the process its command
spawns starts, or a turn of the heartbeat of `init`, which changes `living` in between. -/
inductive Input
  | message (raw : String) (spawned : Bool)
  | heartbeat (responses : List Response) (typeReply : Except String Response)
  /-- The thread a `Kill` spawned wakes after its three seconds and calls `process::exit(0)`;
  before any `Kill` there is no such thread, and nothing happens. -/
  | exit

/-- `listen` over what the spawner sees, from the spawner's uuid, `living`, and whether a `Kill`
has started the thread that ends the process: the texts it publishes, in order. -/
def listen {σ : Type} (dec : Json → Option σ) (uuid : Uuid) (living : List Instance)
    (killed : Bool) : List Input → List String
  | [] => []
  | .exit :: rest => if killed then [] else listen dec uuid living killed rest
  | .heartbeat responses typeReply :: rest =>
    listen dec uuid (heartbeat living responses typeReply) killed rest
  | .message raw spawned :: rest =>
    match WrappedCommand.fromStr dec raw with
    | .error () => listen dec uuid living killed rest
    | .ok wrCmd =>
      match handleCommand uuid living wrCmd.cmd spawned with
      | none => []
      | some (living, res) =>
        match (res.wrap wrCmd.uuid).toString with
        | .ok msg => msg :: listen dec uuid living (killed || wrCmd.cmd.isKill) rest
        | .error () => []

end InstanceManager

end TickGrinder
