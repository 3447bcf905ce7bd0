import TickGrinder.Commands
import TickGrinder.Json
import Mathlib.Algebra.Group.Nat.Basic

/-!
# The serde codecs of the message types

`#[derive(Serialize, Deserialize)]` on the types of `commands.rs`, as `serde_json` drives them. An
enum is externally tagged: a unit variant is its name as a string, a struct variant an object with
one member, the name, whose value is the variant's fields. On reading, a unit variant is also
accepted as `{"Name":null}`, and a struct's fields come as an object, where each field must occur
exactly once and other members are skipped, or as an array of the field values in order. A `usize`
is written as an integer literal and read from any number but a negative integer, truncated and
saturated; a `Uuid` is written as its hyphenated text and read with `parse_str`.

`serde_json` reads the text straight into the type; the model reads it into a `Json` tree and then
the tree into the type, which accepts and returns the same. `SimBrokerSettings` is defined outside
src: its serializer `enc` and deserializer `dec` are parameters.
-/

namespace TickGrinder

namespace Serde

/-! ## What the derive generates, for any type -/

def unitVariant (name : String) : Json := .str name

def structVariant (name : String) (fields : List (String × Json)) : Json :=
  .obj [(name, .obj fields)]

/-- The name of an enum's variant and its content, if there is one. -/
def variant : Json → Option (String × Option Json)
  | .str name => some (name, none)
  | .obj [(name, content)] => some (name, some content)
  | _ => none

/-- `unit_variant`: no content, or `null`. -/
def unitContent : Option Json → Option Unit
  | none => some ()
  | some .null => some ()
  | some _ => none

/-- The values of a struct's fields, in the order of `names`: from an object in which each field
occurs once, or from an array of exactly the field values. -/
def structFields (names : List String) : Json → Option (List Json)
  | .obj kvs =>
    names.mapM fun name =>
      match kvs.filter (fun kv => kv.1 == name) with
      | [(_, v)] => some v
      | _ => none
  | .arr xs => if xs.length = names.length then some xs else none
  | _ => none

/-- `struct_variant`: a struct variant has content. -/
def structContent (names : List String) : Option Json → Option (List Json)
  | some content => structFields names content
  | none => none

def deserializeString : Json → Option String
  | .str s => some s
  | _ => none

/-- `Vec<String>::deserialize`. -/
def deserializeStrings : Json → Option (List String)
  | .arr xs => xs.mapM deserializeString
  | _ => none

def serializeUsize (n : UInt64) : Json := .num ⟨false, n.toNat, [], none⟩

/-- Modelled from the spec: the `u64` that `as` makes of a number, truncated toward zero, 0 when
it is negative, and saturated at `u64::MAX`. serde_json reads a fraction or an exponent into an
`f64` first; the value here is the number's exact one, which that `f64` rounds, so the two can
differ for a value within a rounding of an integer or beyond `2^53`, and a value beyond the range
of an `f64`, which serde_json refuses, is saturated here. -/
def truncate (x : JsonNumber) : UInt64 :=
  let m := x.int * 10 ^ x.frac.length + Json.digitsValue x.frac
  let v := match x.exp with
    | some (false, e) => m * 10 ^ e / 10 ^ x.frac.length
    | some (true, e) => m / 10 ^ (x.frac.length + e)
    | none => m / 10 ^ x.frac.length
  if x.neg then 0 else UInt64.ofNat (min v (UInt64.size - 1))

/-- Modelled from the spec: `usize::deserialize` of serde 0.8/0.9 on a 64-bit target. serde_json
hands an integer literal to the visitor as a `u64`, a negative one down to `-2^63` as an `i64`,
which the visitor refuses unless it is `-0`, and every other number (a fraction, an exponent, an
integer literal past 64 bits) as an `f64`, which the visitor casts with `as`. -/
def deserializeUsize : Json → Option UInt64
  | .num x =>
    if x.neg ∧ x.frac = [] ∧ x.exp = none ∧ 0 < x.int ∧ x.int ≤ 2 ^ 63 then none
    else some (truncate x)
  | _ => none

def serializeUuid (u : Uuid) : Json := .str u.hyphenated

def deserializeUuid : Json → Option Uuid
  | .str s => Uuid.parseStr s
  | _ => none

/-- `serde_json::to_string(x).map_err(|_| ())`. -/
def toString {α : Type} (serialize : α → Option Json) (x : α) : Except Unit String :=
  match serialize x with
  | some v => .ok v.toString
  | none => .error ()

/-- `serde_json::from_str(raw).map_err(|_| ())`. -/
def fromStr {α : Type} (deserialize : Json → Option α) (raw : String) : Except Unit α :=
  match (Json.parse raw).bind deserialize with
  | some x => .ok x
  | none => .error ()

end Serde

open Serde

/-! ## The types of `commands.rs` -/

namespace HistTickDst

def serialize : HistTickDst → Json
  | .flatfile filename => structVariant "Flatfile" [("filename", .str filename)]
  | .postgres table => structVariant "Postgres" [("table", .str table)]
  | .redisChannel host channel =>
    structVariant "RedisChannel" [("host", .str host), ("channel", .str channel)]
  | .redisSet host setName =>
    structVariant "RedisSet" [("host", .str host), ("set_name", .str setName)]
  | .console => unitVariant "Console"

def deserialize (j : Json) : Option HistTickDst := do
  let (name, content) ← variant j
  match name with
  | "Flatfile" => do
    let [filename] ← structContent ["filename"] content | none
    return .flatfile (← deserializeString filename)
  | "Postgres" => do
    let [table] ← structContent ["table"] content | none
    return .postgres (← deserializeString table)
  | "RedisChannel" => do
    let [host, channel] ← structContent ["host", "channel"] content | none
    return .redisChannel (← deserializeString host) (← deserializeString channel)
  | "RedisSet" => do
    let [host, setName] ← structContent ["host", "set_name"] content | none
    return .redisSet (← deserializeString host) (← deserializeString setName)
  | "Console" => do
    unitContent content
    return .console
  | _ => none

end HistTickDst

namespace Command

variable {σ : Type}

def serialize (enc : σ → Option Json) : Command σ → Option Json
  | .ping => some (unitVariant "Ping")
  | .shutdown => some (unitVariant "Shutdown")
  | .kill => some (unitVariant "Kill")
  | .register channel => some (structVariant "Register" [("channel", .str channel)])
  | .type => some (unitVariant "Type")
  | .ready instanceType uuid =>
    some (structVariant "Ready"
      [("instance_type", .str instanceType), ("uuid", serializeUuid uuid)])
  | .addSMA period => some (structVariant "AddSMA" [("period", serializeUsize period)])
  | .removeSMA period => some (structVariant "RemoveSMA" [("period", serializeUsize period)])
  | .spawnMM => some (unitVariant "SpawnMM")
  | .census => some (unitVariant "Census")
  | .spawnOptimizer strategy => some (structVariant "SpawnOptimizer" [("strategy", .str strategy)])
  | .spawnTickParser symbol => some (structVariant "SpawnTickParser" [("symbol", .str symbol)])
  | .spawnBacktester => some (unitVariant "SpawnBacktester")
  | .spawnFxcmDataDownloader => some (unitVariant "SpawnFxcmDataDownloader")
  | .killInstance uuid => some (structVariant "KillInstance" [("uuid", serializeUuid uuid)])
  | .killAllInstances => some (unitVariant "KillAllInstances")
  | .startBacktest definition =>
    some (structVariant "StartBacktest" [("definition", .str definition)])
  | .pauseBacktest uuid => some (structVariant "PauseBacktest" [("uuid", serializeUuid uuid)])
  | .resumeBacktest uuid => some (structVariant "ResumeBacktest" [("uuid", serializeUuid uuid)])
  | .stopBacktest uuid => some (structVariant "StopBacktest" [("uuid", serializeUuid uuid)])
  | .listBacktests => some (unitVariant "ListBacktests")
  | .listSimbrokers => some (unitVariant "ListSimbrokers")
  | .spawnSimbroker settings =>
    (enc settings).map fun settings => structVariant "SpawnSimbroker" [("settings", settings)]
  | .downloadTicks startTime endTime symbol dst =>
    some (structVariant "DownloadTicks" [("start_time", .str startTime), ("end_time", .str endTime),
      ("symbol", .str symbol), ("dst", dst.serialize)])
  | .listRunningDownloads => some (unitVariant "ListRunningDownloads")
  | .downloadComplete startTime endTime symbol dst =>
    some (structVariant "DownloadComplete" [("start_time", .str startTime),
      ("end_time", .str endTime), ("symbol", .str symbol), ("dst", dst.serialize)])

/-- The content of `DownloadTicks` and `DownloadComplete`. -/
def deserializeDownload (content : Option Json) :
    Option (String × String × String × HistTickDst) := do
  let [startTime, endTime, symbol, dst] ←
    structContent ["start_time", "end_time", "symbol", "dst"] content | none
  return (← deserializeString startTime, ← deserializeString endTime, ← deserializeString symbol,
    ← HistTickDst.deserialize dst)

def deserialize (dec : Json → Option σ) (j : Json) : Option (Command σ) := do
  let (name, content) ← variant j
  match name with
  | "Ping" => do unitContent content; return .ping
  | "Shutdown" => do unitContent content; return .shutdown
  | "Kill" => do unitContent content; return .kill
  | "Register" => do
    let [channel] ← structContent ["channel"] content | none
    return .register (← deserializeString channel)
  | "Type" => do unitContent content; return .type
  | "Ready" => do
    let [instanceType, uuid] ← structContent ["instance_type", "uuid"] content | none
    return .ready (← deserializeString instanceType) (← deserializeUuid uuid)
  | "AddSMA" => do
    let [period] ← structContent ["period"] content | none
    return .addSMA (← deserializeUsize period)
  | "RemoveSMA" => do
    let [period] ← structContent ["period"] content | none
    return .removeSMA (← deserializeUsize period)
  | "SpawnMM" => do unitContent content; return .spawnMM
  | "Census" => do unitContent content; return .census
  | "SpawnOptimizer" => do
    let [strategy] ← structContent ["strategy"] content | none
    return .spawnOptimizer (← deserializeString strategy)
  | "SpawnTickParser" => do
    let [symbol] ← structContent ["symbol"] content | none
    return .spawnTickParser (← deserializeString symbol)
  | "SpawnBacktester" => do unitContent content; return .spawnBacktester
  | "SpawnFxcmDataDownloader" => do unitContent content; return .spawnFxcmDataDownloader
  | "KillInstance" => do
    let [uuid] ← structContent ["uuid"] content | none
    return .killInstance (← deserializeUuid uuid)
  | "KillAllInstances" => do unitContent content; return .killAllInstances
  | "StartBacktest" => do
    let [definition] ← structContent ["definition"] content | none
    return .startBacktest (← deserializeString definition)
  | "PauseBacktest" => do
    let [uuid] ← structContent ["uuid"] content | none
    return .pauseBacktest (← deserializeUuid uuid)
  | "ResumeBacktest" => do
    let [uuid] ← structContent ["uuid"] content | none
    return .resumeBacktest (← deserializeUuid uuid)
  | "StopBacktest" => do
    let [uuid] ← structContent ["uuid"] content | none
    return .stopBacktest (← deserializeUuid uuid)
  | "ListBacktests" => do unitContent content; return .listBacktests
  | "ListSimbrokers" => do unitContent content; return .listSimbrokers
  | "SpawnSimbroker" => do
    let [settings] ← structContent ["settings"] content | none
    return .spawnSimbroker (← dec settings)
  | "DownloadTicks" => do
    let (startTime, endTime, symbol, dst) ← deserializeDownload content
    return .downloadTicks startTime endTime symbol dst
  | "ListRunningDownloads" => do unitContent content; return .listRunningDownloads
  | "DownloadComplete" => do
    let (startTime, endTime, symbol, dst) ← deserializeDownload content
    return .downloadComplete startTime endTime symbol dst
  | _ => none

/-- `Command::to_string`. -/
def toString (enc : σ → Option Json) (c : Command σ) : Except Unit String :=
  Serde.toString (serialize enc) c

/-- `Command::from_str`. -/
def fromStr (dec : Json → Option σ) (raw : String) : Except Unit (Command σ) :=
  Serde.fromStr (deserialize dec) raw

end Command

namespace Response

def serialize : Response → Json
  | .ok => unitVariant "Ok"
  | .error status => structVariant "Error" [("status", .str status)]
  | .pong args => structVariant "Pong" [("args", .arr (args.map .str))]
  | .info text => structVariant "Info" [("info", .str text)]

def deserialize (j : Json) : Option Response := do
  let (name, content) ← variant j
  match name with
  | "Ok" => do unitContent content; return .ok
  | "Error" => do
    let [status] ← structContent ["status"] content | none
    return .error (← deserializeString status)
  | "Pong" => do
    let [args] ← structContent ["args"] content | none
    return .pong (← deserializeStrings args)
  | "Info" => do
    let [text] ← structContent ["info"] content | none
    return .info (← deserializeString text)
  | _ => none

/-- `Response::to_string`. -/
def toString (r : Response) : Except Unit String := Serde.toString (some ∘ serialize) r

/-- `Response::from_str`. -/
def fromStr (raw : String) : Except Unit Response := Serde.fromStr deserialize raw

end Response

namespace WrappedCommand

variable {σ : Type}

def serialize (enc : σ → Option Json) (w : WrappedCommand σ) : Option Json :=
  (w.cmd.serialize enc).map fun cmd => .obj [("uuid", serializeUuid w.uuid), ("cmd", cmd)]

def deserialize (dec : Json → Option σ) (j : Json) : Option (WrappedCommand σ) := do
  let [uuid, cmd] ← structFields ["uuid", "cmd"] j | none
  return ⟨← deserializeUuid uuid, ← Command.deserialize dec cmd⟩

/-- `WrappedCommand::to_string`. -/
def toString (enc : σ → Option Json) (w : WrappedCommand σ) : Except Unit String :=
  Serde.toString (serialize enc) w

/-- `WrappedCommand::from_str`. -/
def fromStr (dec : Json → Option σ) (raw : String) : Except Unit (WrappedCommand σ) :=
  Serde.fromStr (deserialize dec) raw

end WrappedCommand

namespace WrappedResponse

def serialize (v : WrappedResponse) : Json :=
  .obj [("uuid", serializeUuid v.uuid), ("res", v.res.serialize)]

def deserialize (j : Json) : Option WrappedResponse := do
  let [uuid, res] ← structFields ["uuid", "res"] j | none
  return ⟨← deserializeUuid uuid, ← Response.deserialize res⟩

/-- `WrappedResponse::to_string`. -/
def toString (v : WrappedResponse) : Except Unit String := Serde.toString (some ∘ serialize) v

/-- `WrappedResponse::from_str`. -/
def fromStr (raw : String) : Except Unit WrappedResponse := Serde.fromStr deserialize raw

end WrappedResponse

end TickGrinder
