import TickGrinder.Proofs.Heartbeat
import TickGrinder.Proofs.Listeners

/-!
# What the census reports

The spawner's `living` list changes in three places: `Ready` appends the instance it announces,
`KillAllInstances` empties it, and the heartbeat drops an instance or registers it again under its
own uuid (`handleCommand_cases`, `heartbeat_uuids`). So every uuid in it is one it held at the
start or one a `Ready` announced. Of the texts the listener publishes, only the census's `Info`
reads as a JSON array, and it lists `living`; the other `Info` texts are not JSON. So whatever a
client reads in a reply, interleaved with any turns of the heartbeat, names only instances that
registered. Conversely, the heartbeat never drops a record whose uuid a `Pong` names
(`mem_heartbeat`) and only `KillAllInstances` takes one out (`handleCommand_keeps`), so an
instance that answers every `Ping` is in every census until then. Both directions are invariants
of `living` carried through one induction over the listener's run (`listen_census`).
-/

namespace TickGrinder

/-- The uuid a `Ready` command announces. -/
def Command.readyUuid {σ : Type} : Command σ → Option Uuid
  | .ready _ uuid => some uuid
  | _ => none

/-- `from_str` reads back what `to_string` writes of a `WrappedResponse`. -/
theorem WrappedResponse.fromStr_of_toString {v : WrappedResponse} {m : String}
    (h : v.toString = .ok m) : WrappedResponse.fromStr m = .ok v := by
  obtain rfl : v.serialize.toString = m := Except.ok.inj h
  rw [fromStr, Serde.fromStr, Json.parse_toString, Option.some_bind, v.deserialize_serialize]

namespace InstanceManager

variable {σ : Type} (dec : Json → Option σ)

/-- The uuids the `Ready` commands among what the spawner sees announce, in order. -/
def announced : List Input → List Uuid
  | [] => []
  | .exit :: rest => announced rest
  | .heartbeat _ _ :: rest => announced rest
  | .message raw _ :: rest =>
    match WrappedCommand.fromStr dec raw with
    | .ok w => w.cmd.readyUuid.toList ++ announced rest
    | .error () => announced rest

variable {dec} {uuid : Uuid} {living living' : List Instance} {cmd : Command σ} {spawned : Bool}
  {res : Response}

theorem readyUuid_announced {raw : String} {w : WrappedCommand σ} :
    ∀ {inputs : List Input}, Input.message raw spawned ∈ inputs →
      WrappedCommand.fromStr dec raw = .ok w → ∀ u ∈ w.cmd.readyUuid.toList, u ∈ announced dec inputs
  | .exit :: rest, .tail _ hm, hw, u, hu => readyUuid_announced hm hw u hu
  | .heartbeat _ _ :: rest, .tail _ hm, hw, u, hu => readyUuid_announced hm hw u hu
  | .message _ _ :: _, .head _, hw, u, hu => by simp only [announced, hw]; exact List.mem_append_left _ hu
  | .message raw' _ :: rest, .tail _ hm, hw, u, hu => by
    have h := readyUuid_announced hm hw u hu
    simp only [announced]
    split
    · exact List.mem_append_right _ h
    · exact h

/-- What `handle_command` can do to `living` and answer: register the instance a `Ready`
announces, empty `living` on `KillAllInstances`, or leave it as it is, answering the census or a
text that is not JSON. -/
theorem handleCommand_cases (h : handleCommand uuid living cmd spawned = some (living', res)) :
    (∃ t u, cmd = .ready t u ∧ living' = addInstance living ⟨t, u⟩ ∧ res = .ok) ∨
    (cmd = .killAllInstances ∧ living' = [] ∧ res = .ok) ∨
    (living' = living ∧ (res = census living ∨ ∀ text, res = .info text → Json.parse text = none)) := by
  cases cmd with
  | ready t u => cases h; exact .inl ⟨t, u, rfl, rfl, rfl⟩
  | killAllInstances => cases h; exact .inr (.inl ⟨rfl, rfl, rfl⟩)
  | census => cases h; exact .inr (.inr ⟨rfl, .inl rfl⟩)
  | kill | type => cases h; exact .inr (.inr ⟨rfl, .inr fun _ h => by cases h; rfl⟩)
  | spawnMM | spawnOptimizer _ | spawnTickParser _ | spawnBacktester | spawnFxcmDataDownloader =>
    obtain ⟨r, hr, he⟩ := Option.map_eq_some'.1 h
    cases he
    simp only [spawn, Option.ite_none_right_eq_some, Option.some.injEq] at hr
    obtain ⟨-, rfl⟩ := hr
    exact .inr (.inr ⟨rfl, .inr fun _ h => nomatch h⟩)
  | _ => cases h; exact .inr (.inr ⟨rfl, .inr fun _ h => nomatch h⟩)

/-- A reply to one command whose `Info` text reads as a JSON array lists `living`. -/
theorem handleCommand_array (h : handleCommand uuid living cmd spawned = some (living', res))
    {text : String} (hinfo : res = .info text) {js : List Json}
    (hjs : Json.parse text = some (.arr js)) : js = living.map Instance.serialize := by
  rcases handleCommand_cases h with ⟨-, -, -, -, rfl⟩ | ⟨-, -, rfl⟩ | ⟨-, rfl | hn⟩
  · cases hinfo
  · cases hinfo
  · obtain rfl : _ = text := Response.info.inj hinfo
    have hc := Json.parse_joined (living.map Instance.serialize)
    rw [List.map_map] at hc
    simpa using hjs.symm.trans hc
  · rw [hn text hinfo] at hjs
    cases hjs

theorem handleCommand_living (h : handleCommand uuid living cmd spawned = some (living', res)) :
    ∀ u ∈ living'.map Instance.uuid, u ∈ living.map Instance.uuid ∨ u ∈ cmd.readyUuid.toList := by
  intro u hu
  rcases handleCommand_cases h with ⟨t, v, rfl, rfl, -⟩ | ⟨-, rfl, -⟩ | ⟨rfl, -⟩
  · simpa [addInstance, Command.readyUuid] using hu
  · cases hu
  · exact .inl hu

/-- Only `KillAllInstances` takes an instance out of `living`. -/
theorem handleCommand_keeps (h : handleCommand uuid living cmd spawned = some (living', res))
    (hk : cmd ≠ .killAllInstances) {x : Instance} (hx : x ∈ living) : x ∈ living' := by
  rcases handleCommand_cases h with ⟨-, -, -, rfl, -⟩ | ⟨hc, -⟩ | ⟨rfl, -⟩
  · exact List.mem_append_left _ hx
  · exact absurd hc hk
  · exact hx

/-- Every JSON array that a text the spawner's listener publishes reads as, in the `Info` of the
`WrappedResponse` it carries, is the census of a `living` list that each invariant of the
heartbeat's turns and of the commands' handling holds of. -/
theorem listen_census {P : List Instance → Prop} {inputs : List Input}
    (hhb : ∀ L R p, Input.heartbeat R p ∈ inputs → P L → P (heartbeat L R p))
    (hcmd : ∀ L raw spawned (w : WrappedCommand σ) L' res, Input.message raw spawned ∈ inputs →
      WrappedCommand.fromStr dec raw = .ok w →
      handleCommand uuid L w.cmd spawned = some (L', res) → P L → P L') :
    ∀ {living : List Instance} {killed : Bool}, P living →
      ∀ {msg : String} {v : WrappedResponse} {text : String} {js : List Json},
      msg ∈ listen dec uuid living killed inputs → WrappedResponse.fromStr msg = .ok v →
      v.res = .info text → Json.parse text = some (.arr js) → ∃ L, P L ∧ js = L.map Instance.serialize := by
  induction inputs with
  | nil => intro _ _ _ _ _ _ _ hmsg; nomatch hmsg
  | cons i rest ih =>
    have ih := @ih (fun L R p hm => hhb L R p (.tail _ hm))
      (fun L raw spawned w L' res hm => hcmd L raw spawned w L' res (.tail _ hm))
    intro living killed hP msg v text js hmsg hv hinfo hjs
    cases i with
    | exit =>
      simp only [listen] at hmsg
      split_ifs at hmsg
      · nomatch hmsg
      · exact ih hP hmsg hv hinfo hjs
    | heartbeat R p => exact ih (hhb living R p (.head _) hP) hmsg hv hinfo hjs
    | message raw spawned =>
      rcases hw : WrappedCommand.fromStr dec raw with _ | w
      · simp only [listen, hw] at hmsg
        exact ih hP hmsg hv hinfo hjs
      rcases hh : handleCommand uuid living w.cmd spawned with _ | ⟨living', res⟩
      · simp [listen, hw, hh] at hmsg
      rcases ht : (res.wrap w.uuid).toString with _ | m
      · simp [listen, hw, hh, ht] at hmsg
      simp only [listen, hw, hh, ht, List.mem_cons] at hmsg
      rcases hmsg with rfl | hmsg
      · rw [WrappedResponse.fromStr_of_toString ht, Except.ok.injEq] at hv
        subst hv
        exact ⟨living, hP, handleCommand_array hh hinfo hjs⟩
      · exact ih (hcmd living raw spawned w living' res (.head _) hw hh hP) hmsg hv hinfo hjs

variable (dec)

/-- Every reply the spawner's listener publishes whose `Info` text reads as a JSON array, the
census, lists only instances whose uuids the spawner held at the start or a `Ready` command
announced, whatever the heartbeat does in between and whatever else the messages say. -/
theorem census_names_only_registered (uuid : Uuid) (living : List Instance) (killed : Bool)
    (inputs : List Input) (msg : String) (hmsg : msg ∈ listen dec uuid living killed inputs)
    (v : WrappedResponse) (hv : WrappedResponse.fromStr msg = .ok v) (text : String)
    (hinfo : v.res = .info text) (js : List Json) (hjs : Json.parse text = some (.arr js)) :
    ∀ j ∈ js, ∃ inst : Instance, j = inst.serialize ∧
      (inst.uuid ∈ living.map Instance.uuid ∨ inst.uuid ∈ announced dec inputs) := by
  obtain ⟨L, hL, rfl⟩ := listen_census
    (P := fun L => ∀ u ∈ L.map Instance.uuid, u ∈ living.map Instance.uuid ∨ u ∈ announced dec inputs)
    (fun L R p _ hL u hu => hL u ((heartbeat_uuids L R p).1.subset hu))
    (fun L raw spawned w L' res hm hw hh hL u hu => (handleCommand_living hh u hu).elim (hL u)
      fun h => .inr (readyUuid_announced hm hw u h))
    (fun _ hu => .inl hu) hmsg hv hinfo hjs
  intro j hj
  obtain ⟨inst, hi, rfl⟩ := List.mem_map.1 hj
  exact ⟨inst, rfl, hL _ (List.mem_map_of_mem _ hi)⟩

/-- A `Ready` of a `Backtester` whose uuid, ending in 2, is written in the `urn:uuid:` form,
wrapped with the uuid ending in 3. -/
def readyMessage : String :=
  "\x7b\"uuid\":\"00000000-0000-0000-0000-000000000003\",\"cmd\":\x7b\"Ready\":\x7b\"instance_type\":\"Backtester\",\"uuid\":\"urn:uuid:00000000-0000-0000-0000-000000000002\"\x7d\x7d\x7d"

/-- A `Census`, wrapped with the same uuid. -/
def censusMessage : String :=
  "\x7b\"uuid\":\"00000000-0000-0000-0000-000000000003\",\"cmd\":\"Census\"\x7d"

set_option maxRecDepth 4000 in
/-- After a `Ready`, the census lists the instance it announced. -/
theorem census_after_ready_lists_it :
    ∃ msg v text js, msg ∈ listen (fun _ => (none : Option Unit)) (Uuid.ofByte 1) [] false
        [.message readyMessage true, .message censusMessage true] ∧
      WrappedResponse.fromStr msg = .ok v ∧ v.res = .info text ∧
      Json.parse text = some (.arr js) ∧ js ≠ [] ∧
      ∀ j ∈ js, ∃ inst : Instance, j = inst.serialize ∧
        (inst.uuid ∈ ([] : List Instance).map Instance.uuid ∨
          inst.uuid ∈ announced (fun _ => (none : Option Unit))
            [.message readyMessage true, .message censusMessage true]) := by
  have hv : WrappedResponse.fromStr
      ((census [⟨"Backtester", Uuid.ofByte 2⟩]).wrap (Uuid.ofByte 3)).serialize.toString =
        .ok ((census [⟨"Backtester", Uuid.ofByte 2⟩]).wrap (Uuid.ofByte 3)) :=
    WrappedResponse.fromStr_of_toString rfl
  have hmsg : ((census [⟨"Backtester", Uuid.ofByte 2⟩]).wrap (Uuid.ofByte 3)).serialize.toString ∈
      listen (fun _ => (none : Option Unit)) (Uuid.ofByte 1) [] false
        [.message readyMessage true, .message censusMessage true] :=
    List.mem_cons_of_mem _ (List.mem_singleton_self _)
  have hjs := Json.parse_joined [Instance.serialize ⟨"Backtester", Uuid.ofByte 2⟩]
  exact ⟨_, _, _, _, hmsg, hv, rfl, hjs, List.cons_ne_nil _ _,
    census_names_only_registered _ _ _ _ _ _ hmsg _ hv _ rfl _ hjs⟩

/-- Every instance the spawner holds and whose uuid a well-formed `Pong` names in every turn of
the heartbeat stays listed: every census the listener publishes lists it, whatever else the
messages say, as long as none is a `KillAllInstances`. -/
theorem census_lists_answering_instances (uuid : Uuid) (living : List Instance) (inst : Instance)
    (hi : inst ∈ living) (killed : Bool) (inputs : List Input)
    (hans : ∀ R p, Input.heartbeat R p ∈ inputs → Answered R inst.uuid)
    (hkill : ∀ raw spawned (w : WrappedCommand σ), Input.message raw spawned ∈ inputs →
      WrappedCommand.fromStr dec raw = .ok w → w.cmd ≠ .killAllInstances)
    (msg : String) (hmsg : msg ∈ listen dec uuid living killed inputs)
    (v : WrappedResponse) (hv : WrappedResponse.fromStr msg = .ok v) (text : String)
    (hinfo : v.res = .info text) (js : List Json) (hjs : Json.parse text = some (.arr js)) :
    inst.serialize ∈ js := by
  obtain ⟨L, hL, rfl⟩ := listen_census (P := (inst ∈ ·))
    (fun L R p hm hL => mem_heartbeat hL (hans R p hm) p)
    (fun L raw spawned w L' res hm hw hh hL => handleCommand_keeps hh (hkill raw spawned w hm hw) hL)
    hi hmsg hv hinfo hjs
  exact List.mem_map_of_mem _ hL

/-- An instance that answers the heartbeat's `Ping`, whose `Type` query then times out, is listed
by the census that follows the benchmark's `RemoveSMA`. -/
theorem census_after_answered_heartbeat :
    ∃ msg v text js, msg ∈ listen (fun _ => (none : Option Unit)) (Uuid.ofByte 1)
        [⟨"Backtester", Uuid.ofByte 2⟩] false
        [.heartbeat [.pong [(Uuid.ofByte 2).hyphenated]] (.error "timeout"),
          .message benchRaw true, .message censusMessage true] ∧
      WrappedResponse.fromStr msg = .ok v ∧ v.res = .info text ∧
      Json.parse text = some (.arr js) ∧ Instance.serialize ⟨"Backtester", Uuid.ofByte 2⟩ ∈ js := by
  have hv : WrappedResponse.fromStr
      ((census [⟨"Backtester", Uuid.ofByte 2⟩]).wrap (Uuid.ofByte 3)).serialize.toString =
        .ok ((census [⟨"Backtester", Uuid.ofByte 2⟩]).wrap (Uuid.ofByte 3)) :=
    WrappedResponse.fromStr_of_toString rfl
  have hmsg : ((census [⟨"Backtester", Uuid.ofByte 2⟩]).wrap (Uuid.ofByte 3)).serialize.toString ∈
      listen (fun _ => (none : Option Unit)) (Uuid.ofByte 1) [⟨"Backtester", Uuid.ofByte 2⟩] false
        [.heartbeat [.pong [(Uuid.ofByte 2).hyphenated]] (.error "timeout"),
          .message benchRaw true, .message censusMessage true] :=
    List.mem_cons_of_mem _ (List.mem_singleton_self _)
  have hjs := Json.parse_joined [Instance.serialize ⟨"Backtester", Uuid.ofByte 2⟩]
  have hb : WrappedCommand.fromStr (fun _ => (none : Option Unit)) benchRaw =
      .ok ⟨benchUuid, .removeSMA 5⟩ := rfl
  have hc : WrappedCommand.fromStr (fun _ => (none : Option Unit)) censusMessage =
      .ok ⟨Uuid.ofByte 3, .census⟩ := rfl
  refine ⟨_, _, _, _, hmsg, hv, rfl, hjs, census_lists_answering_instances _ _ _ _
    (List.mem_singleton_self _) _ _ ?_ ?_ _ hmsg _ hv _ rfl _ hjs⟩
  · intro R p hm
    simp only [List.mem_cons, Input.heartbeat.injEq, reduceCtorEq, List.not_mem_nil, or_false] at hm
    rw [hm.1]
    exact ⟨_, _, List.mem_singleton_self _, rfl⟩
  · intro raw spawned w hm hw
    simp only [List.mem_cons, Input.message.injEq, reduceCtorEq, List.not_mem_nil, false_or,
      or_false] at hm
    rcases hm with ⟨rfl, -⟩ | ⟨rfl, -⟩
    · rw [hb, Except.ok.injEq] at hw
      exact hw ▸ nofun
    · rw [hc, Except.ok.injEq] at hw
      exact hw ▸ nofun

end InstanceManager

end TickGrinder
