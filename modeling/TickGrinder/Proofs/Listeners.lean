import TickGrinder.Backtester
import TickGrinder.Spawner
import TickGrinder.Proofs.CodecAccepts
import TickGrinder.Proofs.EngineRuns
import TickGrinder.Proofs.SimBrokers

/-!
# What the listeners publish

Both listeners read raw messages and publish one `WrappedResponse` per command they read, carrying
the command's uuid, until the thread a `Kill` spawns ends the process. They differ on a message
that is not a `WrappedCommand`: the spawner logs it and reads on, while the backtester returns
from `listen`, so that no later message is answered.

The backtester's listener drives the state machine of `Backtester`: each arm is one of its events,
so the invariant on the handles holds in every state the listener leaves.
-/

namespace TickGrinder

/-- A published text is a `WrappedResponse` to the command: it carries the command's uuid. -/
def Carries {σ : Type} (msg : String) (w : WrappedCommand σ) : Prop :=
  ∃ v : WrappedResponse, WrappedResponse.fromStr msg = .ok v ∧ v.uuid = w.uuid

/-- `to_string().unwrap()` on a `WrappedResponse` never panics, and its text carries the uuid. -/
theorem WrappedResponse.toString_wrap {σ : Type} (res : Response) (w : WrappedCommand σ) :
    ∃ msg, (res.wrap w.uuid).toString = .ok msg ∧ Carries msg w := by
  obtain ⟨msg, h, hd⟩ := @Serde.fromStr_toString _ (some ∘ WrappedResponse.serialize)
    WrappedResponse.deserialize _ _ rfl (res.wrap w.uuid).deserialize_serialize
  exact ⟨msg, h, res.wrap w.uuid, hd, rfl⟩

/-- A `Ping` wrapped with the uuid of the source's benchmark. -/
def wrappedPing : String := "\x7b\"uuid\":\"2f663301-5b73-4fa0-b201-09ab196ec5fd\",\"cmd\":\"Ping\"\x7d"

/-- A `Kill` wrapped with the same uuid. -/
def wrappedKill : String := "\x7b\"uuid\":\"2f663301-5b73-4fa0-b201-09ab196ec5fd\",\"cmd\":\"Kill\"\x7d"

/-- A `StartBacktest` wrapped with the same uuid. -/
def startBacktestMessage : String :=
  "\x7b\"uuid\":\"2f663301-5b73-4fa0-b201-09ab196ec5fd\",\"cmd\":\x7b\"StartBacktest\":\x7b\"definition\":\"x\"\x7d\x7d\x7d"

/-- A `Ping` without the uuid a `WrappedCommand` needs. -/
def unwrappedPing : String := "\x7b\"cmd\":\"Ping\"\x7d"

/-! ## The spawner -/

namespace InstanceManager

variable {σ : Type} (dec : Json → Option σ)

/-- The commands the spawner answers among what it sees: the messages that parse, in order, until
the thread of a `Kill` answered before ends the process. -/
def commands (killed : Bool) : List Input → List (WrappedCommand σ)
  | [] => []
  | .exit :: rest => if killed then [] else commands killed rest
  | .heartbeat _ _ :: rest => commands killed rest
  | .message raw _ :: rest =>
    match WrappedCommand.fromStr dec raw with
    | .ok w => w :: commands (killed || w.cmd.isKill) rest
    | .error () => commands killed rest

theorem spawned_tail {i : Input} {rest : List Input}
    (h : ∀ raw spawned, Input.message raw spawned ∈ i :: rest → spawned = true) :
    ∀ raw spawned, Input.message raw spawned ∈ rest → spawned = true :=
  fun raw spawned hm => h raw spawned (List.mem_cons_of_mem _ hm)

theorem handleCommand_of_spawned (uuid : Uuid) (living : List Instance) (cmd : Command σ) :
    ∃ living' res, handleCommand uuid living cmd true = some (living', res) := by
  cases cmd <;> exact ⟨_, _, rfl⟩

/-- What the spawner sees in a run that ends by `Kill`: a message that is not a
`WrappedCommand`, the text of the source's benchmark, a `Kill`, the thread of the `Kill` ending
the process, and a `Ping`. -/
def killRun : List Input :=
  [.message unwrappedPing true, .message benchRaw true, .message wrappedKill true, .exit,
    .message wrappedPing true]

/-- The text of the spawner's `Census` answer, joined by hand, is JSON: for every living list it
reads back as the array of the living instances, in order, each as `Instance`'s derived
`Serialize` writes it. -/
theorem census_lists_living (living : List Instance) :
    ∃ text, census living = .info text ∧
      Json.parse text = some (.arr (living.map Instance.serialize)) := by
  have h := Json.parse_joined (living.map Instance.serialize)
  rw [List.map_map] at h
  exact ⟨_, rfl, h⟩

end InstanceManager

/-! ## The backtester -/

namespace Backtester

variable {σ : Type} (dec : Json → Option σ)
  (parseDefinition : String → Except String BacktestDefinition)
  (serializeHandle : Uuid → BacktestHandle → Option Json)

/-- The commands the backtester's listener answers: the messages that parse, up to the first one
that does not, or until the thread of a `Kill` answered before ends the process. -/
def commandsUntilMalformed (killed : Bool) : List Input → List (WrappedCommand σ)
  | [] => []
  | .exit :: rest => if killed then [] else commandsUntilMalformed killed rest
  | .step _ _ :: rest => commandsUntilMalformed killed rest
  | .message raw _ :: rest =>
    match WrappedCommand.fromStr dec raw with
    | .ok w => w :: commandsUntilMalformed (killed || w.cmd.isKill) rest
    | .error () => []

/-- How a run of the listener that does not panic ends, from the messages alone: it returns at the
first message that does not parse, the process ends at the first turn of the thread of a `Kill`
answered before, whichever comes first, and otherwise it is still listening. -/
def ending (killed : Bool) : List Input → Ending
  | [] => .listening
  | .exit :: rest => if killed then .exited else ending killed rest
  | .step _ _ :: rest => ending killed rest
  | .message raw _ :: rest =>
    match WrappedCommand.fromStr dec raw with
    | .ok w => ending (killed || w.cmd.isKill) rest
    | .error () => .returned

/-- What the backtester sees in a run that ends by `Kill`: the text of the source's benchmark, a
`Kill`, the thread of the `Kill` ending the process, and a `Ping`. -/
def killRun : List Input :=
  [.message benchRaw ⟨Uuid.ofByte 2, .error ""⟩, .message wrappedKill ⟨Uuid.ofByte 2, .error ""⟩,
    .exit, .message wrappedPing ⟨Uuid.ofByte 2, .error ""⟩]

theorem EngineStep.stopPending (s : EngineStep) {e e' : Engine} (h : s.apply e = some e')
    (hp : e.StopPending) : e'.StopPending := by
  cases s
  exacts [hp.consume h, hp.tick h, hp.exitSend h, Engine.StopPending.finish h]

/-- Each arm of `listen` keeps the invariant on the handles. -/
theorem Inv.respond {b b' : Backtester} {cmd : Command σ} {draw : Draw} {res : Response}
    (hi : b.Inv) (h : b.respond parseDefinition serializeHandle cmd draw = some (.respond b' res)) :
    b'.Inv := by
  cases cmd with
  | startBacktest definitionStr =>
    simp only [Backtester.respond] at h
    split at h
    · cases h; exact hi
    split at h
    · cases h
    all_goals
      obtain ⟨⟩ := h
      exact hi.startBacktest ‹_›
  | pauseBacktest u | resumeBacktest u =>
    obtain ⟨⟨b₁, r⟩, hs, hb⟩ := Option.map_eq_some'.1 h
    cases hb
    exact (forwardBacktestCmd_spec hs).1 hi
  | stopBacktest u =>
    obtain ⟨⟨b₁, r⟩, hs, hb⟩ := Option.map_eq_some'.1 h
    cases hb
    exact hi.stopBacktest hs
  | spawnSimbroker _ => cases h; exact ⟨hi.started, hi.stopping⟩
  | _ => cases h; exact hi

theorem Inv.listen : ∀ {b : Backtester} {killed : Bool} {inputs : List Input} {b' : Backtester}
    {out : List String} {e : Ending}, b.Inv →
      listen dec parseDefinition serializeHandle b killed inputs = some (b', out, e) → b'.Inv
  | _, _, [], _, _, _, hi, h => by cases h; exact hi
  | b, killed, .exit :: rest, _, _, _, hi, h => by
    simp only [Backtester.listen] at h
    split_ifs at h
    · cases h; exact hi
    · exact Inv.listen hi h
  | b, _, .step uuid s :: rest, _, _, _, hi, h => by
    obtain ⟨b₁, h₁, h'⟩ := Option.bind_eq_some.1 h
    exact Inv.listen ((stepEngine_spec (fun _ _ => s.stopPending) h₁).1 hi) h'
  | b, _, .message raw draw :: rest, _, _, _, hi, h => by
    rcases hw : WrappedCommand.fromStr dec raw with _ | w
    · simp only [Backtester.listen, hw, Option.some.injEq, Prod.mk.injEq] at h
      obtain ⟨rfl, -, -⟩ := h
      exact hi
    simp only [Backtester.listen, hw] at h
    obtain ⟨reply, hr, h'⟩ := Option.bind_eq_some.1 h
    rcases reply with ⟨b₁, res⟩ | _
    · obtain ⟨msg, hmsg, -⟩ := WrappedResponse.toString_wrap res w
      simp only [hmsg, Option.map_eq_some'] at h'
      obtain ⟨⟨b₂, out', e'⟩, hrun, hout⟩ := h'
      cases hout
      exact Inv.listen (hi.respond parseDefinition serializeHandle hr) hrun
    · cases h'
      exact hi

/-- In every state the backtester's listener leaves, from `Backtester::new`, whatever the messages
and the backtests' own steps, every key of `running_backtests` names a started backtest, and every
running or paused backtest is a key or has a `Stop` waiting on its control channel. -/
theorem listen_keeps_live_backtests_stoppable (u : Uuid) (killed : Bool) (inputs : List Input)
    (b : Backtester) (out : List String) (e : Ending)
    (h : listen dec parseDefinition serializeHandle (new u) killed inputs = some (b, out, e)) :
    (∀ v ∈ b.runningBacktests, v ∈ b.engines) ∧
    ∀ v en, b.engines.lookup v = some en → en.phase ≠ .stopped →
      v ∈ b.runningBacktests ∨ .stop ∈ en.control := by
  have hi := (inv_new u).listen dec parseDefinition serializeHandle h
  exact ⟨hi.started, fun v en he hs => or_iff_not_imp_left.2 fun hk => hi.stopping v en he hk hs⟩

/-- A `StartBacktest` message registers a handle for a backtest with an engine. -/
theorem listen_starts_backtest :
    ∃ b out, listen (fun _ => (none : Option Unit))
        (fun _ => .ok ⟨none, some 1, none, "TEST", .fast 0, .random, .null⟩) (fun _ _ => none)
        (new (Uuid.ofByte 1)) false
          [.message startBacktestMessage ⟨Uuid.ofByte 2, .ok [⟨1, 1, 1⟩]⟩] =
          some (b, out, .listening) ∧
      (∀ v ∈ b.runningBacktests, v ∈ b.engines) ∧
      ∀ v en, b.engines.lookup v = some en → en.phase ≠ .stopped →
        v ∈ b.runningBacktests ∨ .stop ∈ en.control := by
  obtain ⟨b, out, h⟩ : ∃ b out, listen (fun _ => (none : Option Unit))
      (fun _ => .ok ⟨none, some 1, none, "TEST", .fast 0, .random, .null⟩) (fun _ _ => none)
      (new (Uuid.ofByte 1)) false [.message startBacktestMessage ⟨Uuid.ofByte 2, .ok [⟨1, 1, 1⟩]⟩] =
        some (b, out, .listening) := ⟨_, _, rfl⟩
  exact ⟨b, out, h, listen_keeps_live_backtests_stoppable _ _ _ _ _ _ _ _ _ h⟩

/-! ### The listener as a run of events -/

/-- The uuid an event draws with `Uuid::new_v4`. -/
def Event.drawn : Event → Option Uuid
  | .startBacktest _ _ uuid => some uuid
  | .spawnSimbroker uuid => some uuid
  | _ => none

/-- The event of a backtest's own step. -/
def EngineStep.event (uuid : Uuid) : EngineStep → Event
  | .consume => .consume uuid
  | .tick => .tick uuid
  | .exitSend => .exitSend uuid
  | .finish => .finish uuid

theorem step_event (b : Backtester) (uuid : Uuid) (s : EngineStep) :
    step b (s.event uuid) = b.stepEngine uuid s.apply := by
  cases s <;> rfl

/-- The uuids drawn for the messages among the inputs. -/
def draws : List Input → List Uuid
  | [] => []
  | .exit :: rest => draws rest
  | .step _ _ :: rest => draws rest
  | .message _ draw :: rest => draw.uuid :: draws rest

/-- A uuid that names no backtest and no SimBroker. -/
def Fresh (b : Backtester) (u : Uuid) : Prop := u ∉ b.engines ∧ u ∉ b.simbrokers

variable {b b' : Backtester} {u : Uuid}

theorem mem_of_mem_insert_of_lookup {β : Uuid → Type} {m : AList β} {v : Uuid} {x y : β v}
    (hx : m.lookup v = some x) (h : u ∈ m.insert v y) : u ∈ m := by
  rcases (AList.mem_insert _).1 h with rfl | h
  exacts [AList.lookup_isSome.1 (by simp [hx]), h]

/-- No event adds a backtest or a SimBroker but under the uuid it draws. -/
theorem step_keys {ev : Event} (h : step b ev = some b') :
    (u ∈ b'.engines → u ∈ b.engines ∨ ev.drawn = some u) ∧
      (u ∈ b'.simbrokers → u ∈ b.simbrokers ∨ ev.drawn = some u) := by
  refine ⟨fun hu => ?_, fun hu => ?_⟩
  · rcases step_engines_cases h with he | ⟨v, e, e', hv, -, he⟩ | ⟨v, d, ticks, c, -, ⟨ts, rfl⟩, he⟩ <;>
      rw [he] at hu
    · exact .inl hu
    · exact .inl (mem_of_mem_insert_of_lookup hv hu)
    · exact ((AList.mem_insert _).1 hu).elim (fun h => .inr (congrArg some h.symm)) .inl
  · rcases List.mem_append.1 ((step_simbroker_keys h).subset (AList.mem_keys.1 hu)) with hm | hm
    · exact .inl (AList.mem_keys.2 hm)
    · cases ev <;> simp_all [Event.spawned, Event.drawn]

theorem Fresh.step {ev : Event} (hf : Fresh b u) (h : step b ev = some b')
    (hu : ev.drawn ≠ some u) : Fresh b' u :=
  ⟨fun h' => ((step_keys h).1 h').elim hf.1 hu, fun h' => ((step_keys h).2 h').elim hf.2 hu⟩

/-- Each arm of `listen` that answers is at most one event, which draws at most the message's
uuid. -/
theorem respond_step {cmd : Command σ} {draw : Draw} {res : Response} (hf : Fresh b draw.uuid)
    (h : b.respond parseDefinition serializeHandle cmd draw = some (.respond b' res)) :
    b' = b ∨ ∃ ev, step b ev = some b' ∧ ∀ v, ev.drawn = some v → v = draw.uuid := by
  cases cmd with
  | startBacktest definitionStr =>
    simp only [Backtester.respond] at h
    split at h
    · cases h; exact .inl rfl
    rename_i d _
    split at h
    · cases h
    all_goals
      rename_i hst
      obtain ⟨⟩ := h
      exact .inr ⟨.startBacktest d draw.tickstream draw.uuid, by simp [step, hf.1, hst],
        fun _ h => (Option.some.inj h).symm⟩
  | pauseBacktest v =>
    obtain ⟨⟨b₁, r⟩, hs, hb⟩ := Option.map_eq_some'.1 h
    cases hb
    exact .inr ⟨.pauseBacktest v, by simp [step, hs], fun _ h => by cases h⟩
  | resumeBacktest v =>
    obtain ⟨⟨b₁, r⟩, hs, hb⟩ := Option.map_eq_some'.1 h
    cases hb
    exact .inr ⟨.resumeBacktest v, by simp [step, hs], fun _ h => by cases h⟩
  | stopBacktest v =>
    obtain ⟨⟨b₁, r⟩, hs, hb⟩ := Option.map_eq_some'.1 h
    cases hb
    exact .inr ⟨.stopBacktest v, by simp [step, hs], fun _ h => by cases h⟩
  | spawnSimbroker _ =>
    cases h
    exact .inr ⟨.spawnSimbroker draw.uuid, by simp [step, hf.2],
      fun _ h => (Option.some.inj h).symm⟩
  | _ => cases h; exact .inl rfl

/-- Every state the backtester's listener leaves, whatever the messages and the backtests' own
steps between them, is one the backtester's events reach, provided each uuid `Uuid::new_v4` draws
is new: every arm of `listen` is at most one event, and every step of a backtest is one. -/
theorem listen_refines_events :
    ∀ (b : Backtester) (killed : Bool) (inputs : List Input) (b' : Backtester) (out : List String)
      (e : Ending), (draws inputs).Nodup → (∀ u ∈ draws inputs, Fresh b u) →
      listen dec parseDefinition serializeHandle b killed inputs = some (b', out, e) →
      ∃ evs, run b evs = some b'
  | _, _, [], _, _, _, _, _, h => by cases h; exact ⟨[], rfl⟩
  | b, killed, .exit :: rest, b', out, e, hn, hf, h => by
    simp only [listen] at h
    split_ifs at h
    · cases h
      exact ⟨[], rfl⟩
    · exact listen_refines_events b killed rest b' out e hn hf h
  | b, killed, .step uuid s :: rest, b', out, e, hn, hf, h => by
    obtain ⟨b₁, h₁, h'⟩ := Option.bind_eq_some.1 h
    rw [← step_event] at h₁
    obtain ⟨evs, hr⟩ := listen_refines_events b₁ killed rest b' out e hn
      (fun u hu => (hf u hu).step h₁ (by cases s <;> simp [EngineStep.event, Event.drawn])) h'
    exact ⟨s.event uuid :: evs, by simp [run, h₁, hr]⟩
  | b, killed, .message raw draw :: rest, b', out, e, hn, hf, h => by
    rw [draws, List.nodup_cons] at hn
    rcases hw : WrappedCommand.fromStr dec raw with _ | w
    · simp only [listen, hw, Option.some.injEq, Prod.mk.injEq] at h
      exact ⟨[], by rw [h.1]; rfl⟩
    simp only [listen, hw] at h
    obtain ⟨reply, hr, h'⟩ := Option.bind_eq_some.1 h
    rcases reply with ⟨b₁, res⟩ | _
    · obtain ⟨msg, hmsg, -⟩ := WrappedResponse.toString_wrap res w
      simp only [hmsg, Option.map_eq_some'] at h'
      obtain ⟨⟨b₂, out', e'⟩, hrun, hout⟩ := h'
      cases hout
      have hne : ∀ u ∈ draws rest, u ≠ draw.uuid := fun u hu h => hn.1 (h ▸ hu)
      rcases respond_step parseDefinition serializeHandle (hf _ (.head _)) hr with
        rfl | ⟨ev, hev, hd⟩
      · exact listen_refines_events _ _ rest _ out' _ hn.2 (fun u hu => hf u (.tail _ hu)) hrun
      · obtain ⟨evs, hevs⟩ := listen_refines_events b₁ _ rest _ out' _ hn.2
          (fun u hu => (hf u (.tail _ hu)).step hev fun h => hne u hu (hd u h)) hrun
        exact ⟨ev :: evs, by simp [run, hev, hevs]⟩
    · cases h'
      exact ⟨[], rfl⟩

/-- A `StartBacktest` message, with a new uuid drawn, is one event. -/
theorem listen_start_is_event :
    ∃ b out, listen (fun _ => (none : Option Unit))
        (fun _ => .ok ⟨none, some 1, none, "TEST", .fast 0, .random, .null⟩) (fun _ _ => none)
        (new (Uuid.ofByte 1)) false
          [.message startBacktestMessage ⟨Uuid.ofByte 2, .ok [⟨1, 1, 1⟩]⟩] =
          some (b, out, .listening) ∧ ∃ evs, run (new (Uuid.ofByte 1)) evs = some b := by
  obtain ⟨b, out, h⟩ : ∃ b out, listen (fun _ => (none : Option Unit))
      (fun _ => .ok ⟨none, some 1, none, "TEST", .fast 0, .random, .null⟩) (fun _ _ => none)
      (new (Uuid.ofByte 1)) false [.message startBacktestMessage ⟨Uuid.ofByte 2, .ok [⟨1, 1, 1⟩]⟩] =
        some (b, out, .listening) := ⟨_, _, rfl⟩
  exact ⟨b, out, h, listen_refines_events _ _ _ _ _ _ _ _ _ (by decide)
    (by simp [draws, Fresh, new, AList.not_mem_empty]) h⟩

end Backtester

/-- A message that is not a `WrappedCommand` ends the backtester's listener: the well-formed
`Ping` after it is not answered, while the spawner's listener answers it. -/
theorem backtester_ignores_ping_after_unwrapped_one :
    ((Backtester.listen (fun _ => (none : Option Unit)) (fun _ => .error "") (fun _ _ => none)
        (Backtester.new (Uuid.ofByte 1)) false [.message unwrappedPing ⟨Uuid.ofByte 2, .error ""⟩,
          .message wrappedPing ⟨Uuid.ofByte 2, .error ""⟩]).map Prod.snd) = some ([], .returned) ∧
    (InstanceManager.listen (fun _ => (none : Option Unit)) (Uuid.ofByte 1) [] false
      [.message unwrappedPing true, .message wrappedPing true]).length = 1 := by
  decide

end TickGrinder
