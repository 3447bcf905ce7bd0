import TickGrinder.Proofs.BacktestHandles

/-!
# The SimBrokers' symbols

`start_backtest` on a SimBroker plugs the backtest's tickstream into it with
`register_tickstream(..).unwrap()`, which panics on a symbol the SimBroker already holds, and
nothing takes a tickstream out again. One event adds at most the symbol of the backtest it starts
to the SimBroker the definition names (`step_simbrokers`), so from its spawn on a SimBroker holds
the symbols of the backtests started on it, latest first, each once (`run_simbrokers`). A second
backtest of one symbol on one SimBroker panics, also after the first one has stopped: the
listener ends with the process on its `StartBacktest`.

The registry itself only grows: `init_simbroker` adds a SimBroker under a new uuid, and starting a
backtest on one replaces its entry under the same uuid, so `ListSimbrokers` lists every SimBroker
spawned, each once (`run_simbroker_keys`).
-/

namespace TickGrinder

namespace Backtester

variable {b b' : Backtester} {sb u : Uuid} {held : List String}

/-- The symbol an event plugs into the SimBroker `sb`: that of a `StartBacktest` whose stream
was created and whose definition names `sb`. -/
def Event.symbolOn (sb : Uuid) : Event → Option String
  | .startBacktest d (.ok _) _ => if d.dataDest = .simBroker sb then some d.symbol else none
  | _ => none

theorem registerTickstream_eq_ok {held held' : List String} {s : String} :
    registerTickstream held s = .ok held' ↔ s ∉ held ∧ s :: held = held' := by
  unfold registerTickstream
  split_ifs with h <;> simp [h]

theorem sendBacktestCmd_simbrokers {c : BacktestCommand} {r : Except Unit Unit}
    (h : b.sendBacktestCmd u c = some (b', r)) : b'.simbrokers = b.simbrokers := by
  rcases sendBacktestCmd_cases h with ⟨-, -, rfl⟩ | ⟨-, -, ⟨-, rfl⟩ | ⟨_, _, -, -, rfl⟩⟩ <;> rfl

/-- What `start_backtest` can do to the SimBrokers: nothing, and then no SimBroker its definition
names and that it plugs a stream into exists; or add the definition's symbol, not held before, to
the SimBroker it names. -/
theorem startBacktest_simbrokers_cases {d : BacktestDefinition} {ts : Except String (List Tick)}
    {r : Except String Uuid} (h : b.startBacktest d ts u = some (b', r)) :
    (b'.simbrokers = b.simbrokers ∧ ∀ ticks sb, ts = .ok ticks → d.dataDest = .simBroker sb →
      b.simbrokers.lookup sb = none) ∨
    ∃ ticks sb held, ts = .ok ticks ∧ d.dataDest = .simBroker sb ∧
      b.simbrokers.lookup sb = some held ∧ d.symbol ∉ held ∧
      b'.simbrokers = b.simbrokers.insert sb (d.symbol :: held) := by
  rcases ts with e | ticks
  · cases h
    exact .inl ⟨rfl, fun _ _ h => nomatch h⟩
  simp only [startBacktest] at h
  rcases hdd : d.dataDest with _ | _ | _ | sb <;> simp only [hdd] at h
  iterate 3 · cases h; exact .inl ⟨rfl, fun _ _ _ h => nomatch h⟩
  rcases hl : b.simbrokers.lookup sb with _ | held <;> simp only [hl] at h
  · cases h
    exact .inl ⟨rfl, fun _ _ _ h => DataDest.simBroker.inj h ▸ hl⟩
  · split at h
    · cases h
    · rename_i hr
      obtain ⟨hm, rfl⟩ := registerTickstream_eq_ok.1 hr
      cases h
      exact .inr ⟨ticks, sb, held, rfl, rfl, hl, hm, rfl⟩

/-- What `start_backtest` does to a SimBroker that holds `held`: it adds the symbol the event
plugs into it, which it does not hold yet. -/
theorem startBacktest_simbrokers {d : BacktestDefinition} {ts : Except String (List Tick)}
    {r : Except String Uuid} (h : b.startBacktest d ts u = some (b', r))
    (hsb : b.simbrokers.lookup sb = some held) (hn : held.Nodup) :
    b'.simbrokers.lookup sb = some (((Event.startBacktest d ts u).symbolOn sb).toList ++ held) ∧
      (((Event.startBacktest d ts u).symbolOn sb).toList ++ held).Nodup := by
  rcases startBacktest_simbrokers_cases h with ⟨he, hnone⟩ | ⟨ticks, sb', held', rfl, hdd, hl, hm, he⟩
  · have hs : (Event.startBacktest d ts u).symbolOn sb = none := by
      rcases ts with _ | ticks
      · rfl
      · simp only [Event.symbolOn, ite_eq_right_iff]
        exact fun hdd => absurd (hnone ticks sb rfl hdd) (by simp [hsb])
    rw [he, hs]
    exact ⟨hsb, hn⟩
  · rw [he]
    by_cases hs : sb' = sb
    · subst hs
      obtain rfl : held' = held := Option.some.inj (hl.symm.trans hsb)
      simpa [Event.symbolOn, hdd, hm] using hn
    · have hs' : DataDest.simBroker sb' ≠ .simBroker sb := fun h => hs (DataDest.simBroker.inj h)
      simp only [Event.symbolOn, hdd, hs', if_false, Option.toList_none, List.nil_append,
        AList.lookup_insert_ne (Ne.symm hs)]
      exact ⟨hsb, hn⟩

/-- Only starting a backtest and spawning a SimBroker touch the SimBrokers. -/
theorem step_simbrokers_eq {ev : Event} (h : step b ev = some b')
    (hst : ∀ d ts u, ev ≠ .startBacktest d ts u) (hsp : ∀ u, ev ≠ .spawnSimbroker u) :
    b'.simbrokers = b.simbrokers := by
  cases ev with
  | startBacktest d ts u => exact absurd rfl (hst d ts u)
  | spawnSimbroker u => exact absurd rfl (hsp u)
  | pauseBacktest u | resumeBacktest u | stopBacktest u =>
    obtain ⟨⟨b₁, r⟩, hs, rfl⟩ := Option.map_eq_some'.1 h
    obtain ⟨⟨b₂, r₂⟩, hs₂, hb⟩ := Option.map_eq_some'.1 hs
    have he : b₁.simbrokers = b₂.simbrokers := by cases r₂ <;> cases hb <;> rfl
    rw [he, sendBacktestCmd_simbrokers hs₂]
  | consume v | tick v | exitSend v | finish v =>
    obtain ⟨_, _, -, -, rfl⟩ := stepEngine_cases h
    rfl

/-- One event on a SimBroker that holds `held`, each symbol once: it then holds the symbol the
event plugs into it in front of `held`, each symbol still once. -/
theorem step_simbrokers {ev : Event} (h : step b ev = some b')
    (hsb : b.simbrokers.lookup sb = some held) (hn : held.Nodup) :
    b'.simbrokers.lookup sb = some ((ev.symbolOn sb).toList ++ held) ∧
      ((ev.symbolOn sb).toList ++ held).Nodup := by
  cases ev with
  | startBacktest d ts u =>
    simp only [step] at h
    split_ifs at h
    obtain ⟨⟨b₁, r⟩, hs, rfl⟩ := Option.map_eq_some'.1 h
    exact startBacktest_simbrokers hs hsb hn
  | spawnSimbroker v =>
    simp only [step] at h
    split_ifs at h with hv
    cases h
    have hvs : v ≠ sb := fun h => hv (h ▸ AList.lookup_isSome.1 (by simp [hsb]))
    exact ⟨by simp [initSimbroker, AList.lookup_insert_ne hvs.symm, hsb, Event.symbolOn], hn⟩
  | _ =>
    rw [step_simbrokers_eq h (fun _ _ _ => by simp) fun _ => by simp]
    exact ⟨hsb, hn⟩

theorem run_simbrokers {evs : List Event} (h : run b evs = some b')
    (hsb : b.simbrokers.lookup sb = some held) (hn : held.Nodup) :
    b'.simbrokers.lookup sb = some ((evs.filterMap (Event.symbolOn sb)).reverse ++ held) ∧
      ((evs.filterMap (Event.symbolOn sb)).reverse ++ held).Nodup := by
  induction evs generalizing b held with
  | nil => cases h; exact ⟨hsb, hn⟩
  | cons ev evs ih =>
    obtain ⟨b₁, h₁, h₂⟩ := Option.bind_eq_some.1 h
    obtain ⟨hsb₁, hn₁⟩ := step_simbrokers h₁ hsb hn
    have h' := ih h₂ hsb₁ hn₁
    cases hs : ev.symbolOn sb <;> simpa [List.filterMap_cons, hs] using h'

theorem run_append {evs evs' : List Event} :
    run b (evs ++ evs') = run b evs >>= fun b => run b evs' := by
  induction evs generalizing b with
  | nil => rfl
  | cons ev evs ih => simp only [List.cons_append, run, List.append_eq, ih, bind_assoc]

theorem run_spawned_simbroker {b₀ : Backtester} {pre post : List Event}
    (h : run b₀ (pre ++ .spawnSimbroker sb :: post) = some b) :
    b.simbrokers.lookup sb = some (post.filterMap (Event.symbolOn sb)).reverse ∧
      (post.filterMap (Event.symbolOn sb)).Nodup := by
  rw [run_append] at h
  obtain ⟨b₁, -, h₁⟩ := Option.bind_eq_some.1 h
  obtain ⟨b₂, h₂, h₃⟩ := Option.bind_eq_some.1 h₁
  simp only [step] at h₂
  split_ifs at h₂
  cases h₂
  have h' := run_simbrokers h₃
    (show (b₁.initSimbroker sb).simbrokers.lookup sb = some [] by simp [initSimbroker])
    List.nodup_nil
  simpa using h'

/-- In every run of the backtester's events, a SimBroker holds, from its spawn on, exactly the
symbols of the backtests started on it, latest first, each once: no tickstream is ever taken out
of it, and a second backtest of one symbol on it cannot start, also after the first one has
stopped. -/
theorem simbroker_holds_started_symbols (b₀ : Backtester) (pre post : List Event) (sb : Uuid)
    (b : Backtester) (h : run b₀ (pre ++ .spawnSimbroker sb :: post) = some b) :
    b.simbrokers.lookup sb = some (post.filterMap (Event.symbolOn sb)).reverse ∧
      (post.filterMap (Event.symbolOn sb)).Nodup :=
  run_spawned_simbroker h

/-- A backtest of `symbol` on the SimBroker `sb`, on an empty stream, started under `u`. -/
def startOn (symbol : String) (sb u : Uuid) : Event :=
  .startBacktest ⟨none, none, none, symbol, .fast 0, .random, .simBroker sb⟩ (.ok []) u

/-- A backtest that fails before its SimBroker is spawned, then two on it: the SimBroker holds
the two symbols, the latest first. -/
theorem simbroker_holds_two_symbols :
    ∃ b, run (new (Uuid.ofByte 1)) ([startOn "A" (Uuid.ofByte 2) (Uuid.ofByte 3)] ++
        .spawnSimbroker (Uuid.ofByte 2) ::
          [startOn "A" (Uuid.ofByte 2) (Uuid.ofByte 4), startOn "B" (Uuid.ofByte 2) (Uuid.ofByte 5)]) =
        some b ∧
      b.simbrokers.lookup (Uuid.ofByte 2) = some (List.filterMap (Event.symbolOn (Uuid.ofByte 2))
        [startOn "A" (Uuid.ofByte 2) (Uuid.ofByte 4), startOn "B" (Uuid.ofByte 2) (Uuid.ofByte 5)]).reverse ∧
      (List.filterMap (Event.symbolOn (Uuid.ofByte 2))
        [startOn "A" (Uuid.ofByte 2) (Uuid.ofByte 4), startOn "B" (Uuid.ofByte 2) (Uuid.ofByte 5)]).Nodup := by
  obtain ⟨b, h⟩ : ∃ b, run (new (Uuid.ofByte 1)) ([startOn "A" (Uuid.ofByte 2) (Uuid.ofByte 3)] ++
      .spawnSimbroker (Uuid.ofByte 2) ::
        [startOn "A" (Uuid.ofByte 2) (Uuid.ofByte 4), startOn "B" (Uuid.ofByte 2) (Uuid.ofByte 5)]) =
      some b := ⟨_, rfl⟩
  exact ⟨b, h, simbroker_holds_started_symbols _ _ _ _ _ h⟩

example : List.filterMap (Event.symbolOn (Uuid.ofByte 2))
    [startOn "A" (Uuid.ofByte 2) (Uuid.ofByte 4), startOn "B" (Uuid.ofByte 2) (Uuid.ofByte 5)] =
      ["A", "B"] := by
  decide

/-! ## A second tickstream on a SimBroker -/

section Listen

variable {σ : Type} (dec : Json → Option σ)
  (parseDefinition : String → Except String BacktestDefinition)
  (serializeHandle : Uuid → BacktestHandle → Option Json)

/-- A `StartBacktest` of a symbol on a SimBroker that has taken a tickstream of that symbol since
its spawn, in any run of the backtester's events and also after that backtest has stopped, is a
duplicate registration: `register_tickstream(..).unwrap()` panics, and the listener ends with the
process, publishing nothing for it. -/
theorem duplicate_tickstream_panics (b₀ : Backtester) (pre post : List Event) (sb : Uuid)
    (b : Backtester) (h : run b₀ (pre ++ .spawnSimbroker sb :: post) = some b)
    (raw : String) (w : WrappedCommand σ) (hw : WrappedCommand.fromStr dec raw = .ok w)
    (s : String) (hc : w.cmd = .startBacktest s) (d : BacktestDefinition)
    (hd : parseDefinition s = .ok d) (hsb : d.dataDest = .simBroker sb)
    (hsym : d.symbol ∈ post.filterMap (Event.symbolOn sb)) (draw : Draw) (ticks : List Tick)
    (ht : draw.tickstream = .ok ticks) (killed : Bool) (rest : List Input) :
    listen dec parseDefinition serializeHandle b killed (.message raw draw :: rest) =
      some (b, [], .panicked) := by
  have hst : b.startBacktest d draw.tickstream draw.uuid = none := by
    simp [startBacktest, registerTickstream, ht, hsb, (run_spawned_simbroker h).1, hsym]
  simp [listen, hw, respond, hc, hd, hst]

/-- A `StartBacktest` of one symbol on one SimBroker, wrapped with the uuid ending in 6. -/
def startMessage : String :=
  "\x7b\"uuid\":\"00000000-0000-0000-0000-000000000006\",\"cmd\":\x7b\"StartBacktest\":\x7b\"definition\":\"A\"\x7d\x7d\x7d"

/-- A backtest of "A" on a SimBroker, started and stopped: a second one panics. -/
theorem second_start_on_simbroker_panics :
    ∃ b, run (new (Uuid.ofByte 1)) ([] ++ .spawnSimbroker (Uuid.ofByte 2) ::
        [startOn "A" (Uuid.ofByte 2) (Uuid.ofByte 3), .stopBacktest (Uuid.ofByte 3)]) = some b ∧
      listen (fun _ => (none : Option Unit))
        (fun _ => .ok ⟨none, none, none, "A", .fast 0, .random, .simBroker (Uuid.ofByte 2)⟩)
        (fun _ _ => none) b false [.message startMessage ⟨Uuid.ofByte 4, .ok []⟩] =
        some (b, [], .panicked) := by
  obtain ⟨b, h⟩ : ∃ b, run (new (Uuid.ofByte 1)) ([] ++ .spawnSimbroker (Uuid.ofByte 2) ::
      [startOn "A" (Uuid.ofByte 2) (Uuid.ofByte 3), .stopBacktest (Uuid.ofByte 3)]) = some b :=
    ⟨_, by rfl⟩
  exact ⟨b, h, duplicate_tickstream_panics _ _ _ _ _ _ _ _ h startMessage
    ⟨Uuid.ofByte 6, .startBacktest "A"⟩ rfl "A" rfl _ rfl rfl (by decide) _ [] rfl false []⟩

end Listen

/-! ## The SimBrokers listed -/

/-- The SimBroker an event spawns. -/
def Event.spawned : Event → Option Uuid
  | .spawnSimbroker u => some u
  | _ => none

theorem step_simbroker_keys {ev : Event} (h : step b ev = some b') :
    List.Perm b'.simbrokers.keys (b.simbrokers.keys ++ ev.spawned.toList) := by
  cases ev with
  | startBacktest d ts u =>
    simp only [step] at h
    split_ifs at h
    obtain ⟨⟨b₁, r⟩, hs, rfl⟩ := Option.map_eq_some'.1 h
    rcases startBacktest_simbrokers_cases hs with ⟨he, -⟩ | ⟨_, sb, _, -, -, hl, -, he⟩
    · simp [he, Event.spawned]
    · have hsb : sb ∈ b.simbrokers.keys := AList.mem_keys.1 (AList.lookup_isSome.1 (by simp [hl]))
      simpa [he, AList.keys_insert, Event.spawned] using (List.perm_cons_erase hsb).symm
  | spawnSimbroker v =>
    simp only [step] at h
    split_ifs at h with hv
    cases h
    simp only [initSimbroker, AList.keys_insert, Event.spawned, Option.toList_some,
      List.erase_of_not_mem (mt AList.mem_keys.2 hv)]
    exact (List.perm_append_singleton v _).symm
  | _ => simp [step_simbrokers_eq h (fun _ _ _ => by simp) fun _ => by simp, Event.spawned]

theorem run_simbroker_keys {evs : List Event} (h : run b evs = some b') :
    List.Perm b'.simbrokers.keys (b.simbrokers.keys ++ evs.filterMap Event.spawned) := by
  induction evs generalizing b with
  | nil => cases h; simp
  | cons ev evs ih =>
    obtain ⟨b₁, h₁, h₂⟩ := Option.bind_eq_some.1 h
    have h' := (ih h₂).trans ((step_simbroker_keys h₁).append_right _)
    cases hs : ev.spawned <;> simpa [List.filterMap_cons, hs] using h'

/-- In every run of the backtester's events, the `ListSimbrokers` reply lists the uuids of the
SimBrokers there were at the start and of those spawned since, each once and in some order: no
SimBroker is lost, none is listed twice, and starting a backtest on one does not add it again. -/
theorem list_simbrokers_names_spawned (b₀ : Backtester) (evs : List Event) (b : Backtester)
    (h : run b₀ evs = some b) :
    ∃ ids, b.listSimbrokers = .info (Json.arr (ids.map fun u => .str u.hyphenated)).toString ∧
      List.Perm ids (b₀.simbrokers.keys ++ evs.filterMap Event.spawned) ∧ ids.Nodup :=
  ⟨b.simbrokers.keys, rfl, run_simbroker_keys h, b.simbrokers.keys_nodup⟩

/-- Two SimBrokers spawned, a backtest started on the first in between. -/
theorem list_simbrokers_after_two_spawns :
    ∃ b, run (new (Uuid.ofByte 1)) [.spawnSimbroker (Uuid.ofByte 2),
        startOn "A" (Uuid.ofByte 2) (Uuid.ofByte 4), .spawnSimbroker (Uuid.ofByte 3)] = some b ∧
      ∃ ids, b.listSimbrokers = .info (Json.arr (ids.map fun u => .str u.hyphenated)).toString ∧
        List.Perm ids ((new (Uuid.ofByte 1)).simbrokers.keys ++
          List.filterMap Event.spawned [.spawnSimbroker (Uuid.ofByte 2),
            startOn "A" (Uuid.ofByte 2) (Uuid.ofByte 4), .spawnSimbroker (Uuid.ofByte 3)]) ∧
        ids.Nodup := by
  obtain ⟨b, h⟩ : ∃ b, run (new (Uuid.ofByte 1)) [.spawnSimbroker (Uuid.ofByte 2),
      startOn "A" (Uuid.ofByte 2) (Uuid.ofByte 4), .spawnSimbroker (Uuid.ofByte 3)] = some b :=
    ⟨_, rfl⟩
  exact ⟨b, h, list_simbrokers_names_spawned _ _ _ h⟩

end Backtester

end TickGrinder
